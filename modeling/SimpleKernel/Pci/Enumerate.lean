import Mathlib.Tactic.IntervalCases
import SimpleKernel.Pci.Model

/-!
# What `pci_enumerate` lists

`presentFunctions` filters all locations of a configuration space, in bus, slot and function
order. The array is kept `Listed`: it holds the first present functions as far as there is
room, and no other slot has changed; a turn of each of the three loops adds the functions it
visits (`functionBody_listed`, `slotBody_listed`, `busBody_listed`).
-/

namespace SimpleKernel.Pci
set_option autoImplicit false
open Lib Kstring

/-! ## Presence -/

/-- A bus, a slot and a function. -/
structure Location where
  bus : Nat
  slot : Nat
  function : Nat
  deriving DecidableEq

section

variable (space : ConfigSpace) (l : Location)

/-- A dword register of a function. -/
def Location.register (reg : BitVec 6) : BitVec 32 :=
  space (BitVec.ofNat 8 l.bus) (BitVec.ofNat 5 l.slot) (BitVec.ofNat 3 l.function) reg

def Location.vendor : BitVec 16 := (l.register space 0).extractLsb' 0 16

/-- Function 0 of the slot. -/
def Location.first : Location := { l with function := 0 }

/-- Function 0 is there when it has a vendor; another function, when function 0 is there with bit 7
of its header type set and it has a vendor itself. -/
def Present : Prop :=
  l.first.vendor space ≠ 0xFFFF ∧
    (l.function = 0 ∨ ((l.first.register space 3).getLsbD 23 = true ∧ l.vendor space ≠ 0xFFFF))

instance : Decidable (Present space l) := inferInstanceAs (Decidable (_ ∧ _))

/-- The record of a function: the bits of its own registers. -/
def Location.device : PciDevice where
  bus := BitVec.ofNat 8 l.bus
  slot := BitVec.ofNat 8 l.slot
  function := BitVec.ofNat 8 l.function
  vendorId := (l.register space 0).extractLsb' 0 16
  deviceId := (l.register space 0).extractLsb' 16 16
  classCode := (l.register space 2).extractLsb' 24 8
  subclass := (l.register space 2).extractLsb' 16 8
  progIf := (l.register space 2).extractLsb' 8 8
  headerType := (l.register space 3).extractLsb' 16 8

end

/-- The locations of a slot, of a bus, and all. -/
def slotLocations (bus slot : Nat) : List Location := (List.range 8).map fun function => ⟨bus, slot, function⟩

def busLocations (bus : Nat) : List Location := (List.range 32).flatMap (slotLocations bus)

def locations : List Location := (List.range 256).flatMap busLocations

/-- **The present functions**, in order. -/
def presentFunctions (space : ConfigSpace) : List Location := locations.filter fun l => Present space l

/-! ## Registers -/

/-- **The fields of an address do not collide.** -/
theorem configAddress_fields (bus : BitVec 8) (slot : BitVec 5) (function : BitVec 3) (offset : BitVec 8) :
    (pciConfigAddress bus (slot.setWidth 8) (function.setWidth 8) offset).getLsbD 31 = true ∧
      (pciConfigAddress bus (slot.setWidth 8) (function.setWidth 8) offset).extractLsb' 16 8 = bus ∧
      (pciConfigAddress bus (slot.setWidth 8) (function.setWidth 8) offset).extractLsb' 11 5 = slot ∧
      (pciConfigAddress bus (slot.setWidth 8) (function.setWidth 8) offset).extractLsb' 8 3 = function ∧
      (pciConfigAddress bus (slot.setWidth 8) (function.setWidth 8) offset).extractLsb' 2 6 =
        offset.extractLsb' 2 6 := by
  unfold pciConfigAddress
  refine ⟨by simp, ?_, ?_, ?_, ?_⟩
  all_goals
    apply BitVec.eq_of_getLsbD_eq
    intro i hi
    interval_cases i <;> simp

theorem setWidth_ofNat {w n : Nat} (small : n < 2 ^ w) (narrow : w ≤ 8) :
    (BitVec.ofNat w n).setWidth 8 = BitVec.ofNat 8 n := by
  apply BitVec.eq_of_toNat_eq
  have wide : 2 ^ w ≤ 2 ^ 8 := Nat.pow_le_pow_right (by decide) narrow
  rw [BitVec.toNat_setWidth, BitVec.toNat_ofNat, BitVec.toNat_ofNat, Nat.mod_eq_of_lt small]

section

variable {space : ConfigSpace} {p : Ports} {l : Location} {bus slot function : BitVec 8}

/-- The bytes name a location that exists. -/
structure Location.At (l : Location) (bus slot function : BitVec 8) : Prop where
  bus_eq : bus = BitVec.ofNat 8 l.bus
  slot_eq : slot = BitVec.ofNat 8 l.slot
  function_eq : function = BitVec.ofNat 8 l.function
  bus_lt : l.bus < 256
  slot_lt : l.slot < 32
  function_lt : l.function < 8

theorem pciConfigRead32_eq (names : l.At bus slot function) (offset : BitVec 8) :
    (pciConfigRead32 space p bus slot function offset).1 = l.register space (offset.extractLsb' 2 6) := by
  obtain ⟨enable, bus, slot, function, reg⟩ :=
    configAddress_fields (BitVec.ofNat 8 l.bus) (BitVec.ofNat 5 l.slot) (BitVec.ofNat 3 l.function) offset
  rw [setWidth_ofNat names.slot_lt (by decide), setWidth_ofNat names.function_lt (by decide), ← names.bus_eq,
    ← names.slot_eq, ← names.function_eq] at *
  show configData space (pciConfigAddress _ _ _ _) = _
  unfold configData Location.register
  rw [if_pos enable, bus, slot, function, reg, names.bus_eq]

theorem low_half (v : BitVec 32) : (v &&& 0xFFFF#32).setWidth 16 = v.extractLsb' 0 16 := by
  apply BitVec.eq_of_getLsbD_eq
  intro i hi
  interval_cases i <;> simp

theorem high_half (v : BitVec 32) : (v >>> 16).setWidth 16 = v.extractLsb' 16 16 := by
  apply BitVec.eq_of_getLsbD_eq
  intro i hi
  interval_cases i <;> simp

/-- `(v >> k) & 0xFF`. -/
theorem byte_at (v : BitVec 32) (k : Nat) : ((v >>> k) &&& 0xFF#32).setWidth 8 = v.extractLsb' k 8 := by
  apply BitVec.eq_of_getLsbD_eq
  intro i hi
  interval_cases i <;> simp

/-- Bit 7 of the header type. -/
theorem header_bit (v : BitVec 32) : v.extractLsb' 16 8 &&& 0x80#8 = 0 ↔ v.getLsbD 23 = false := by
  have mask : (0x80#8 : BitVec 8) = BitVec.twoPow 8 7 := by decide
  rw [mask, BitVec.and_twoPow, BitVec.getLsbD_extractLsb']
  cases v.getLsbD 23 with
  | false => simp
  | true => simp

theorem pciConfigRead16_vendor (names : l.At bus slot function) :
    (pciConfigRead16 space p bus slot function 0x00).1 = l.vendor space := by
  have word := @pciConfigRead32_eq space p l bus slot function names 0x00
  unfold pciConfigRead16
  dsimp only
  rw [word]
  exact low_half _

theorem pciFillDevice_eq (names : l.At bus slot function) :
    (pciFillDevice space p bus slot function).1 = l.device space := by
  have word (q : Ports) (offset : BitVec 8) := @pciConfigRead32_eq space q l bus slot function names offset
  unfold pciFillDevice Location.device
  dsimp only
  rw [word, word, word, low_half, high_half, byte_at, byte_at, byte_at, byte_at, names.bus_eq, names.slot_eq,
    names.function_eq]
  rfl

end

/-! ## The array -/

/-- The array lists the functions `ls` as far as there is room, and is otherwise what it was. -/
structure Listed (space : ConfigSpace) (old : Nat → PciDevice) (maxDevices : BitVec 8) (s : Enumeration)
    (ls : List Location) : Prop where
  count : s.count.toNat = min maxDevices.toNat ls.length
  written : ∀ i (_ : i < ls.length), i < maxDevices.toNat → s.devices i = ls[i].device space
  kept : ∀ i, s.count.toNat ≤ i → s.devices i = old i

section

variable {space : ConfigSpace} {old : Nat → PciDevice} {maxDevices : BitVec 8} {s : Enumeration} {ls : List Location}
  {l : Location} {bus slot function : BitVec 8}

theorem Listed.room (h : Listed space old maxDevices s ls) (go : hasRoom maxDevices s = true) :
    ls.length < maxDevices.toNat := by
  have below : s.count.toNat < maxDevices.toNat := of_decide_eq_true go
  have count := h.count
  omega

/-- A full array lists any more functions as well. -/
theorem Listed.full (h : Listed space old maxDevices s ls) (stop : hasRoom maxDevices s = false)
    (more : List Location) :
    Listed space old maxDevices s (ls ++ more) := by
  have full : ¬ s.count.toNat < maxDevices.toNat := of_decide_eq_false stop
  have count := h.count
  constructor
  · rw [count, List.length_append]
    omega
  · intro i _ below
    have inside : i < ls.length := by omega
    rw [List.getElem_append_left inside]
    exact h.written i inside below
  · exact h.kept

/-- The ports play no part. -/
theorem Listed.ports (h : Listed space old maxDevices s ls) (p : Ports) :
    Listed space old maxDevices { s with ports := p } ls := ⟨h.count, h.written, h.kept⟩

theorem Listed.addDevice (h : Listed space old maxDevices s ls) (room : ls.length < maxDevices.toNat)
    (names : l.At bus slot function) :
    Listed space old maxDevices (addDevice space bus slot function s) (ls ++ [l]) := by
  have count := h.count
  have bound := maxDevices.isLt
  have here : s.count.toNat = ls.length := by omega
  have next : (s.count + 1).toNat = ls.length + 1 := by bv_omega
  unfold Pci.addDevice
  constructor
  · rw [List.length_append, List.length_singleton]
    dsimp only
    omega
  · intro i inside below
    rw [List.length_append, List.length_singleton] at inside
    dsimp only
    unfold setCell
    rw [here, pciFillDevice_eq names]
    by_cases last : i = ls.length
    · subst last
      rw [if_pos rfl, List.getElem_concat_length rfl]
    · rw [if_neg last, List.getElem_append_left (by omega)]
      exact h.written i (by omega) below
  · intro i above
    dsimp only at above
    have other : i ≠ s.count.toNat := by omega
    exact (if_neg other).trans (h.kept i (by omega))

/-! ## The three loops -/

/-- One of the functions 1 to 7. -/
theorem functionBody_listed {number : Nat} (h : Listed space old maxDevices s ls) (go : hasRoom maxDevices s = true)
    (names : l.At bus slot (BitVec.ofNat 8 number)) (first : l.first.vendor space ≠ 0xFFFF)
    (multi : (l.first.register space 3).getLsbD 23 = true) (other : l.function ≠ 0) :
    Listed space old maxDevices (functionBody space bus slot number s) (ls ++ [l].filter fun l => Present space l) := by
  unfold functionBody
  dsimp only
  rw [pciConfigRead16_vendor names]
  by_cases absent : l.vendor space = 0xFFFF
  · have missing : ¬ Present space l := fun present => present.2.elim other fun p => p.2 absent
    rw [if_pos absent, List.filter_cons_of_neg (by simpa using missing), List.filter_nil, List.append_nil]
    exact h.ports _
  · have present : Present space l := ⟨first, .inr ⟨multi, absent⟩⟩
    rw [if_neg absent, List.filter_cons_of_pos (by simpa using present), List.filter_nil]
    exact (h.ports _).addDevice (h.room go) names

section

variable {b n : Nat}

/-- A slot without function 0 has none. -/
theorem slotLocations_absent (absent : (Location.mk b n 0).vendor space = 0xFFFF) :
    (slotLocations b n).filter (fun l => Present space l) = [] := by
  rw [List.filter_eq_nil_iff]
  intro l member
  obtain ⟨f, -, rfl⟩ := List.mem_map.1 member
  have missing : ¬ Present space ⟨b, n, f⟩ := fun present => present.1 absent
  simpa using missing

/-- Function 0 comes first. -/
theorem slotLocations_present (present : (Location.mk b n 0).vendor space ≠ 0xFFFF) :
    (slotLocations b n).filter (fun l => Present space l) = ⟨b, n, 0⟩ ::
      (List.range' 1 7).flatMap fun f => [⟨b, n, f⟩].filter fun l => Present space l := by
  have zero : Present space ⟨b, n, 0⟩ := ⟨present, .inl rfl⟩
  have functions : List.range 8 = 0 :: List.range' 1 7 := by decide
  rw [slotLocations, functions, List.map_cons, List.filter_cons_of_pos (by simpa using zero), ← List.filter_flatMap,
    List.map_eq_flatMap]

/-- A slot with a single function has no others. -/
theorem slotLocations_single (single : ((Location.mk b n 0).register space 3).getLsbD 23 = false) :
    ((List.range' 1 7).flatMap fun f => [(⟨b, n, f⟩ : Location)].filter fun l => Present space l) = [] := by
  rw [List.flatMap_eq_nil_iff]
  intro f member
  have positive := (List.mem_range'_1.1 member).1
  have missing : ¬ Present space ⟨b, n, f⟩ := by
    intro present
    obtain ⟨-, zero | other⟩ := present
    · dsimp only at zero
      omega
    · rw [Location.first, single] at other
      exact absurd other.1 Bool.false_ne_true
  rw [List.filter_cons_of_neg (by simpa using missing), List.filter_nil]

theorem slotBody_listed (h : Listed space old maxDevices s ls) (go : hasRoom maxDevices s = true) (inBus : b < 256)
    (inSlot : n < 32) : Listed space old maxDevices (slotBody space maxDevices (BitVec.ofNat 8 b) n s)
      (ls ++ (slotLocations b n).filter fun l => Present space l) := by
  have names (f : Nat) (small : f < 8) :
      (Location.mk b n f).At (BitVec.ofNat 8 b) (BitVec.ofNat 8 n) (BitVec.ofNat 8 f) :=
    ⟨rfl, rfl, rfl, inBus, inSlot, small⟩
  have zero : (Location.mk b n 0).At (BitVec.ofNat 8 b) (BitVec.ofNat 8 n) 0 := names 0 (by decide)
  unfold slotBody
  dsimp only
  rw [pciConfigRead16_vendor zero]
  by_cases absent : (Location.mk b n 0).vendor space = 0xFFFF
  · rw [if_pos absent, slotLocations_absent absent, List.append_nil]
    exact h.ports _
  · have added (p : Ports) := (h.ports p).addDevice (h.room go) zero
    have third : (0x0C : BitVec 8).extractLsb' 2 6 = 3 := by decide
    rw [if_neg absent, slotLocations_present absent, pciConfigRead32_eq zero, third, byte_at, List.append_cons]
    simp only [header_bit]
    cases multi : ((Location.mk b n 0).register space 3).getLsbD 23 with
    | false =>
      rw [slotLocations_single multi, List.append_nil, if_pos rfl]
      exact (added _).ports _
    | true =>
      rw [if_neg fun eq => nomatch eq]
      refine forWhile_collect (fun s ls stop h more => h.full stop more) ?_ ((added _).ports _)
      intro f lo hi s ls go h
      exact functionBody_listed h go (names f (by omega)) absent multi (Nat.ne_of_gt lo)

theorem busBody_listed (h : Listed space old maxDevices s ls) (inBus : b < 256) :
    Listed space old maxDevices (busBody space maxDevices b s)
      (ls ++ (busLocations b).filter fun l => Present space l) := by
  rw [busLocations, List.filter_flatMap, List.range_eq_range']
  refine forWhile_collect (fun s ls stop h more => h.full stop more) ?_ h
  intro n _ hi s ls go h
  exact slotBody_listed h go inBus (by omega)

end

end

/-- What a pass over all buses leaves. -/
theorem pciEnumerate_listed (space : ConfigSpace) (maxDevices : BitVec 8) (positive : maxDevices ≠ 0) (ports : Ports)
    (old : Nat → PciDevice) : ∃ s, pciEnumerate space maxDevices ports (some old) = (s.count, some s.devices, s.ports) ∧
      Listed space old maxDevices s (presentFunctions space) := by
  have empty : Listed space old maxDevices ⟨ports, old, 0⟩ [] := by
    constructor
    · exact (Nat.min_zero _).symm
    · intro i inside
      exact absurd inside (Nat.not_lt_zero i)
    · intro i _
      rfl
  refine ⟨forWhile (hasRoom maxDevices) (busBody space maxDevices) 256 0 ⟨ports, old, 0⟩, if_neg positive, ?_⟩
  rw [presentFunctions, locations, List.filter_flatMap, List.range_eq_range', ← List.nil_append (List.flatMap _ _)]
  refine forWhile_collect (fun s ls stop h more => h.full stop more) ?_ empty
  intro b _ hi s ls _ h
  exact busBody_listed h (by omega)

/-- **Enumeration lists exactly the present functions**, in order and as far as there is room; the
count returned is the number of slots written. -/
theorem pci_enumerate_exact (space : ConfigSpace) (maxDevices : BitVec 8) (positive : maxDevices ≠ 0) (ports : Ports)
    (old : Nat → PciDevice) : ∃ count devices ports',
      pciEnumerate space maxDevices ports (some old) = (count, some devices, ports') ∧
      count.toNat = min maxDevices.toNat (presentFunctions space).length ∧
      (∀ i (_ : i < (presentFunctions space).length), i < count.toNat →
        devices i = (presentFunctions space)[i].device space) ∧
      ∀ i, count.toNat ≤ i → devices i = old i := by
  obtain ⟨s, run, all⟩ := pciEnumerate_listed space maxDevices positive ports old
  refine ⟨_, _, _, run, all.count, ?_, all.kept⟩
  intro i inside written
  have count := all.count
  exact all.written i inside (by omega)

/-- Every function of every slot is present. -/
def fullSpace : ConfigSpace := fun _ _ _ _ => 0x00800000

def blankDevice : PciDevice := ⟨0, 0, 0, 0, 0, 0, 0, 0, 0⟩

/-- An array of one device fills up in the first slot. -/
theorem pci_enumerate_exact_full : ∃ count devices ports',
    pciEnumerate fullSpace 1 ⟨0⟩ (some fun _ => blankDevice) = (count, some devices, ports') ∧ count.toNat = 1 ∧
      ∀ i, 1 ≤ i → devices i = blankDevice := by
  have host : ⟨0, 0, 0⟩ ∈ presentFunctions fullSpace := by
    refine List.mem_filter.2 ⟨?_, by decide⟩
    refine List.mem_flatMap.2 ⟨0, by decide, List.mem_flatMap.2 ⟨0, by decide, by decide⟩⟩
  have some := List.length_pos_of_mem host
  obtain ⟨count, devices, ports', run, length, -, kept⟩ :=
    pci_enumerate_exact fullSpace 1 (by decide) ⟨0⟩ fun _ => blankDevice
  have one : count.toNat = 1 := by
    rw [length]
    exact Nat.min_eq_left some
  exact ⟨count, devices, ports', run, one, fun i above => kept i (one ▸ above)⟩

end SimpleKernel.Pci
