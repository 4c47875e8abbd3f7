import SimpleKernel.Boot.Paging
import Mathlib.Tactic.Common

/-!
# The boot-info hand-off

`reported` is the memory map that the firmware answers with, whatever the loader does.
`collect_e820_map` ends and leaves these entries where `readMap` finds them
(`collectLoop_spec`); `fill_boot_info` writes the structure that `readBootInfo` reads
(`fillBootInfo_spec`), and `setup_page_tables` stays below both.
-/

namespace SimpleKernel.Boot
set_option autoImplicit false
open Lib

/-! ## What the firmware reports -/

/-- The entry and the next continuation value, if the call succeeds. An entry of 20 bytes
counts as enabled. -/
def Response.toEntry : Response → Option (MemoryMapEntry × BitVec 32)
  | .carry => none
  | .signature _ _ => none
  | .entry base length type acpi next => some (⟨base.toNat, length.toNat, type.toNat, (acpi.getD 1).toNat⟩, next)

/-- **The memory map**: the entries up to the first failure, to the first continuation value
`0`, or to the limit. -/
def reported (bios : Bios) : Nat → BitVec 32 → List MemoryMapEntry
  | 0, _ => []
  | n + 1, continuation =>
    match (bios continuation).toEntry with
    | none => []
    | some (e, next) => e :: if next = 0 then [] else reported bios n next

theorem reported_length_le (bios : Bios) (n : Nat) (continuation : BitVec 32) :
    (reported bios n continuation).length ≤ n := by
  induction n generalizing continuation with
  | zero => exact le_rfl
  | succ n ih =>
    unfold reported
    split
    · exact Nat.zero_le _
    · rename_i e next _
      rw [List.length_cons]
      split
      · exact Nat.succ_le_succ (Nat.zero_le n)
      · exact Nat.succ_le_succ (ih next)

/-! ## Where the loader writes -/

/-- The bytes of the memory map. -/
def MapArea (a : Nat) : Prop := 0x5400 ≤ a ∧ a < 0x5A00

/-- The bytes of the structure and the map. -/
def BootArea (a : Nat) : Prop := 0x5000 ≤ a ∧ a < 0x5A00

/-- The bytes of `memory_map_count`. -/
def CountBytes (v : Labels) (a : Nat) : Prop := v.memoryMapCount ≤ a ∧ a < v.memoryMapCount + 2

/-! ## Entries in memory -/

section

variable {m m' : Mem} {a k : Nat}

theorem readEntry_congr (same : ∀ x, a ≤ x → x < a + 24 → m' x = m x) : readEntry m' a = readEntry m a := by
  unfold readEntry
  rw [loadLE_congr fun x lo hi => same x (by omega) (by omega),
    loadLE_congr fun x lo hi => same x (by omega) (by omega),
    loadLE_congr fun x lo hi => same x (by omega) (by omega),
    loadLE_congr fun x lo hi => same x (by omega) (by omega)]

theorem readMap_congr (same : ∀ x, a ≤ x → x < a + 24 * k → m' x = m x) : readMap m' a k = readMap m a k := by
  apply List.map_congr_left
  intro i member
  have small := List.mem_range.1 member
  rw [sizeofMemoryMapEntry_eq]
  exact readEntry_congr fun x lo hi => same x (by omega) (by omega)

theorem readMap_succ : readMap m a (k + 1) = readMap m a k ++ [readEntry m (a + 24 * k)] := by
  rw [readMap, List.range_succ, List.map_append, List.map_singleton, sizeofMemoryMapEntry_eq, Nat.mul_comm k 24]
  rfl

theorem writeEntry_outside (base length : BitVec 64) (type : BitVec 32) (acpi : Option (BitVec 32)) :
    SameOutside (fun x => a ≤ x ∧ x < a + 24) m (writeEntry m a base length type acpi) := by
  have fields := ((storeLE_same_outside m a 8 base.toNat).mono (Q := fun x => a ≤ x ∧ x < a + 24) (by omega)).trans
    (((storeLE_same_outside _ (a + 8) 8 length.toNat).mono (by omega)).trans
      ((storeLE_same_outside _ (a + 16) 4 type.toNat).mono (by omega)))
  unfold writeEntry
  cases acpi with
  | none => exact fields
  | some acpi => exact fields.trans ((storeLE_same_outside _ (a + 20) 4 acpi.toNat).mono (by omega))

/-- **The entry that the firmware stored**, over an `acpi` field set to 1. -/
theorem readEntry_writeEntry (base length : BitVec 64) (type : BitVec 32) (acpi : Option (BitVec 32))
    (preset : loadLE m (a + 20) 4 = 1) :
    readEntry (writeEntry m a base length type acpi) a =
      ⟨base.toNat, length.toNat, type.toNat, (acpi.getD 1).toNat⟩ := by
  have b : base.toNat < 256 ^ 8 := Nat.lt_of_lt_of_eq base.isLt (by decide)
  have l : length.toNat < 256 ^ 8 := Nat.lt_of_lt_of_eq length.isLt (by decide)
  have t : type.toNat < 256 ^ 4 := Nat.lt_of_lt_of_eq type.isLt (by decide)
  unfold readEntry writeEntry
  cases acpi with
  | none =>
    simp only [MemoryMapEntry.mk.injEq]
    refine ⟨?_, ?_, ?_, ?_⟩
    · rw [loadLE_storeLE_apart (by omega), loadLE_storeLE_apart (by omega), loadLE_storeLE_same, Nat.mod_eq_of_lt b]
    · rw [loadLE_storeLE_apart (by omega), loadLE_storeLE_same, Nat.mod_eq_of_lt l]
    · rw [loadLE_storeLE_same, Nat.mod_eq_of_lt t]
    · rw [loadLE_storeLE_apart (by omega), loadLE_storeLE_apart (by omega), loadLE_storeLE_apart (by omega), preset]
      rfl
  | some acpi =>
    have c : acpi.toNat < 256 ^ 4 := Nat.lt_of_lt_of_eq acpi.isLt (by decide)
    simp only [MemoryMapEntry.mk.injEq]
    refine ⟨?_, ?_, ?_, ?_⟩
    · rw [loadLE_storeLE_apart (by omega), loadLE_storeLE_apart (by omega), loadLE_storeLE_apart (by omega),
        loadLE_storeLE_same, Nat.mod_eq_of_lt b]
    · rw [loadLE_storeLE_apart (by omega), loadLE_storeLE_apart (by omega), loadLE_storeLE_same, Nat.mod_eq_of_lt l]
    · rw [loadLE_storeLE_apart (by omega), loadLE_storeLE_same, Nat.mod_eq_of_lt t]
    · rw [loadLE_storeLE_same, Nat.mod_eq_of_lt c]
      rfl

end

/-! ## `collect_e820_map` -/

/-- `memory_map_count` and the map hold the entries `es`. -/
structure MapIs (v : Labels) (es : List MemoryMapEntry) (m : Mem) : Prop where
  count : loadLE m v.memoryMapCount 2 = es.length
  entries : readMap m 0x5400 es.length = es

section

variable {v : Labels} {es : List MemoryMapEntry} {m m' : Mem}

/-- Writing behind the entries keeps them. -/
theorem MapIs.behind (h : MapIs v es m) (same : SameOutside (fun a => 0x5400 + 24 * es.length ≤ a ∧ a < 0x5A00) m m') :
    MapIs v es m' := by
  have far := v.lower
  constructor
  · rw [same.loadLE_eq fun x lo hi => by omega]
    exact h.count
  · rw [readMap_congr fun x lo hi => same x (by omega)]
    exact h.entries

/-- The entry behind the others is counted. -/
theorem MapIs.snoc (h : MapIs v es m) (room : es.length < 64) {e : MemoryMapEntry}
    (entry : readEntry m (0x5400 + 24 * es.length) = e) :
    MapIs v (es ++ [e]) (storeLE m v.memoryMapCount 2 (loadLE m v.memoryMapCount 2 + 1)) := by
  have far := v.lower
  have out := storeLE_same_outside m v.memoryMapCount 2 (loadLE m v.memoryMapCount 2 + 1)
  constructor
  · rw [loadLE_storeLE_same, h.count, List.length_append, List.length_singleton, Nat.mod_eq_of_lt (by omega)]
  · rw [List.length_append, List.length_singleton, readMap_succ, readMap_congr fun x lo hi => out x (by omega),
      readEntry_congr fun x lo hi => out x (by omega), h.entries, entry]

end

/-- The loop head: the next entry goes behind those that are there. -/
structure Collected (v : Labels) (es : List MemoryMapEntry) (s : RealMode) : Prop extends MapIs v es s.mem where
  di : s.di.toNat = 0x5400 + 24 * es.length

section

variable {bios : Bios} {v : Labels} {es : List MemoryMapEntry} {s : RealMode} {fuel : Nat}

theorem Collected.not_full (h : Collected v es s) (room : es.length < 64) :
    ¬ loadLE s.mem v.memoryMapCount 2 ≥ memoryMapLimit := by
  rw [h.count]
  exact Nat.not_le.2 room

/-- The store before the call. -/
theorem Collected.preset (h : Collected v es s) (room : es.length < 64) :
    (s.di + 20).toNat = 0x5400 + 24 * es.length + 20 ∧
      MapIs v es (storeDword s.mem (s.di + 20).toNat 1) ∧
      SameOutside MapArea s.mem (storeDword s.mem (s.di + 20).toNat 1) := by
  have di := h.di
  have slot : (s.di + 20).toNat = 0x5400 + 24 * es.length + 20 := by bv_omega
  have out := storeLE_same_outside s.mem (s.di + 20).toNat 4 1
  rw [slot] at out
  refine ⟨slot, h.toMapIs.behind ?_, ?_⟩
  · rw [slot]
    exact out.mono fun a ha => by omega
  · rw [slot]
    apply out.mono
    intro a ha
    unfold MapArea
    omega

/-- A call that fails ends the loop. -/
theorem collectLoop_failed (h : Collected v es s) (room : es.length < 64) (failed : (bios s.ebx).toEntry = none) :
    ∃ s', collectLoop bios v (fuel + 1) s = some s' ∧ MapIs v es s'.mem ∧ SameOutside MapArea s.mem s'.mem := by
  obtain ⟨-, kept, out⟩ := h.preset room
  rw [collectLoop, if_neg (h.not_full room)]
  unfold int15
  dsimp only
  cases answer : bios s.ebx with
  | carry => exact ⟨_, if_pos rfl, kept, out⟩
  | signature eax wrong => exact ⟨_, if_pos wrong, kept, out⟩
  | entry base length type acpi next =>
    rw [answer] at failed
    cases failed

/-- A call that succeeds adds its entry. -/
theorem collectLoop_entry (h : Collected v es s) (room : es.length < 64) {e : MemoryMapEntry} {next : BitVec 32}
    (got : (bios s.ebx).toEntry = some (e, next)) :
    ∃ s', collectLoop bios v (fuel + 1) s = (if next = 0 then some s' else collectLoop bios v fuel s') ∧
      s'.ebx = next ∧ Collected v (es ++ [e]) s' ∧
      SameOutside (fun a => MapArea a ∨ CountBytes v a) s.mem s'.mem := by
  obtain ⟨slot, kept, out⟩ := h.preset room
  have di := h.di
  rw [collectLoop, if_neg (h.not_full room)]
  unfold int15
  dsimp only
  cases answer : bios s.ebx with
  | carry =>
    rw [answer] at got
    cases got
  | signature eax wrong =>
    rw [answer] at got
    cases got
  | entry base length type acpi next' =>
    rw [answer] at got
    cases got
    have preset : loadLE (storeDword s.mem (s.di + 20).toNat 1) (s.di.toNat + 20) 4 = 1 := by
      rw [slot, di]
      exact loadLE_storeLE_same _ _ 4 1
    have written := @writeEntry_outside (storeDword s.mem (s.di + 20).toNat 1) s.di.toNat base length type acpi
    have entry := readEntry_writeEntry base length type acpi preset
    rw [di] at written entry
    have stored : MapIs v es (writeEntry (storeDword s.mem (s.di + 20).toNat 1)
        (0x5400 + 24 * es.length) base length type acpi) := by
      apply kept.behind
      apply written.mono
      intro a ha
      omega
    dsimp only
    rw [di, if_neg Bool.false_ne_true, if_neg (fun ne => ne rfl), ite_not]
    refine ⟨_, rfl, rfl, ⟨stored.snoc room entry, ?_⟩, ?_⟩
    · rw [List.length_append, List.length_singleton]
      bv_omega
    · refine ((out.mono fun a ha => .inl ha).trans (written.mono fun a ha => .inl ?_)).trans
        ((storeLE_same_outside _ v.memoryMapCount 2 _).mono fun a ha => .inr ha)
      unfold MapArea
      omega

/-- **The run lemma.** The loop ends, and adds what the firmware reports. -/
theorem collectLoop_spec {n : Nat} (h : Collected v es s) (room : es.length + n = 64) (enough : n < fuel) :
    ∃ s', collectLoop bios v fuel s = some s' ∧ MapIs v (es ++ reported bios n s.ebx) s'.mem ∧
      SameOutside (fun a => MapArea a ∨ CountBytes v a) s.mem s'.mem := by
  induction n generalizing fuel es s with
  | zero =>
    obtain ⟨fuel, rfl⟩ : ∃ f, fuel = f + 1 := ⟨fuel - 1, by omega⟩
    have full : loadLE s.mem v.memoryMapCount 2 ≥ memoryMapLimit := by
      rw [h.count]
      exact Nat.le_of_eq room.symm
    refine ⟨s, ?_, ?_, .refl _ _⟩
    · rw [collectLoop, if_pos full]
    · rw [reported, List.append_nil]
      exact h.toMapIs
  | succ n ih =>
    obtain ⟨fuel, rfl⟩ : ∃ f, fuel = f + 1 := ⟨fuel - 1, by omega⟩
    have free : es.length < 64 := by omega
    rw [reported]
    cases answer : (bios s.ebx).toEntry with
    | none =>
      obtain ⟨s', run, map, out⟩ := @collectLoop_failed bios v es s fuel h free answer
      refine ⟨s', run, ?_, out.mono fun a ha => .inl ha⟩
      rw [List.append_nil]
      exact map
    | some pair =>
      obtain ⟨e, next⟩ := pair
      obtain ⟨s₁, run, ebx, collected, out⟩ := @collectLoop_entry bios v es s fuel h free e next answer
      dsimp only
      rw [run]
      by_cases last : next = 0
      · rw [if_pos last, if_pos last]
        exact ⟨s₁, rfl, collected.toMapIs, out⟩
      · have longer : (es ++ [e]).length + n = 64 := by
          rw [List.length_append, List.length_singleton]
          omega
        obtain ⟨s', run', map, out'⟩ := @ih (es ++ [e]) s₁ fuel collected longer (by omega)
        rw [if_neg last, if_neg last]
        rw [ebx, List.append_assoc, List.singleton_append] at map
        exact ⟨s', run', map, out.trans out'⟩

/-- **`collect_e820_map`** ends and leaves what the firmware reports. -/
theorem collectE820Map_spec (bios : Bios) (v : Labels) (s : RealMode) {fuel : Nat} (enough : 64 < fuel) :
    ∃ s', collectE820Map bios v fuel s = some s' ∧ MapIs v (reported bios 64 0) s'.mem ∧
      SameOutside (fun a => MapArea a ∨ CountBytes v a) s.mem s'.mem := by
  have empty : Collected v [] { s with
      ebx := 0, di := BitVec.ofNat 16 memoryMapAddr, mem := storeLE s.mem v.memoryMapCount 2 0 } := by
    refine ⟨⟨?_, rfl⟩, rfl⟩
    exact loadLE_storeLE_same _ _ 2 0
  obtain ⟨s', run, map, out⟩ := @collectLoop_spec bios v _ _ fuel 64 empty rfl enough
  refine ⟨s', run, map, ?_⟩
  exact ((storeLE_same_outside s.mem v.memoryMapCount 2 0).mono fun a ha => .inr ha).trans out

end

/-! ## `fill_boot_info` -/

theorem fillBootInfo_outside (k : Build) (v : Labels) (m : Mem) :
    SameOutside (fun a => 0x5000 ≤ a ∧ a < 0x5038) m (fillBootInfo k v m) := by
  intro a out
  unfold fillBootInfo storeDword bootInfoAddr
  repeat rw [storeLE_out (by omega)]

/-- **What the C side reads** of the structure. -/
theorem fillBootInfo_spec (k : Build) (v : Labels) (m : Mem) :
    readBootInfo (fillBootInfo k v m) 0x5000 =
      { magic := 0xB007B007, version := 1, memoryMapEntries := loadLE m v.memoryMapCount 2, reserved0 := 0,
        memoryMapAddr := 0x5400, kernelPhysStart := 0x10000, kernelPhysEnd := 0x10000 + k.kernelSizeBytes,
        kernelVirtStart := 0x10000, pml4Addr := 0x1000 } := by
  have size : 0x10000 + k.kernelSizeBytes < 256 ^ 4 := by
    have := k.rounded
    have := k.word
    omega
  have far := v.lower
  have count := loadLE_lt m v.memoryMapCount 2
  have two : ∀ a, loadLE (fillBootInfo k v m) a 8 =
      loadLE (fillBootInfo k v m) a 4 + 256 ^ 4 * loadLE (fillBootInfo k v m) (a + 4) 4 :=
    fun a => loadLE_add _ a 4 4
  unfold readBootInfo
  simp only [BootInfo.mk.injEq, two]
  unfold fillBootInfo storeDword bootInfoAddr
  simp (disch := omega) only [loadLE_storeLE_apart, loadLE_storeLE_same, Nat.reduceAdd, Nat.add_zero]
  rw [Nat.mod_eq_of_lt size, Nat.mod_eq_of_lt (show loadLE m v.memoryMapCount 2 < 256 ^ 4 by omega)]
  simp [bootInfoMagic, memoryMapAddr, pageTableBase]

/-! ## The hand-off -/

/-- What the kernel finds: the structure at `0x5000`, and the entries `es` where
`boot_get_memory_map` points. -/
structure HandedOver (k : Build) (es : List MemoryMapEntry) (m : Mem) : Prop where
  magic : (readBootInfo m 0x5000).magic = 0xB007B007
  version : (readBootInfo m 0x5000).version = 1
  map : bootGetMemoryMap m 0x5000 = (0x5400, es.length)
  limit : es.length ≤ 64
  entries : readMap m 0x5400 es.length = es
  kernel : (readBootInfo m 0x5000).kernelPhysEnd - (readBootInfo m 0x5000).kernelPhysStart = k.kernelSizeBytes

theorem readBootInfo_congr {m m' : Mem} (same : ∀ a, 0x5000 ≤ a → a < 0x5038 → m' a = m a) :
    readBootInfo m' 0x5000 = readBootInfo m 0x5000 := by
  unfold readBootInfo
  repeat rw [loadLE_congr fun x lo hi => same x (by omega) (by omega)]

theorem HandedOver.congr {k : Build} {es : List MemoryMapEntry} {m m' : Mem} (h : HandedOver k es m)
    (same : ∀ a, BootArea a → m' a = m a) : HandedOver k es m' := by
  have info := readBootInfo_congr fun a lo hi => same a ⟨lo, by omega⟩
  have limit := h.limit
  constructor
  · rw [info]
    exact h.magic
  · rw [info]
    exact h.version
  · unfold bootGetMemoryMap
    rw [info]
    exact h.map
  · exact limit
  · rw [readMap_congr fun x lo hi => same x ⟨by omega, by omega⟩]
    exact h.entries
  · rw [info]
    exact h.kernel

/-- `fill_boot_info` over a map that is there. -/
theorem fillBootInfo_handed_over (k : Build) {v : Labels} {es : List MemoryMapEntry} {m : Mem} (map : MapIs v es m)
    (limit : es.length ≤ 64) : HandedOver k es (fillBootInfo k v m) := by
  have out := fillBootInfo_outside k v m
  have info := fillBootInfo_spec k v m
  rw [map.count] at info
  constructor
  · rw [info]
  · rw [info]
  · unfold bootGetMemoryMap
    rw [info]
    rfl
  · exact limit
  · rw [readMap_congr fun x lo hi => out x (by omega)]
    exact map.entries
  · rw [info]
    exact Nat.add_sub_cancel_left _ _

/-- **The hand-off.** Whatever the firmware answers, `collect_e820_map` ends and writes the
map and its counter only. Over any memory `m` that still has these, `fill_boot_info` writes
the structure only, and after `setup_page_tables`, which leaves both in either direction, the C
side finds the reported entries. -/
theorem boot_info_handoff (bios : Bios) (k : Build) (v : Labels) (s : RealMode) {fuel : Nat} (enough : 64 < fuel) :
    ∃ s₁, collectE820Map bios v fuel s = some s₁ ∧
      SameOutside (fun a => MapArea a ∨ CountBytes v a) s.mem s₁.mem ∧
      ∀ m, (∀ a, MapArea a ∨ CountBytes v a → m a = s₁.mem a) →
        SameOutside (fun a => 0x5000 ≤ a ∧ a < 0x5038) m (fillBootInfo k v m) ∧
          ∀ (df : Bool) (p : Protected), (∀ a, BootArea a → p.mem a = fillBootInfo k v m a) →
            (∀ a, BootArea a → (setupPageTables df p).mem a = p.mem a) ∧
              HandedOver k (reported bios 64 0) (setupPageTables df p).mem := by
  obtain ⟨s₁, run, map, out⟩ := collectE820Map_spec bios v s enough
  refine ⟨s₁, run, out, ?_⟩
  intro m same
  have limit := reported_length_le bios 64 0
  have still : MapIs v (reported bios 64 0) m := by
    constructor
    · rw [loadLE_congr fun x lo hi => same x (.inr ⟨lo, hi⟩)]
      exact map.count
    · rw [readMap_congr fun x lo hi => same x (.inl ⟨lo, by omega⟩)]
      exact map.entries
  refine ⟨fillBootInfo_outside k v m, ?_⟩
  intro df p filled
  have intact : ∀ a, BootArea a → (setupPageTables df p).mem a = p.mem a := by
    intro a area
    unfold BootArea at area
    apply setupPageTables_outside df p
    omega
  refine ⟨intact, ?_⟩
  apply (fillBootInfo_handed_over k still limit).congr
  intro a area
  rw [intact a area, filled a area]

/-- A firmware with one entry, of 20 bytes. -/
def lowMemoryBios : Bios := fun _ => .entry 0 0x9FC00 1 none 0

def smallBuild : Build := ⟨4096, 8, rfl, by decide⟩

def endLabels : Labels := ⟨0x8200, by decide, by decide⟩

theorem boot_info_handoff_low_memory :
    ∃ p : Protected, HandedOver smallBuild [⟨0, 0x9FC00, 1, 1⟩] (setupPageTables false p).mem := by
  obtain ⟨s₁, -, -, rest⟩ := @boot_info_handoff lowMemoryBios smallBuild endLabels ⟨0, 0, 0, 0, 0, false, fun _ => 0⟩ 65
    (by decide)
  obtain ⟨-, filled⟩ := rest s₁.mem fun _ _ => rfl
  obtain ⟨-, found⟩ := filled false ⟨0, 0, 0, 0, fillBootInfo smallBuild endLabels s₁.mem⟩ fun _ _ => rfl
  exact ⟨_, found⟩

end SimpleKernel.Boot
