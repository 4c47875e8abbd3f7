import Mathlib.Data.List.Induction
import SimpleKernel.Lib.Packed

/-!
# `idt.c`: the interrupt descriptor table

`idt_set_gate` splits a handler into three fields of a packed gate of 16 bytes; the processor, which
`idt_load_current` tells where the table is, puts the handler of a vector together again from the
bytes. Of the calls only the last one for a vector counts (`lastCall`), and a vector without a call
has a gate of zero bytes (`idt_decodes`).
-/

namespace SimpleKernel.Idt
set_option autoImplicit false
open Lib

def idtEntries : Nat := 256
def sizeofIdtEntry : Nat := 16

theorem idtEntries_eq : idtEntries = 256 := rfl
theorem sizeofIdtEntry_eq : sizeofIdtEntry = 16 := rfl

/-- Where the linker put `idt` and `idtp`. -/
structure Labels where
  idt : Nat
  idtp : Nat
  idtUpper : idt + idtEntries * sizeofIdtEntry ≤ 2 ^ 64
  idtpUpper : idtp + 10 ≤ 2 ^ 64
  apart : idt + idtEntries * sizeofIdtEntry ≤ idtp ∨ idtp + 10 ≤ idt

/-- The bytes that `idt.c` owns. -/
def Labels.Own (l : Labels) (x : Nat) : Prop :=
  (l.idt ≤ x ∧ x < l.idt + idtEntries * sizeofIdtEntry) ∨ (l.idtp ≤ x ∧ x < l.idtp + 10)

theorem Labels.own_iff (l : Labels) {x : Nat} :
    l.Own x ↔ (l.idt ≤ x ∧ x < l.idt + 4096) ∨ (l.idtp ≤ x ∧ x < l.idtp + 10) := Iff.rfl

/-- `&idt[num]`. -/
def Labels.entry (l : Labels) (num : Nat) : Nat := l.idt + num * sizeofIdtEntry

/-- `struct idt_entry`. -/
structure IdtEntry where
  offsetLow : BitVec 16
  selector : BitVec 16
  ist : BitVec 8
  typeAttr : BitVec 8
  offsetMid : BitVec 16
  offsetHigh : BitVec 32
  zero : BitVec 32
  deriving DecidableEq, Repr

/-- The layout: `__attribute__((packed))`. -/
def IdtEntry.fields (e : IdtEntry) : List Field :=
  [⟨2, e.offsetLow.toNat⟩, ⟨2, e.selector.toNat⟩, ⟨1, e.ist.toNat⟩, ⟨1, e.typeAttr.toNat⟩, ⟨2, e.offsetMid.toNat⟩,
    ⟨4, e.offsetHigh.toNat⟩, ⟨4, e.zero.toNat⟩]

/-- The fields that `idt_set_gate` stores. -/
def IdtEntry.ofGate (handler : BitVec 64) (selector : BitVec 16) (flags : BitVec 8) : IdtEntry where
  offsetLow := (handler &&& 0xFFFF).setWidth 16
  selector := selector
  ist := 0
  typeAttr := flags
  offsetMid := ((handler >>> 16) &&& 0xFFFF).setWidth 16
  offsetHigh := ((handler >>> 32) &&& 0xFFFFFFFF).setWidth 32
  zero := 0

def idtSetGate (l : Labels) (m : Mem) (num : BitVec 8) (handler : BitVec 64) (selector : BitVec 16)
    (flags : BitVec 8) : Mem :=
  storeFields m (l.entry num.toNat) (IdtEntry.ofGate handler selector flags).fields

/-- An entry with every field `0`. -/
def noEntry : IdtEntry := ⟨0, 0, 0, 0, 0, 0, 0⟩

/-- `idtp.limit`, `idtp.base` and the loop over `idt`. -/
def idtInit (l : Labels) (m : Mem) : Mem :=
  let m := storeLE m l.idtp 2 (sizeofIdtEntry * idtEntries - 1)
  let m := storeLE m (l.idtp + 2) 8 l.idt
  (List.range idtEntries).foldl (fun m i => storeFields m (l.entry i) noEntry.fields) m

/-! ## The processor -/

/-- The interrupt descriptor table register. -/
structure Idtr where
  limit : BitVec 16
  base : BitVec 64
  deriving DecidableEq, Repr

/-- `lidt` of the ten bytes of `idtp`. -/
def idtLoadCurrent (l : Labels) (m : Mem) : Idtr :=
  ⟨BitVec.ofNat 16 (loadLE m l.idtp 2), BitVec.ofNat 64 (loadLE m (l.idtp + 2) 8)⟩

/-- What the processor makes of the 16 bytes of a gate. -/
structure Gate where
  offset : BitVec 64
  selector : BitVec 16
  ist : BitVec 3
  reservedIst : BitVec 5
  typeAttr : BitVec 8
  reserved : BitVec 32
  deriving DecidableEq, Repr

/-- The P bit. -/
def Gate.present (g : Gate) : Bool := g.typeAttr.getLsbD 7

def readGate (m : Mem) (a : Nat) : Gate where
  offset := BitVec.ofNat 64 (loadLE m a 2 + 2 ^ 16 * loadLE m (a + 6) 2 + 2 ^ 32 * loadLE m (a + 8) 4)
  selector := BitVec.ofNat 16 (loadLE m (a + 2) 2)
  ist := BitVec.ofNat 3 (loadLE m (a + 4) 1)
  reservedIst := BitVec.ofNat 5 (loadLE m (a + 4) 1 / 2 ^ 3)
  typeAttr := BitVec.ofNat 8 (loadLE m (a + 5) 1)
  reserved := BitVec.ofNat 32 (loadLE m (a + 12) 4)

/-- The gate of a vector, unless it lies beyond the limit. -/
def fetchGate (r : Idtr) (m : Mem) (vector : BitVec 8) : Option Gate :=
  if vector.toNat * 16 + 15 ≤ r.limit.toNat then some (readGate m (r.base.toNat + vector.toNat * 16)) else none

/-! ## Sequences of calls -/

/-- The arguments of a call of `idt_set_gate`. -/
structure GateCall where
  num : BitVec 8
  handler : BitVec 64
  selector : BitVec 16
  flags : BitVec 8
  deriving DecidableEq, Repr

def GateCall.run (l : Labels) (m : Mem) (c : GateCall) : Mem := idtSetGate l m c.num c.handler c.selector c.flags

/-- The memory after `idt_init` and some calls. -/
def gatesAfter (l : Labels) (m : Mem) (calls : List GateCall) : Mem := calls.foldl (GateCall.run l) (idtInit l m)

/-- The last call for a vector. -/
def lastCall (calls : List GateCall) (vector : BitVec 8) : Option GateCall :=
  calls.reverse.find? fun c => c.num = vector

/-- The gate that a vector should have: what its last call said, or nothing. -/
def gateOf : Option GateCall → Gate
  | none => ⟨0, 0, 0, 0, 0, 0⟩
  | some c => ⟨c.handler, c.selector, 0, 0, c.flags, 0⟩

/-- What the last call stores, or `idt_init`. -/
def entryOf : Option GateCall → IdtEntry
  | none => noEntry
  | some c => .ofGate c.handler c.selector c.flags

/-- The table after some calls. -/
structure Table (l : Labels) (m : Mem) (calls : List GateCall) : Prop where
  entries : ∀ vector : BitVec 8, HasFields m (l.entry vector.toNat) (entryOf (lastCall calls vector)).fields
  limit : loadLE m l.idtp 2 = 4095
  base : loadLE m (l.idtp + 2) 8 = l.idt

section

variable {l : Labels} {m m' : Mem} {a : Nat} {e : IdtEntry} {calls : List GateCall} {c : GateCall} {vector : BitVec 8}

@[simp] theorem recordSize_fields (e : IdtEntry) : recordSize e.fields = sizeofIdtEntry := rfl

theorem lastCall_snoc (calls : List GateCall) (c : GateCall) (vector : BitVec 8) :
    lastCall (calls ++ [c]) vector = if c.num = vector then some c else lastCall calls vector := by
  unfold lastCall
  rw [List.reverse_append, List.reverse_singleton, List.singleton_append, List.find?_cons]
  by_cases here : c.num = vector
  · simp [here]
  · simp [here]

/-! ## A gate -/

/-- Masking before the cut is no change. -/
theorem setWidth_mask {w : Nat} {mask : BitVec 64} (ones : mask.setWidth w = BitVec.allOnes w) (x : BitVec 64) :
    (x &&& mask).setWidth w = x.setWidth w := by
  rw [BitVec.setWidth_and, ones, BitVec.and_allOnes]

/-- The three fields of a handler make it up. -/
theorem handler_parts (handler : BitVec 64) : ((handler &&& 0xFFFF).setWidth 16).toNat +
    2 ^ 16 * (((handler >>> 16) &&& 0xFFFF).setWidth 16).toNat +
    2 ^ 32 * (((handler >>> 32) &&& 0xFFFFFFFF).setWidth 32).toNat = handler.toNat := by
  have word : (0xFFFF : BitVec 64).setWidth 16 = BitVec.allOnes 16 := rfl
  have dword : (0xFFFFFFFF : BitVec 64).setWidth 32 = BitVec.allOnes 32 := rfl
  simp only [setWidth_mask word, setWidth_mask dword, BitVec.toNat_setWidth, BitVec.toNat_ushiftRight,
    Nat.shiftRight_eq_div_pow]
  have bound := handler.isLt
  omega

/-- A field of `k` bytes has room for its value. -/
theorem field_fits {w k : Nat} (x : BitVec w) (room : 256 ^ k = 2 ^ w) : x.toNat % 256 ^ k = x.toNat := by
  rw [room, Nat.mod_eq_of_lt x.isLt]

/-- What the processor sees of an entry. -/
theorem readGate_fields (h : HasFields m a e.fields) : readGate m a =
    { offset := BitVec.ofNat 64 (e.offsetLow.toNat + 2 ^ 16 * e.offsetMid.toNat + 2 ^ 32 * e.offsetHigh.toNat)
      selector := e.selector
      ist := e.ist.setWidth 3
      reservedIst := (e.ist >>> 3).setWidth 5
      typeAttr := e.typeAttr
      reserved := e.zero } := by
  simp only [IdtEntry.fields, HasFields, Nat.add_assoc, Nat.reduceAdd] at h
  obtain ⟨low, selector, ist, attr, mid, high, zero, -⟩ := h
  rw [field_fits _ (by decide)] at low selector ist attr mid high zero
  have reserved : BitVec.ofNat 5 (e.ist.toNat / 2 ^ 3) = (e.ist >>> 3).setWidth 5 := by
    apply BitVec.eq_of_toNat_eq
    rw [BitVec.toNat_ofNat, BitVec.toNat_setWidth, BitVec.toNat_ushiftRight, Nat.shiftRight_eq_div_pow]
  unfold readGate
  rw [low, selector, ist, attr, mid, high, zero, reserved]
  simp only [BitVec.ofNat_toNat, BitVec.setWidth_eq]

/-- **The processor reads back what was stored.** -/
theorem readGate_entryOf {call : Option GateCall} (h : HasFields m a (entryOf call).fields) :
    readGate m a = gateOf call := by
  rw [readGate_fields h]
  cases call with
  | none => rfl
  | some c =>
    unfold entryOf gateOf IdtEntry.ofGate
    dsimp only
    rw [handler_parts, BitVec.ofNat_toNat, BitVec.setWidth_eq]
    rfl

/-! ## The table -/

theorem run_eq (l : Labels) (m : Mem) (c : GateCall) :
    c.run l m = storeFields m (l.entry c.num.toNat) (entryOf (some c)).fields := rfl

/-- A call changes the gate of its vector only. -/
theorem run_outside (l : Labels) (m : Mem) (c : GateCall) :
    SameOutside (fun x => l.entry c.num.toNat ≤ x ∧ x < l.entry c.num.toNat + 16) m (c.run l m) :=
  storeFields_outside m (l.entry c.num.toNat) (entryOf (some c)).fields

/-- The gates of two vectors are apart. -/
theorem entry_apart (l : Labels) {v w : BitVec 8} (ne : v ≠ w) :
    l.entry v.toNat + 16 ≤ l.entry w.toNat ∨ l.entry w.toNat + 16 ≤ l.entry v.toNat := by
  have different : v.toNat ≠ w.toNat := fun same => ne (BitVec.eq_of_toNat_eq same)
  unfold Labels.entry
  rw [sizeofIdtEntry_eq]
  omega

/-- Gates lie in the table. -/
theorem entry_inside (l : Labels) (v : BitVec 8) : l.idt ≤ l.entry v.toNat ∧ l.entry v.toNat + 16 ≤ l.idt + 4096 := by
  have small := v.isLt
  unfold Labels.entry
  rw [sizeofIdtEntry_eq]
  omega

theorem run_other (l : Labels) (m : Mem) {c : GateCall} {v : BitVec 8} (ne : v ≠ c.num) {x : Nat}
    (lo : l.entry v.toNat ≤ x) (hi : x < l.entry v.toNat + 16) : c.run l m x = m x := by
  have apart := entry_apart l ne
  apply run_outside l m c
  omega

theorem Labels.far (l : Labels) : l.idt + 4096 ≤ l.idtp ∨ l.idtp + 10 ≤ l.idt := l.apart

theorem idtInit_eq (l : Labels) (m : Mem) :
    idtInit l m = storeSlots (storeLE (storeLE m l.idtp 2 4095) (l.idtp + 2) 8 l.idt) l.idt noEntry.fields 256 := rfl

/-- `idt_init` clears every gate. -/
theorem table_init (l : Labels) (m : Mem) : Table l (idtInit l m) [] := by
  have far := l.far
  obtain ⟨slots, out⟩ :=
    storeSlots_spec (storeLE (storeLE m l.idtp 2 4095) (l.idtp + 2) 8 l.idt) l.idt noEntry.fields 256
  rw [recordSize_fields, sizeofIdtEntry_eq] at slots out
  rw [idtInit_eq]
  constructor
  · intro vector
    exact slots vector.toNat vector.isLt
  · rw [out.loadLE_eq fun x lo hi => by omega, loadLE_storeLE_apart (by omega), loadLE_storeLE_same]
    rfl
  · have upper := l.idtUpper
    rw [out.loadLE_eq fun x lo hi => by omega, loadLE_storeLE_same]
    rw [idtEntries_eq, sizeofIdtEntry_eq] at upper
    omega

/-- **The step lemma**: a call. -/
theorem Table.step (h : Table l m calls) (c : GateCall) : Table l (c.run l m) (calls ++ [c]) := by
  have far := l.far
  have inside := entry_inside l c.num
  have out := run_outside l m c
  constructor
  · intro vector
    rw [lastCall_snoc]
    by_cases here : c.num = vector
    · subst here
      rw [if_pos rfl, run_eq]
      exact hasFields_storeFields _ _ _
    · rw [if_neg here]
      apply (h.entries vector).congr
      intro x lo hi
      exact run_other l m (Ne.symm here) lo hi
  · rw [out.loadLE_eq fun x lo hi => by omega]
    exact h.limit
  · rw [out.loadLE_eq fun x lo hi => by omega]
    exact h.base

theorem gatesAfter_snoc (l : Labels) (m : Mem) (calls : List GateCall) (c : GateCall) :
    gatesAfter l m (calls ++ [c]) = c.run l (gatesAfter l m calls) := by
  simp only [gatesAfter, List.foldl_append, List.foldl_cons, List.foldl_nil]

/-- **The run.** -/
theorem table_gatesAfter (l : Labels) (m : Mem) (calls : List GateCall) : Table l (gatesAfter l m calls) calls := by
  induction calls using List.reverseRecOn with
  | nil =>
    rw [gatesAfter, List.foldl_nil]
    exact table_init l m
  | append_singleton calls c ih =>
    rw [gatesAfter_snoc]
    exact ih.step c

theorem gatesAfter_outside (l : Labels) (m : Mem) (calls : List GateCall) :
    SameOutside l.Own m (gatesAfter l m calls) := by
  induction calls using List.reverseRecOn with
  | nil =>
    obtain ⟨-, out⟩ :=
      storeSlots_spec (storeLE (storeLE m l.idtp 2 4095) (l.idtp + 2) 8 l.idt) l.idt noEntry.fields 256
    intro x hx
    rw [l.own_iff] at hx
    rw [recordSize_fields, sizeofIdtEntry_eq] at out
    rw [gatesAfter, List.foldl_nil, idtInit_eq, out x (by omega), storeLE_out (by omega), storeLE_out (by omega)]
  | append_singleton calls c ih =>
    rw [gatesAfter_snoc]
    refine ih.trans ((run_outside l _ c).mono fun x hx => ?_)
    have inside := entry_inside l c.num
    rw [l.own_iff]
    omega

/-- Nothing but the bytes of the table matters. -/
theorem Table.congr (h : Table l m calls) (same : ∀ x, l.Own x → m' x = m x) : Table l m' calls := by
  simp only [l.own_iff] at same
  constructor
  · intro vector
    have inside := entry_inside l vector
    apply (h.entries vector).congr
    intro x lo hi
    rw [recordSize_fields, sizeofIdtEntry_eq] at hi
    exact same x (by omega)
  · rw [loadLE_congr fun x lo hi => same x (by omega)]
    exact h.limit
  · rw [loadLE_congr fun x lo hi => same x (by omega)]
    exact h.base

/-- The processor finds the table. -/
theorem Table.fetch (h : Table l m calls) (vector : BitVec 8) :
    fetchGate (idtLoadCurrent l m) m vector = some (gateOf (lastCall calls vector)) := by
  have small := vector.isLt
  have upper := l.idtUpper
  rw [idtEntries_eq, sizeofIdtEntry_eq] at upper
  have limit : (idtLoadCurrent l m).limit.toNat = 4095 := by
    unfold idtLoadCurrent
    rw [h.limit]
    rfl
  have base : (idtLoadCurrent l m).base.toNat = l.idt := by
    unfold idtLoadCurrent
    rw [h.base, BitVec.toNat_ofNat]
    omega
  rw [fetchGate, limit, base, if_pos (by omega)]
  exact congrArg some (readGate_entryOf (h.entries vector))

/-- The register stays right as long as the table is there. -/
theorem Table.fetch_later (h : Table l m calls) (same : ∀ x, l.Own x → m' x = m x) (vector : BitVec 8) :
    fetchGate (idtLoadCurrent l m) m' vector = some (gateOf (lastCall calls vector)) := by
  have later := h.congr same
  have register : idtLoadCurrent l m' = idtLoadCurrent l m := by
    unfold idtLoadCurrent
    rw [h.limit, h.base, later.limit, later.base]
  rw [← register]
  exact later.fetch vector

/-- A vector that was never set has a gate of zeros. -/
theorem Table.never_set (h : Table l m calls) (never : lastCall calls vector = none) {x : Nat}
    (lo : l.entry vector.toNat ≤ x) (hi : x < l.entry vector.toNat + 16) : m x = 0 := by
  have fields := h.entries vector
  rw [never] at fields
  exact fields.zero (by decide) lo hi

end

/-- **The table decodes to what was stored.** -/
theorem idt_decodes (l : Labels) (m : Mem) (calls : List GateCall) :
    (∀ vector, fetchGate (idtLoadCurrent l (gatesAfter l m calls)) (gatesAfter l m calls) vector =
      some (gateOf (lastCall calls vector))) ∧
    (∀ vector, lastCall calls vector = none → (gateOf (lastCall calls vector)).present = false ∧
      ∀ x, l.entry vector.toNat ≤ x → x < l.entry vector.toNat + 16 → gatesAfter l m calls x = 0) ∧
    ∀ (m' : Mem) (c : GateCall) (vector : BitVec 8), vector ≠ c.num → ∀ x, l.entry vector.toNat ≤ x →
      x < l.entry vector.toNat + 16 → c.run l m' x = m' x := by
  have table := table_gatesAfter l m calls
  refine ⟨table.fetch, fun vector never => ⟨?_, ?_⟩, ?_⟩
  · rw [never]
    rfl
  · intro x lo hi
    exact table.never_set never lo hi
  · intro m' c vector ne x lo hi
    exact run_other l m' ne lo hi

/-- The calls of the unit test, with a handler that has all three parts. -/
theorem idt_decodes_unit_test : ∃ (l : Labels) (m : Mem),
    m = gatesAfter l (fun _ => 0xCC) [⟨14, 0xDEADBEEF12345678, 8, 0x8E⟩, ⟨1, 0x123456789ABC, 8, 0x8E⟩] ∧
      fetchGate (idtLoadCurrent l m) m 14 = some ⟨0xDEADBEEF12345678, 8, 0, 0, 0x8E, 0⟩ ∧
      fetchGate (idtLoadCurrent l m) m 15 = some ⟨0, 0, 0, 0, 0, 0⟩ := by
  obtain ⟨l⟩ : Nonempty Labels := ⟨⟨0x20000, 0x21000, by decide, by decide, by decide⟩⟩
  obtain ⟨decodes, -⟩ := idt_decodes l (fun _ => 0xCC) [⟨14, 0xDEADBEEF12345678, 8, 0x8E⟩, ⟨1, 0x123456789ABC, 8, 0x8E⟩]
  exact ⟨l, _, rfl, decodes 14, decodes 15⟩

end SimpleKernel.Idt
