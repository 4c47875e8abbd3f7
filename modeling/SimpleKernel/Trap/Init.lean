import SimpleKernel.Gdt
import SimpleKernel.Idt
import SimpleKernel.Trap.Dispatch

/-!
# `trap_init`

The gates of the first 48 vectors. A vector is delivered if its gate is present, names a code segment that can be
loaded, and leads to a canonical address (`enterVector`); the segment is the one that `gdt_init` has set up.
-/

namespace SimpleKernel.Trap
set_option autoImplicit false
open Lib Idt

/-- What the linker placed: the tables, and `isr_stub_table` in the text. -/
structure Placed where
  gdt : Gdt.Labels
  idt : Idt.Labels
  isrStubTable : Nat
  tables : ∀ x, gdt.Own x → ¬ idt.Own x
  text : ∀ x, isrStubTable ≤ x → x < isrStubTable + 8 * 48 → ¬ idt.Own x

/-- `isr_stub_table[vector]`. -/
def Placed.stub (l : Placed) (m : Mem) (vector : Nat) : BitVec 64 :=
  BitVec.ofNat 64 (loadLE m (l.isrStubTable + 8 * vector) 8)

def trapInit (l : Placed) (p : Pics) (m : Mem) : Option (Pics × Idtr × Mem) := do
  let m := idtInit l.idt m
  let p ← picRemap p
  let m := (List.range 48).foldl
    (fun m vector => idtSetGate l.idt m (BitVec.ofNat 8 vector) (l.stub m vector) 0x08 0x8E) m
  some (p, idtLoadCurrent l.idt m, m)

/-! ## The processor -/

/-- Where the processor goes for a vector: the code, the entry of the stack table and whether interrupts are off. -/
structure Entry where
  rip : BitVec 64
  cs : BitVec 16
  segment : Gdt.Descriptor
  ist : BitVec 3
  masked : Bool
  deriving DecidableEq, Repr

/-- An interrupt gate turns interrupts off; a trap gate does not. -/
def interruptGate (typeAttr : BitVec 8) : Bool := typeAttr.setWidth 5 == 0x0E

def trapGate (typeAttr : BitVec 8) : Bool := typeAttr.setWidth 5 == 0x0F

/-- Bits 47 to 63 are equal. -/
def canonical (a : BitVec 64) : Bool := (a.setWidth 48).signExtend 64 == a

/-- The delivery of a hardware interrupt or an exception in the kernel; `none` where it faults. -/
def enterVector (gdtr : Gdt.Gdtr) (idtr : Idtr) (m : Mem) (vector : BitVec 8) : Option Entry := do
  let g ← fetchGate idtr m vector
  if g.present && (interruptGate g.typeAttr || trapGate g.typeAttr) && canonical g.offset then
    let segment ← Gdt.loadCode gdtr m g.selector.toNat
    some ⟨g.offset, g.selector, segment, g.ist, interruptGate g.typeAttr⟩
  else none

/-! ## The loop -/

/-- The calls of the first `n` turns. -/
def stubCalls (stub : Nat → BitVec 64) (n : Nat) : List GateCall :=
  (List.range n).map fun vector => ⟨BitVec.ofNat 8 vector, stub vector, 0x08, 0x8E⟩

section

variable {l : Placed} {m m' : Mem} {stub : Nat → BitVec 64} {vector : BitVec 8}

theorem stubCalls_succ (stub : Nat → BitVec 64) (n : Nat) :
    stubCalls stub (n + 1) = stubCalls stub n ++ [⟨BitVec.ofNat 8 n, stub n, 0x08, 0x8E⟩] := by
  unfold stubCalls
  rw [List.range_succ, List.map_append, List.map_singleton]

/-- The pointers to the stubs are not in the table that is written. -/
theorem stub_same (same : SameOutside l.idt.Own m m') {n : Nat} (small : n < 48) : l.stub m' n = l.stub m n := by
  unfold Placed.stub
  rw [same.loadLE_eq fun x lo hi => l.text x (by omega) (by omega)]

/-- **The loop of `trap_init`** is the sequence of its calls. -/
theorem loop_eq (l : Placed) (m : Mem) {n : Nat} (small : n ≤ 48) :
    (List.range n).foldl (fun m vector => idtSetGate l.idt m (BitVec.ofNat 8 vector) (l.stub m vector) 0x08 0x8E)
      (idtInit l.idt m) = gatesAfter l.idt m (stubCalls (l.stub m) n) := by
  induction n with
  | zero => rfl
  | succ n ih =>
    rw [List.range_succ, List.foldl_append, List.foldl_cons, List.foldl_nil, ih (by omega), stubCalls_succ,
      gatesAfter_snoc, stub_same (gatesAfter_outside l.idt m _) (by omega)]
    rfl

/-- Every vector is set once. -/
theorem lastCall_stubCalls (stub : Nat → BitVec 64) {n : Nat} (small : n ≤ 256) (vector : BitVec 8) :
    lastCall (stubCalls stub n) vector =
      if vector.toNat < n then some ⟨vector, stub vector.toNat, 0x08, 0x8E⟩ else none := by
  induction n with
  | zero => rfl
  | succ n ih =>
    rw [stubCalls_succ, lastCall_snoc, ih (by omega)]
    dsimp only
    by_cases here : BitVec.ofNat 8 n = vector
    · have same : vector.toNat = n := by
        rw [← here, BitVec.toNat_ofNat]
        omega
      rw [if_pos here, if_pos (by omega), same, here]
    · have other : vector.toNat ≠ n := by
        rintro rfl
        exact here (by rw [BitVec.ofNat_toNat, BitVec.setWidth_eq])
      rw [if_neg here]
      by_cases below : vector.toNat < n
      · rw [if_pos below, if_pos (by omega)]
      · rw [if_neg below, if_neg (by omega)]

/-! ## The delivery -/

/-- A gate that `trap_init` has set. -/
theorem enterVector_set {gdtr : Gdt.Gdtr} {idtr : Idtr} {segment : Gdt.Descriptor} {handler : BitVec 64}
    (gate : fetchGate idtr m vector = some ⟨handler, 0x08, 0, 0, 0x8E, 0⟩)
    (code : Gdt.loadCode gdtr m 0x08 = some segment)
    (reachable : canonical handler = true) :
    enterVector gdtr idtr m vector = some ⟨handler, 0x08, segment, 0, true⟩ := by
  have gateKind : interruptGate 0x8E = true := by decide
  unfold enterVector
  rw [gate]
  simp only [Option.bind_eq_bind, Option.bind_some, Gate.present, gateKind, reachable, Bool.true_or, Bool.and_true]
  refine (if_pos (by decide)).trans ?_
  show (Gdt.loadCode gdtr m 0x08).bind _ = _
  rw [code]
  rfl

/-- A gate that it has not. -/
theorem enterVector_unset {gdtr : Gdt.Gdtr} {idtr : Idtr} (gate : fetchGate idtr m vector = some ⟨0, 0, 0, 0, 0, 0⟩) :
    enterVector gdtr idtr m vector = none := by
  unfold enterVector
  rw [gate]
  rfl

/-- **`trap_init`**, from any state of the controllers. -/
theorem trapInit_spec (l : Placed) (p : Pics) (m : Mem) : ∃ q, picRemap p = some q ∧
    trapInit l p m = some (q, idtLoadCurrent l.idt (gatesAfter l.idt m (stubCalls (l.stub m) 48)),
      gatesAfter l.idt m (stubCalls (l.stub m) 48)) := by
  obtain ⟨q, remap, -⟩ := picRemap_spec p
  refine ⟨q, remap, ?_⟩
  have loop := loop_eq l m (Nat.le_refl 48)
  unfold trapInit
  dsimp only
  rw [remap, loop]
  rfl

end

/-- **Every vector of the stubs is delivered, and no other.** `gdt_init` and then `trap_init`
succeed from any memory and any state of the controllers. Whatever is written elsewhere before,
between and after them, the processor goes for each of the 48 vectors to the stub that the table
names, with the code segment of `gdt_init`, on the stack it is on and with interrupts off; the other
vectors have no gate. -/
theorem vectors_delivered (l : Placed) (m : Mem) : ∃ s m₁, Gdt.gdtInitLoad l.gdt m = some (s, m₁) ∧
    s.code.code64 = true ∧ ∀ (p : Pics) (m₂ : Mem), (∀ x, l.gdt.Own x → m₂ x = m₁ x) →
      ∃ q idtr m₃, picRemap p = some q ∧ trapInit l p m₂ = some (q, idtr, m₃) ∧ SameOutside l.idt.Own m₂ m₃ ∧
        ∀ m₄, (∀ x, l.gdt.Own x ∨ l.idt.Own x → m₄ x = m₃ x) → ∀ vector : BitVec 8,
          (vector.toNat < 48 → canonical (l.stub m₂ vector.toNat) = true →
            enterVector s.gdtr idtr m₄ vector = some ⟨l.stub m₂ vector.toNat, 0x08, s.code, 0, true⟩) ∧
          (48 ≤ vector.toNat → enterVector s.gdtr idtr m₄ vector = none) := by
  obtain ⟨s, run, loaded, code64, -⟩ := Gdt.gdtInitLoad_spec l.gdt m
  refine ⟨s, _, run, code64, fun p m₂ kept => ?_⟩
  obtain ⟨q, remap, init⟩ := trapInit_spec l p m₂
  have outside := gatesAfter_outside l.idt m₂ (stubCalls (l.stub m₂) 48)
  have table := table_gatesAfter l.idt m₂ (stubCalls (l.stub m₂) 48)
  refine ⟨q, _, _, remap, init, outside, fun m₄ still vector => ?_⟩
  have gate := table.fetch_later (fun x own => still x (.inr own)) vector
  have code := (@Gdt.Loaded.congr _ _ m₄ _ loaded fun x own => ?_).1
  · rw [lastCall_stubCalls _ (by decide)] at gate
    constructor
    · intro below reachable
      rw [if_pos below] at gate
      exact enterVector_set gate code reachable
    · intro above
      rw [if_neg (Nat.not_lt.2 above)] at gate
      exact enterVector_unset gate
  · rw [still x (.inl own), outside x (l.tables x own), kept x own]

def lowGdt : Gdt.Labels := ⟨0x20000, 0x20100, 0x20200, by decide, by decide, by decide, by decide, by decide, by decide⟩

def lowIdt : Idt.Labels := ⟨0x21000, 0x22000, by decide, by decide, by decide⟩

/-- Tables below `0x30000`, and the pointers to the stubs from there on. -/
def lowTables : Placed where
  gdt := lowGdt
  idt := lowIdt
  isrStubTable := 0x30000
  tables := by
    intro x
    rw [lowGdt.own_iff, lowIdt.own_iff]
    simp only [lowGdt, lowIdt]
    omega
  text := by
    intro x
    rw [lowIdt.own_iff]
    simp only [lowIdt]
    omega

/-- A controller in the middle of an initialisation. -/
def anyPic : Pic := ⟨.icw3, true, 0x70, 0, true, 0, fun _ => true, fun _ => true⟩

/-- The pointer to the stub of the timer. -/
def timerStub (m : Mem) : Mem := storeLE m (0x30000 + 8 * 32) 8 0x100

theorem vectors_delivered_timer : ∃ gdtr idtr m segment,
    enterVector gdtr idtr m 32 = some ⟨0x100, 0x08, segment, 0, true⟩ ∧ enterVector gdtr idtr m 48 = none := by
  obtain ⟨s, m₁, -, -, delivered⟩ := vectors_delivered lowTables fun _ => 0
  have kept : ∀ x, lowTables.gdt.Own x → timerStub m₁ x = m₁ x := by
    intro x own
    have bounds := lowGdt.own_iff.1 own
    simp only [lowGdt] at bounds
    exact storeLE_out (by omega)
  obtain ⟨q, idtr, m₃, -, -, -, delivered⟩ := delivered ⟨anyPic, anyPic⟩ (timerStub m₁) kept
  obtain ⟨timer, -⟩ := delivered m₃ (fun _ _ => rfl) 32
  obtain ⟨-, absent⟩ := delivered m₃ (fun _ _ => rfl) 48
  have stub : lowTables.stub (timerStub m₁) 32 = 0x100 :=
    congrArg (BitVec.ofNat 64) (loadLE_storeLE_same m₁ (0x30000 + 8 * 32) 8 0x100)
  refine ⟨s.gdtr, idtr, m₃, s.code, ?_, absent (by decide)⟩
  have reachable : canonical 0x100 = true := by decide
  have entered := timer (by decide) ((congrArg canonical stub).trans reachable)
  exact entered.trans (congrArg (fun rip => some (⟨rip, 0x08, s.code, 0, true⟩ : Entry)) stub)

end SimpleKernel.Trap
