import Mathlib.Data.Fin.Tuple.Basic
import Mathlib.Logic.Function.Basic

/-!
# A priority interrupt controller

An 8259A with edge triggered lines, line `0` first. An edge is latched in `irr`; `acknowledge` takes
the first request that is not masked and comes before everything in service, puts it in service and
names its line. When there is none any more it names the last line and puts nothing in service.
`endOfInterrupt` ends the first line in service: what was acknowledged last (`end_acknowledge`), and
nothing after a request that was gone (`end_idle`).
-/

namespace Lib
set_option autoImplicit false

abbrev Lines := Fin 8 → Bool

def noLines : Lines := fun _ => false

/-- What the data port takes next. -/
inductive Expects where
  | icw2
  | icw3
  | icw4
  | ocw1
  deriving DecidableEq, Repr

structure Pic where
  expects : Expects
  single : Bool
  base : BitVec 8
  cascade : BitVec 8
  auto : Bool
  imr : BitVec 8
  irr : Lines
  isr : Lines

namespace Pic

/-- The numerals of lines have one proof. -/
theorem eightLines : @NeZero Nat Zero.ofOfNat0 8 := ⟨Nat.succ_ne_zero 7⟩

attribute [instance] eightLines

/-- The line may interrupt: it is requested, not masked, and before all lines in service. -/
def eligible (p : Pic) (n : Fin 8) : Bool :=
  p.irr n && !p.imr.getLsbD n && decide (∀ m, m ≤ n → p.isr m = false)

/-- The first such line. -/
def next (p : Pic) : Option (Fin 8) := Fin.find? p.eligible

/-- The output that asks for an interrupt. -/
def int (p : Pic) : Bool := p.next.isSome

/-- The acknowledge cycle: the line that is answered for, and the state after it. -/
def acknowledge (p : Pic) : Fin 8 × Pic :=
  match p.next with
  | none => (7, p)
  | some n =>
    (n, { p with
      irr := Function.update p.irr n false
      isr := if p.auto then p.isr else Function.update p.isr n true })

/-- The command without a line. -/
def endOfInterrupt (p : Pic) : Pic :=
  match Fin.find? p.isr with
  | none => p
  | some n => { p with isr := Function.update p.isr n false }

/-- A write to the command port: the start of an initialisation, or the end of an interrupt. `none`
for a word that is not described here: for level triggered lines, without a fourth word, for
other priorities, and for reading back. -/
def command (p : Pic) (v : BitVec 8) : Option Pic :=
  if v.getLsbD 4 then
    if v.getLsbD 3 || !v.getLsbD 0 then none
    else
      some { p with
        expects := .icw2, single := v.getLsbD 1, auto := false, imr := 0, irr := noLines, isr := noLines }
  else if v = 0x20 then some p.endOfInterrupt
  else none

/-- A write to the data port. -/
def data (p : Pic) (v : BitVec 8) : Option Pic :=
  match p.expects with
  | .icw2 => some { p with base := v &&& 0xF8, expects := if p.single then .icw4 else .icw3 }
  | .icw3 => some { p with cascade := v, expects := .icw4 }
  | .icw4 => if v = 1 ∨ v = 3 then some { p with auto := v.getLsbD 1, expects := .ocw1 } else none
  | .ocw1 => some { p with imr := v }

/-- An edge on a line. -/
def request (p : Pic) (n : Fin 8) : Pic := { p with irr := Function.update p.irr n true }

/-- The line falls before the request is acknowledged. -/
def withdraw (p : Pic) (n : Fin 8) : Pic := { p with irr := Function.update p.irr n false }

section

variable {p q : Pic} {n : Fin 8}

theorem eligible_iff : p.eligible n = true ↔
    p.irr n = true ∧ p.imr.getLsbD n = false ∧ ∀ m, m ≤ n → p.isr m = false := by
  unfold eligible
  rw [Bool.and_eq_true, Bool.and_eq_true, Bool.not_eq_true', decide_eq_true_iff, and_assoc]

theorem next_eq_some : p.next = some n ↔ p.eligible n = true ∧ ∀ m, m < n → p.eligible m = false :=
  Fin.find?_eq_some_iff

theorem next_eq_none : p.next = none ↔ ∀ n, p.eligible n = false := Fin.find?_eq_none_iff

theorem acknowledge_of_next (h : p.next = some n) : p.acknowledge =
    (n, { p with
      irr := Function.update p.irr n false
      isr := if p.auto then p.isr else Function.update p.isr n true }) := by
  rw [acknowledge, h]

theorem acknowledge_none (h : p.next = none) : p.acknowledge = (7, p) := by
  rw [acknowledge, h]

/-- With nothing in service, every request that is not masked is heard. -/
theorem int_of_request (idle : p.isr = noLines) (requested : p.irr n = true) (unmasked : p.imr.getLsbD n = false) :
    p.int = true := by
  by_contra silent
  have none' : p.next = none := Option.not_isSome_iff_eq_none.1 silent
  have heard : p.eligible n = true := eligible_iff.2 ⟨requested, unmasked, fun m _ => congrFun idle m⟩
  rw [next_eq_none.1 none' n] at heard
  cases heard

/-- Line `0` comes before all others. -/
theorem next_zero (idle : p.isr = noLines) (requested : p.irr 0 = true) (unmasked : p.imr.getLsbD 0 = false) :
    p.next = some 0 :=
  next_eq_some.2 ⟨eligible_iff.2 ⟨requested, unmasked, fun m _ => congrFun idle m⟩,
    fun m before => absurd before (Fin.not_lt_zero m)⟩

/-- **The end of an interrupt** undoes its acknowledgement, whatever was requested since. -/
theorem end_acknowledge (first : ∀ m, m ≤ n → p.isr m = false) (served : q.isr = Function.update p.isr n true) :
    q.endOfInterrupt = { q with isr := p.isr } := by
  have found : Fin.find? q.isr = some n := by
    rw [served]
    refine Fin.find?_eq_some_iff.2 ⟨Function.update_self _ _ _, fun m before => ?_⟩
    rw [Function.update_of_ne (Fin.ne_of_lt before)]
    exact first m (Fin.le_of_lt before)
  have back : Function.update q.isr n false = p.isr := by
    rw [served, Function.update_idem, ← first n (Fin.le_refl n), Function.update_eq_self]
  rw [endOfInterrupt, found, ← back]

/-- With nothing in service it does nothing. -/
theorem end_idle (idle : q.isr = noLines) : q.endOfInterrupt = q := by
  have none' : Fin.find? q.isr = none := by
    rw [idle]
    exact Fin.find?_eq_none_iff.2 fun _ => rfl
  rw [endOfInterrupt, none']

@[simp] theorem request_self (p : Pic) (n : Fin 8) : (p.request n).irr n = true := Function.update_self _ _ _

theorem request_keeps {m : Fin 8} (requested : p.irr m = true) : (p.request n).irr m = true := by
  by_cases here : m = n
  · rw [here]
    exact request_self p n
  · exact (Function.update_of_ne here _ _).trans requested

theorem requested_of_next (h : p.next = some n) : p.irr n = true := (eligible_iff.1 (next_eq_some.1 h).1).1

@[simp] theorem command_end (p : Pic) : p.command 0x20 = some p.endOfInterrupt := rfl

end

end Pic

end Lib
