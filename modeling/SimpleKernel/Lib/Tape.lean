import Mathlib.Logic.Function.Basic
import Mathlib.Tactic.Common

/-!
# Text on an endless tape

The tape has rows of `w` cells and a head where the next character goes. The last `n` rows
are kept, from row `first` on: a head that comes to the start of a row clears it and gives
up the rows that are too old. Moving back stops at the first row that is kept. What is
written is erased by moving back as often (`erase_write`).
-/

namespace Lib
set_option autoImplicit false

variable {α : Type*}

structure Tape (α : Type*) where
  cells : Nat → α
  head : Nat
  first : Nat

namespace Tape

section

variable (w n : Nat) (blank : α)

/-- The head is at the start of a row. -/
def openRow (t : Tape α) : Tape α where
  cells x := if t.head ≤ x ∧ x < t.head + w then blank else t.cells x
  head := t.head
  first := max t.first (t.head / w + 1 - n)

def newline (t : Tape α) : Tape α := openRow w n blank { t with head := (t.head / w + 1) * w }

/-- The character in its cell, before the row is left. -/
def strike (a : α) (t : Tape α) : Tape α :=
  { t with cells := Function.update t.cells t.head a, head := t.head + 1 }

def put (a : α) (t : Tape α) : Tape α :=
  if (t.head + 1) % w = 0 then openRow w n blank (strike a t) else strike a t

def write (t : Tape α) (s : List α) : Tape α := s.foldl (fun t a => put w n blank a t) t

def back (t : Tape α) : Tape α :=
  if t.first * w < t.head then { t with cells := Function.update t.cells (t.head - 1) blank, head := t.head - 1 } else t

def erase (t : Tape α) : Nat → Tape α
  | 0 => t
  | k + 1 => erase (back w blank t) k

end

section

variable {w n : Nat} {blank a : α} {t : Tape α} {s : List α}

/-- Only the row of the head is cleared. -/
theorem openRow_cells {x : Nat} (aligned : t.head % w = 0) (other : x / w ≠ t.head / w) :
    (openRow w n blank t).cells x = t.cells x := by
  apply if_neg
  rintro ⟨lower, upper⟩
  apply other
  have head := Nat.div_add_mod t.head w
  rw [aligned, Nat.add_zero] at head
  apply Nat.div_eq_of_lt_le
  · rw [Nat.mul_comm, head]
    exact lower
  · rw [Nat.succ_mul, Nat.mul_comm, head]
    exact upper

/-- A new line touches the row that it opens. -/
theorem newline_cells {x : Nat} (other : x / w ≠ (newline w n blank t).head / w) :
    (newline w n blank t).cells x = t.cells x :=
  openRow_cells (Nat.mul_mod_left _ _) other

/-- A character touches the row that it is in and the one that it opens. -/
theorem put_rows {x : Nat} (other : x / w ≠ t.head / w) (other' : x / w ≠ (put w n blank a t).head / w) :
    (put w n blank a t).cells x = t.cells x := by
  have struck : (strike a t).cells x = t.cells x :=
    Function.update_of_ne (fun same => other (congrArg (· / w) same)) _ _
  revert other'
  unfold put
  split
  · rename_i aligned
    intro other'
    have opened : (openRow w n blank (strike a t)).cells x = (strike a t).cells x := openRow_cells aligned other'
    exact opened.trans struck
  · exact fun _ => struck

/-- Moving back touches the row that it ends in. -/
theorem back_cells {x : Nat} (other : x / w ≠ (back w blank t).head / w) : (back w blank t).cells x = t.cells x := by
  revert other
  unfold back
  split
  · intro other
    exact Function.update_of_ne (fun same => other (congrArg (· / w) same)) _ _
  · exact fun _ => rfl

@[simp] theorem put_head : (put w n blank a t).head = t.head + 1 := by
  unfold put
  split <;> rfl

/-- Nothing before the head changes. -/
theorem put_cells {x : Nat} (before : x < t.head) : (put w n blank a t).cells x = t.cells x := by
  have struck : (strike a t).cells x = t.cells x := Function.update_of_ne (Nat.ne_of_lt before) _ _
  have behind : ¬ ((strike a t).head ≤ x ∧ x < (strike a t).head + w) := by
    show ¬ (t.head + 1 ≤ x ∧ _)
    omega
  unfold put
  split
  · exact (if_neg behind).trans struck
  · exact struck

/-- The character is in the cell of the head, also when a row is opened behind it. -/
theorem put_cell : (put w n blank a t).cells t.head = a := by
  have struck : (strike a t).cells t.head = a := Function.update_self _ _ _
  have behind : ¬ ((strike a t).head ≤ t.head ∧ t.head < (strike a t).head + w) := by
    show ¬ (t.head + 1 ≤ t.head ∧ _)
    omega
  unfold put
  split
  · exact (if_neg behind).trans struck
  · exact struck

/-- The rows that are kept end with the row of the head. -/
theorem put_first (kept : t.head / w < t.first + n) :
    (put w n blank a t).first = max t.first ((t.head + 1) / w + 1 - n) := by
  unfold put
  split
  · rfl
  · rename_i inside
    have row : (t.head + 1) / w = t.head / w := by
      rw [Nat.succ_div, if_neg (fun divides => inside (Nat.mod_eq_zero_of_dvd divides)), Nat.add_zero]
    show t.first = _
    rw [row]
    omega

@[simp] theorem write_head : (write w n blank t s).head = t.head + s.length := by
  induction s generalizing t with
  | nil => rfl
  | cons a s ih =>
    rw [write, List.foldl_cons, ← write, ih, put_head, List.length_cons]
    omega

theorem write_cells {x : Nat} (before : x < t.head) : (write w n blank t s).cells x = t.cells x := by
  induction s generalizing t with
  | nil => rfl
  | cons a s ih =>
    rw [write, List.foldl_cons, ← write, ih (by rw [put_head]; omega), put_cells before]

theorem write_first (kept : t.head / w < t.first + n) :
    (write w n blank t s).first = max t.first ((t.head + s.length) / w + 1 - n) := by
  induction s generalizing t with
  | nil =>
    show t.first = max t.first (t.head / w + 1 - n)
    omega
  | cons a s ih =>
    have first := @put_first α w n blank a t kept
    have later : (t.head + 1) / w ≤ (t.head + 1 + s.length) / w := Nat.div_le_div_right (Nat.le_add_right _ _)
    rw [write, List.foldl_cons, ← write, ih (by rw [put_head, first]; omega), put_head, first, List.length_cons,
      ← Nat.add_assoc, Nat.add_right_comm t.head s.length 1]
    omega

/-- A text of less than `n - 1` rows keeps the row it starts in. -/
theorem write_keeps (kept : t.head / w < t.first + n) (inside : t.first * w ≤ t.head)
    (short : s.length + w ≤ n * w) : (write w n blank t s).first * w ≤ t.head := by
  rw [write_first kept]
  rcases Nat.le_total t.first ((t.head + s.length) / w + 1 - n) with later | earlier
  · rw [Nat.max_eq_right later, Nat.sub_mul, Nat.add_mul, Nat.one_mul]
    have floor := Nat.div_mul_le_self (t.head + s.length) w
    omega
  · rw [Nat.max_eq_left earlier]
    exact inside

theorem erase_spec {k : Nat} (room : t.first * w + k ≤ t.head) :
    (erase w blank t k).head = t.head - k ∧ (erase w blank t k).first = t.first ∧
      (∀ x, t.head - k ≤ x → x < t.head → (erase w blank t k).cells x = blank) ∧
      ∀ x, x < t.head - k ∨ t.head ≤ x → (erase w blank t k).cells x = t.cells x := by
  induction k generalizing t with
  | zero => exact ⟨rfl, rfl, fun x lo hi => absurd hi (Nat.not_lt.2 lo), fun _ _ => rfl⟩
  | succ k ih =>
    have step : back w blank t = { t with cells := Function.update t.cells (t.head - 1) blank, head := t.head - 1 } :=
      if_pos (by omega)
    obtain ⟨head, first, blanked, kept⟩ := @ih (back w blank t) (by rw [step]; dsimp only; omega)
    rw [step] at head first blanked kept
    rw [erase, step]
    dsimp only at head first blanked kept
    refine ⟨?_, first, ?_, ?_⟩
    · rw [head]
      omega
    · intro x lo hi
      by_cases last : x = t.head - 1
      · rw [kept x (by omega), last, Function.update_self]
      · exact blanked x (by omega) (by omega)
    · intro x outside
      rw [kept x (by omega), Function.update_of_ne (by omega)]

/-- **Moving back erases what was written.** -/
theorem erase_write (kept : t.head / w < t.first + n) (inside : t.first * w ≤ t.head)
    (short : s.length + w ≤ n * w) :
    (erase w blank (write w n blank t s) s.length).head = t.head ∧
      (erase w blank (write w n blank t s) s.length).first = (write w n blank t s).first ∧
      (∀ i, i < s.length → (erase w blank (write w n blank t s) s.length).cells (t.head + i) = blank) ∧
      ∀ x, x < t.head → (erase w blank (write w n blank t s) s.length).cells x = t.cells x := by
  have bound := @write_keeps α w n blank t s kept inside short
  obtain ⟨head, first, blanked, same⟩ := @erase_spec α w blank (write w n blank t s) s.length
    (by rw [write_head]; omega)
  rw [write_head, Nat.add_sub_cancel] at head blanked same
  refine ⟨head, first, ?_, ?_⟩
  · intro i hi
    exact blanked _ (Nat.le_add_right _ _) (Nat.add_lt_add_left hi _)
  · intro x before
    rw [same x (.inl before), write_cells before]

end

end Tape

end Lib
