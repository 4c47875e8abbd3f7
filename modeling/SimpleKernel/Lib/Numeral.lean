import Mathlib.Data.Nat.Digits.Lemmas

/-!
# Positional numerals

A numeral is a list of characters, most significant digit first. An `Alphabet` has a
character for each digit below the base and reads it back; `read` is the value of a text,
if all its characters are digits, and `numeral` the text of a number without leading zeros
(`canonical_numeral`).
-/

namespace Lib
set_option autoImplicit false

variable {α : Type*}

structure Alphabet (α : Type*) (base : Nat) where
  char : Nat → α
  digit : α → Option Nat
  one_lt : 1 < base
  digit_char : ∀ d, d < base → digit (char d) = some d

namespace Alphabet

variable {base : Nat} (A : Alphabet α base)

/-- The value of digits that follow others of value `n`. -/
def readFrom (n : Nat) (text : List α) : Option Nat :=
  text.foldlM (fun n c => (A.digit c).map fun d => n * base + d) n

/-- The value of a text. -/
def read (text : List α) : Option Nat := A.readFrom 0 text

/-- The digits of a positive number, none for `0`. -/
def digits (n : Nat) : List α := ((Nat.digits base n).map A.char).reverse

/-- The numeral of a number. -/
def numeral (n : Nat) : List α := if n = 0 then [A.char 0] else A.digits n

/-- The text is a numeral of `n` without leading zeros. -/
structure Canonical (text : List α) (n : Nat) : Prop where
  reads : A.read text = some n
  nonempty : text ≠ []
  leading : text.head? = some (A.char 0) → text = [A.char 0]

theorem readFrom_cons (n : Nat) (c : α) (text : List α) :
    A.readFrom n (c :: text) = (A.digit c).bind fun d => A.readFrom (n * base + d) text := by
  rw [readFrom, List.foldlM_cons]
  cases A.digit c with
  | none => rfl
  | some d => rfl

theorem readFrom_snoc (n : Nat) (text : List α) (c : α) :
    A.readFrom n (text ++ [c]) = (A.readFrom n text).bind fun v => (A.digit c).map fun d => v * base + d := by
  have last (v : Nat) : A.readFrom v [c] = (A.digit c).map fun d => v * base + d := by
    rw [readFrom_cons]
    cases A.digit c with
    | none => rfl
    | some d => rfl
  rw [readFrom, List.foldlM_append]
  show ((A.readFrom n text).bind fun v => A.readFrom v [c]) = _
  simp only [last]

theorem digits_zero : A.digits 0 = [] := by rw [digits, Nat.digits_zero]; rfl

theorem digits_pos {n : Nat} (positive : 0 < n) : A.digits n = A.digits (n / base) ++ [A.char (n % base)] := by
  rw [digits, Nat.digits_def' A.one_lt positive, List.map_cons, List.reverse_cons, digits]

theorem read_digits (n : Nat) : A.read (A.digits n) = some n := by
  induction n using Nat.strong_induction_on with
  | _ n ih =>
    by_cases zero : n = 0
    · rw [zero, digits_zero]
      rfl
    · have positive : 0 < n := Nat.pos_of_ne_zero zero
      have digit := A.digit_char (n % base) (Nat.mod_lt _ (Nat.lt_trans Nat.zero_lt_one A.one_lt))
      have rest := ih (n / base) (Nat.div_lt_self positive A.one_lt)
      rw [read] at rest
      rw [digits_pos A positive, read, readFrom_snoc, rest, digit]
      show some (n / base * base + n % base) = some n
      rw [Nat.div_add_mod']

theorem read_numeral (n : Nat) : A.read (A.numeral n) = some n := by
  unfold numeral
  split
  · rename_i zero
    have digit := A.digit_char 0 (Nat.lt_trans Nat.zero_lt_one A.one_lt)
    rw [read, readFrom_cons, digit, zero]
    show some (0 * base + 0) = some 0
    rw [Nat.zero_mul]
  · exact A.read_digits n

/-- The first digit of a positive number is not zero. -/
theorem digits_head {n : Nat} (positive : 0 < n) : ∃ d, d ≠ 0 ∧ d < base ∧ (A.digits n).head? = some (A.char d) := by
  have nonempty : Nat.digits base n ≠ [] := Nat.digits_ne_nil_iff_ne_zero.2 (Nat.ne_of_gt positive)
  refine ⟨(Nat.digits base n).getLast nonempty, Nat.getLast_digit_ne_zero base (Nat.ne_of_gt positive),
    Nat.digits_lt_base A.one_lt (List.getLast_mem nonempty), ?_⟩
  rw [digits, List.head?_reverse, List.getLast?_map, List.getLast?_eq_getLast_of_ne_nil nonempty]
  rfl

theorem canonical_numeral (n : Nat) : A.Canonical (A.numeral n) n := by
  refine ⟨A.read_numeral n, ?_, ?_⟩
  · unfold numeral
    split
    · exact List.cons_ne_nil _ _
    · rename_i nonzero
      obtain ⟨d, -, -, head⟩ := A.digits_head (Nat.pos_of_ne_zero nonzero)
      intro empty
      rw [empty] at head
      cases head
  · unfold numeral
    split
    · intro _
      rfl
    · rename_i nonzero
      obtain ⟨d, other, small, head⟩ := A.digits_head (Nat.pos_of_ne_zero nonzero)
      rw [head]
      intro leading
      have same := congrArg A.digit (Option.some.inj leading)
      rw [A.digit_char d small, A.digit_char 0 (Nat.lt_trans Nat.zero_lt_one A.one_lt)] at same
      exact absurd (Option.some.inj same) other

theorem mem_digits {n : Nat} {c : α} (member : c ∈ A.digits n) : ∃ d, d < base ∧ A.char d = c := by
  rw [digits, List.mem_reverse, List.mem_map] at member
  obtain ⟨d, digit, eq⟩ := member
  exact ⟨d, Nat.digits_lt_base A.one_lt digit, eq⟩

/-- A number below `base ^ k` has at most `k` digits. -/
theorem digits_length_le {n k : Nat} (small : n < base ^ k) : (A.digits n).length ≤ k := by
  rw [digits, List.length_reverse, List.length_map]
  exact (Nat.digits_length_le_iff A.one_lt n).2 small

end Alphabet

end Lib
