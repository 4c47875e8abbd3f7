import Mathlib.Data.List.Basic

/-!
# Logs kept in a ring of slots

A ring of `n` slots keeps the entries from number `lo` on of a log that only grows: entry
`i` is in slot `i % n`, and at most `n` entries are kept. `slots` may hold the entries in any
encoding `R`.
-/

namespace Lib
set_option autoImplicit false

structure Ring {α β : Type*} (R : β → α → Prop) (n : Nat) (slots : Nat → β) (log : List α) (lo : Nat) : Prop where
  kept : lo ≤ log.length
  room : log.length ≤ lo + n
  stored : ∀ i (_ : i < log.length), lo ≤ i → R (slots (i % n)) log[i]

namespace Ring

variable {α β : Type*} {R : β → α → Prop} {n lo : Nat} {slots : Nat → β} {log : List α} {cell : β} {a : α}

theorem empty (R : β → α → Prop) (n : Nat) (slots : Nat → β) : Ring R n slots [] 0 :=
  ⟨Nat.zero_le _, Nat.zero_le _, fun _ hi => absurd hi (Nat.not_lt_zero _)⟩

/-- The oldest entries can be given up. -/
theorem drop (h : Ring R n slots log lo) {lo' : Nat} (later : lo ≤ lo') (kept : lo' ≤ log.length) :
    Ring R n slots log lo' :=
  ⟨kept, by have := h.room; omega, fun i hi below => h.stored i hi (Nat.le_trans later below)⟩

/-- The next slot is not in use while fewer than `n` entries are kept. -/
theorem push (h : Ring R n slots log lo) (room : log.length < lo + n) (holds : R cell a) :
    Ring R n (fun x => if x = log.length % n then cell else slots x) (log ++ [a]) lo := by
  have kept := h.kept
  refine ⟨?_, ?_, fun i hi below => ?_⟩
  · rw [List.length_append]
    omega
  · rw [List.length_append, List.length_singleton]
    omega
  · rw [List.length_append, List.length_singleton] at hi
    by_cases last : i = log.length
    · subst last
      rw [if_pos rfl, List.getElem_concat_length rfl]
      exact holds
    · have apart : i % n ≠ log.length % n := fun same => by
        have gap := Nat.sub_mod_eq_zero_of_mod_eq same.symm
        rw [Nat.mod_eq_of_lt (by omega)] at gap
        omega
      have old : i < log.length := by omega
      rw [if_neg apart, List.getElem_append_left old]
      exact h.stored i old below

end Ring

end Lib
