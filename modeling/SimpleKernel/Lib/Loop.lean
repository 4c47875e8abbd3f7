import Mathlib.Data.List.Basic

/-!
# Counted loops with an early exit

`forWhile go body n i s` is `for (; i < i₀ + n && go(s); i++) s = body(i, s)`. Where each
turn adds its items to what the state holds, and a state that stops the loop holds as many
as it ever will, the loop adds the items of all turns (`forWhile_collect`).
-/

namespace Lib
set_option autoImplicit false

variable {σ α : Type*}

def forWhile (go : σ → Bool) (body : Nat → σ → σ) : Nat → Nat → σ → σ
  | 0, _, s => s
  | n + 1, i, s => if go s then forWhile go body n (i + 1) (body i s) else s

/-- **The rule for a loop that collects.** -/
theorem forWhile_collect {go : σ → Bool} {body : Nat → σ → σ} {Holds : σ → List α → Prop} {items : Nat → List α}
    (full : ∀ s l, go s = false → Holds s l → ∀ more, Holds s (l ++ more)) {n i : Nat}
    (turn : ∀ j, i ≤ j → j < i + n → ∀ s l, go s = true → Holds s l → Holds (body j s) (l ++ items j)) {s : σ}
    {l : List α} (start : Holds s l) : Holds (forWhile go body n i s) (l ++ (List.range' i n).flatMap items) := by
  induction n generalizing i s l with
  | zero =>
    rw [List.range'_zero, List.flatMap_nil, List.append_nil]
    exact start
  | succ n ih =>
    rw [forWhile]
    cases going : go s with
    | false => exact full s l going start _
    | true =>
      have first := turn i (Nat.le_refl i) (Nat.lt_add_of_pos_right n.succ_pos) s l going start
      have rest := @ih (i + 1) (fun j lo hi => turn j (by omega) (by omega)) _ _ first
      rw [if_pos rfl, List.range'_succ, List.flatMap_cons, ← List.append_assoc]
      exact rest

end Lib
