import Mathlib.Data.Option.Basic

/-!
# Code that waits

A loop that waits for a device runs on fuel. `Settles f x` says that with enough fuel the result is `x`, however much
there is; the rules follow the code.
-/

namespace Lib
set_option autoImplicit false

def Settles {α : Type*} (f : Nat → Option α) (x : α) : Prop := ∃ enough, ∀ fuel, enough ≤ fuel → f fuel = some x

namespace Settles

variable {α β : Type*} {f f' : Nat → Option α} {g : Nat → α → Option β} {x y : α} {z : β}

theorem pure (x : α) : Settles (fun _ => some x) x := ⟨0, fun _ _ => rfl⟩

/-- A result that more fuel does not change. -/
theorem of_some {enough : Nat} (returns : f enough = some x)
    (mono : ∀ fuel, enough ≤ fuel → f enough = some x → f fuel = some x) : Settles f x :=
  ⟨enough, fun fuel more => mono fuel more returns⟩

theorem congr (h : Settles f x) (eq : ∀ fuel, f' fuel = f fuel) : Settles f' x := by
  obtain ⟨enough, run⟩ := h
  exact ⟨enough, fun fuel more => (eq fuel).trans (run fuel more)⟩

theorem bind (h : Settles f x) (h' : Settles (fun fuel => g fuel x) z) :
    Settles (fun fuel => (f fuel).bind (g fuel)) z := by
  obtain ⟨enough, run⟩ := h
  obtain ⟨enough', run'⟩ := h'
  refine ⟨max enough enough', fun fuel more => ?_⟩
  show (f fuel).bind (g fuel) = some z
  rw [run fuel (Nat.le_trans (Nat.le_max_left _ _) more), Option.bind_some]
  exact run' fuel (Nat.le_trans (Nat.le_max_right _ _) more)

theorem map (h : Settles f x) (k : α → β) : Settles (fun fuel => (f fuel).map k) (k x) := by
  obtain ⟨enough, run⟩ := h
  refine ⟨enough, fun fuel more => ?_⟩
  show (f fuel).map k = some (k x)
  rw [run fuel more, Option.map_some]

theorem unique (h : Settles f x) (h' : Settles f y) : x = y := by
  obtain ⟨enough, run⟩ := h
  obtain ⟨enough', run'⟩ := h'
  have one := run (max enough enough') (Nat.le_max_left _ _)
  exact Option.some.inj (one.symm.trans (run' _ (Nat.le_max_right _ _)))

end Settles

/-- **The rule for a loop over a list.** -/
theorem settles_foldlM {σ α : Type*} {f : Nat → σ → α → Option σ} {Inv : σ → Prop} (Did : σ → List α → σ → Prop)
    (done : ∀ s, Did s [] s) (more : ∀ s a s' l s'', Did s [a] s' → Did s' l s'' → Did s (a :: l) s'')
    (turn : ∀ s a, Inv s → ∃ s', Settles (fun fuel => f fuel s a) s' ∧ Did s [a] s' ∧ Inv s') (l : List α) {s : σ}
    (start : Inv s) : ∃ s', Settles (fun fuel => l.foldlM (f fuel) s) s' ∧ Did s l s' ∧ Inv s' := by
  induction l generalizing s with
  | nil => exact ⟨s, .pure s, done s, start⟩
  | cons a l ih =>
    obtain ⟨s₁, run, did, inv⟩ := turn s a start
    obtain ⟨s₂, runs, rest, inv'⟩ := ih inv
    have both := run.bind (g := fun fuel s => l.foldlM (f fuel) s) runs
    exact ⟨s₂, both.congr fun fuel => List.foldlM_cons, more _ _ _ _ _ did rest, inv'⟩

end Lib
