import Mathlib.Logic.Basic

/-!
# Labelled systems and their runs

A system has initial states and labelled steps; a run is a finite sequence of labels
with the state it ends in. `Run.invariant` is the only induction over runs: a property
of the initial states that every step keeps holds at the end of every run.
`restrict` keeps the steps that meet a side condition on the state before them.
-/

namespace Lib
set_option autoImplicit false

structure Lts (σ α : Type*) where
  Init : σ → Prop
  Step : σ → α → σ → Prop

namespace Lts

variable {σ α : Type*}

/-- The runs of a system: the labels in order and the state reached. -/
inductive Run (S : Lts σ α) : List α → σ → Prop
  | start {s : σ} : S.Init s → Run S [] s
  | snoc {as : List α} {s s' : σ} {a : α} : Run S as s → S.Step s a s' → Run S (as ++ [a]) s'

/-- The steps whose starting state meets `ok`. -/
def restrict (S : Lts σ α) (ok : σ → α → Prop) : Lts σ α where
  Init := S.Init
  Step s a s' := ok s a ∧ S.Step s a s'

/-- **The invariant rule.** -/
theorem Run.invariant {S : Lts σ α} {Inv : σ → Prop} (init : ∀ s, S.Init s → Inv s)
    (step : ∀ s a s', Inv s → S.Step s a s' → Inv s') {as : List α} {s : σ} (run : S.Run as s) :
    Inv s := by
  induction run with
  | start h => exact init _ h
  | snoc _ h ih => exact step _ _ _ ih h

/-- **The simulation rule.** -/
theorem Run.simulated {τ : Type*} {S : Lts σ α} {T : Lts τ α} {R : σ → τ → Prop}
    (init : ∀ s, S.Init s → ∃ t, T.Init t ∧ R s t)
    (step : ∀ s a s' t, R s t → S.Step s a s' → ∃ t', T.Step t a t' ∧ R s' t') {as : List α} {s : σ}
    (run : S.Run as s) : ∃ t, T.Run as t ∧ R s t := by
  induction run with
  | start h =>
    obtain ⟨t, start, related⟩ := init _ h
    exact ⟨t, .start start, related⟩
  | snoc _ h ih =>
    obtain ⟨t, run, related⟩ := ih
    obtain ⟨t', next, related'⟩ := step _ _ _ _ related h
    exact ⟨t', run.snoc next, related'⟩

/-- A restricted run is a run. -/
theorem Run.unrestrict {S : Lts σ α} {ok : σ → α → Prop} {as : List α} {s : σ}
    (run : (S.restrict ok).Run as s) : S.Run as s := by
  induction run with
  | start h => exact .start h
  | snoc _ h ih => exact .snoc ih h.2

/-- A run of labels that are all allowed is a restricted run. -/
theorem Run.restricted {S : Lts σ α} {ok : α → Prop} {as : List α} {s : σ} (run : S.Run as s)
    (all : ∀ a ∈ as, ok a) : (S.restrict fun _ a => ok a).Run as s := by
  induction run with
  | start h => exact .start h
  | snoc _ h ih =>
    exact .snoc (ih fun a member => all a (List.mem_append_left _ member)) ⟨all _ List.mem_concat_self, h⟩

end Lts

/-- **The invariant rule for a loop that can fail.** While the invariant holds the body does
not fail and computes `g`. -/
theorem foldlM_some {α β : Type*} {f : β → α → Option β} {g : β → α → β} {Inv : β → Prop} {l : List α}
    (step : ∀ b, ∀ a ∈ l, Inv b → f b a = some (g b a) ∧ Inv (g b a)) {b : β} (start : Inv b) :
    l.foldlM f b = some (l.foldl g b) ∧ Inv (l.foldl g b) := by
  induction l generalizing b with
  | nil => exact ⟨rfl, start⟩
  | cons a l ih =>
    obtain ⟨body, next⟩ := step b a List.mem_cons_self start
    rw [List.foldlM_cons, List.foldl_cons, body]
    exact ih (fun b a' member => step b a' (List.mem_cons_of_mem a member)) next

end Lib
