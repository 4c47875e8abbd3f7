import SimpleKernel.Heap.WellFormed

/-!
# What coalescing leaves apart

All addresses and sizes are multiples of 8, so the rounded test of `heap_coalesce` on two
touching free blocks comes down to their headers: it passes exactly when they differ
modulo 16. The block that grows keeps the header it began with, hence in a run of touching
free blocks a block is absorbed exactly when its header differs modulo 16 from the first
header of the run (`Tracks.absorbs_iff`). From this: which headers survive
(`coalesce_survives`) and when nothing is left to join (`coalesced_iff`).
-/

namespace SimpleKernel.Heap
set_option autoImplicit false
open Lib

/-- The run of touching free blocks at the end of a list, one block longer. -/
def runStep (run : Option (Nat × Nat)) (b : Block) : Option (Nat × Nat) :=
  if b.free then
    match run with
    | some (head, fin) => if fin = b.addr then some (head, b.fin) else some (b.addr, b.fin)
    | none => some (b.addr, b.fin)
  else none

/-- The first header and the end of the run of touching free blocks at the end of `bs`. -/
def freeRun (bs : List Block) : Option (Nat × Nat) := bs.foldl runStep none

/-- `c` goes on a run whose first header differs from its own modulo 16. -/
def Joined (run : Option (Nat × Nat)) (c : Block) : Prop :=
  c.free = true ∧ ∃ head, run = some (head, c.addr) ∧ head % 16 ≠ c.addr % 16

instance (run : Option (Nat × Nat)) (c : Block) : Decidable (Joined run c) :=
  match run with
  | none => isFalse fun joined => nomatch joined.2
  | some (head, fin) => decidable_of_iff (c.free = true ∧ fin = c.addr ∧ head % 16 ≠ c.addr % 16) <| by
      simp [Joined]

def Eight (bs : List Block) : Prop := ∀ b ∈ bs, b.addr % 8 = 0 ∧ b.size % 8 = 0

/-- `g` is the block that coalescing has grown out of the run. -/
structure Tracks (g : Block) (run : Option (Nat × Nat)) : Prop where
  used : g.free = false → run = none
  free : g.free = true → ∃ head, run = some (head, g.fin) ∧ head % 16 = g.addr % 16

theorem tracks_first (g : Block) : Tracks g (runStep none g) := by
  unfold runStep
  refine ⟨fun used => ?_, fun free => ?_⟩
  · rw [used]
    rfl
  · rw [free]
    exact ⟨g.addr, rfl, rfl⟩

section

variable {regions : List Seg} {pre post : List Block} {g c : Block} {run : Option (Nat × Nat)}

theorem eight_pair (eight : Eight (pre ++ g :: c :: post)) :
    g.addr % 8 = 0 ∧ g.size % 8 = 0 ∧ c.addr % 8 = 0 ∧ c.size % 8 = 0 := by
  have hg := eight g (by simp)
  have hc := eight c (by simp)
  exact ⟨hg.1, hg.2, hc.1, hc.2⟩

theorem Tracks.absorbs_iff (tracks : Tracks g run) (layout : Layout regions (pre ++ g :: c :: post))
    (eight : Eight (pre ++ g :: c :: post)) : absorbs g c ↔ Joined run c := by
  obtain ⟨ga, gs, ca, -⟩ := eight_pair eight
  rw [layout.absorbs_iff, Joined]
  constructor
  · intro h
    obtain ⟨free, freeC, touch, size⟩ := h
    obtain ⟨head, eq, same⟩ := tracks.free free
    refine ⟨freeC, head, by rw [eq, touch], ?_⟩
    unfold Block.fin at touch
    omega
  · intro h
    obtain ⟨freeC, head, eq, differ⟩ := h
    cases free : g.free with
    | false =>
      rw [tracks.used free] at eq
      cases eq
    | true =>
      obtain ⟨head', eq', same⟩ := tracks.free free
      rw [eq', Option.some.injEq, Prod.mk.injEq] at eq
      obtain ⟨rfl, touch⟩ := eq
      refine ⟨rfl, freeC, touch, ?_⟩
      unfold Block.fin at touch
      omega

/-- A block that is absorbed lengthens the run. -/
theorem Tracks.absorbed (tracks : Tracks g run) (layout : Layout regions (pre ++ g :: c :: post))
    (test : absorbs g c) : Tracks (merge g c) (runStep run c) := by
  have touch := layout.touch_of_absorbs test
  obtain ⟨head, eq, same⟩ := tracks.free test.1
  refine ⟨fun used => ?_, fun _ => ⟨head, ?_, same⟩⟩
  · rw [merge, test.1] at used
    cases used
  · unfold runStep
    rw [test.2.1, if_pos rfl, eq]
    dsimp only
    rw [if_pos touch]
    unfold merge Block.fin at *
    simp only [Option.some.injEq, Prod.mk.injEq, true_and]
    omega

/-- A block that is not absorbed begins a run or goes on one with its own remainder. -/
theorem Tracks.kept (tracks : Tracks g run) (layout : Layout regions (pre ++ g :: c :: post))
    (eight : Eight (pre ++ g :: c :: post)) (test : ¬ absorbs g c) : Tracks c (runStep run c) := by
  rw [tracks.absorbs_iff layout eight] at test
  unfold runStep
  refine ⟨fun used => ?_, fun free => ?_⟩
  · rw [used]
    rfl
  · rw [free, if_pos rfl]
    cases run with
    | none => exact ⟨c.addr, rfl, rfl⟩
    | some run =>
      obtain ⟨head, fin⟩ := run
      dsimp only
      by_cases touch : fin = c.addr
      · rw [if_pos touch]
        refine ⟨head, rfl, ?_⟩
        by_contra differ
        exact test ⟨free, head, by rw [touch], differ⟩
      · rw [if_neg touch]
        exact ⟨c.addr, rfl, rfl⟩

theorem Eight.merged (eight : Eight (pre ++ g :: c :: post)) : Eight (pre ++ merge g c :: post) := by
  obtain ⟨ga, gs, ca, cs⟩ := eight_pair eight
  intro b hb
  simp only [List.mem_append, List.mem_cons] at hb
  rcases hb with hb | rfl | hb
  · exact eight b (by simp [hb])
  · unfold merge
    dsimp only
    omega
  · exact eight b (by simp [hb])

end

theorem coalesceFrom_head (g : Block) (cs : List Block) :
    ∃ b rest, coalesceFrom g cs = b :: rest ∧ b.addr = g.addr ∧ b.free = g.free ∧ g.size ≤ b.size := by
  induction cs generalizing g with
  | nil => exact ⟨g, [], rfl, rfl, rfl, le_rfl⟩
  | cons c cs ih =>
    unfold coalesceFrom
    split
    · obtain ⟨b, rest, eq, addr, free, size⟩ := ih (merge g c)
      exact ⟨b, rest, eq, addr, free, (Nat.le_add_right _ _).trans size⟩
    · exact ⟨g, _, rfl, rfl, rfl, le_rfl⟩

/-! ## Headers that survive -/

theorem coalesceFrom_survives {regions : List Seg} {pre xs ys : List Block} {g c : Block} {run : Option (Nat × Nat)}
    (layout : Layout regions (pre ++ g :: (xs ++ c :: ys))) (eight : Eight (pre ++ g :: (xs ++ c :: ys)))
    (tracks : Tracks g run) (keeps : ¬ Joined (xs.foldl runStep run) c) :
    ∃ b ∈ coalesceFrom g (xs ++ c :: ys), b.addr = c.addr ∧ b.free = c.free ∧ c.size ≤ b.size := by
  induction xs generalizing pre g run with
  | nil =>
    have test : ¬ absorbs g c := fun h => keeps ((tracks.absorbs_iff layout eight).1 h)
    rw [List.nil_append, coalesceFrom, if_neg test]
    obtain ⟨b, rest, eq, facts⟩ := coalesceFrom_head c ys
    rw [eq]
    exact ⟨b, by simp, facts⟩
  | cons x xs ih =>
    rw [List.cons_append, coalesceFrom]
    by_cases test : absorbs g x
    · rw [if_pos test]
      exact ih (layout.merged (layout.touch_of_absorbs test)) eight.merged (tracks.absorbed layout test) keeps
    · rw [if_neg test]
      obtain ⟨b, hb, facts⟩ := @ih (pre ++ [g]) x (runStep run x) (by simpa using layout) (by simpa using eight)
        (tracks.kept layout eight test) keeps
      exact ⟨b, List.mem_cons_of_mem _ hb, facts⟩

/-- **A block that is not absorbed keeps its header** and does not shrink. -/
theorem coalesce_survives {regions : List Seg} {xs ys : List Block} {c : Block}
    (layout : Layout regions (xs ++ c :: ys)) (eight : Eight (xs ++ c :: ys)) (keeps : ¬ Joined (freeRun xs) c) :
    ∃ b ∈ coalesce (xs ++ c :: ys), b.addr = c.addr ∧ b.free = c.free ∧ c.size ≤ b.size := by
  cases xs with
  | nil =>
    obtain ⟨b, rest, eq, facts⟩ := coalesceFrom_head c ys
    exact ⟨b, by rw [List.nil_append, coalesce, eq]; simp, facts⟩
  | cons g xs => exact @coalesceFrom_survives _ [] xs ys g c _ layout eight (tracks_first g) keeps

theorem Merges.eight {bs bs' : List Block} (h : Merges bs bs') (eight : Eight bs) : Eight bs' := by
  induction h with
  | refl => exact eight
  | step _ _ _ _ ih => exact ih.merged

/-! ## Complete coalescing -/

/-- No two consecutive blocks are free and touch. -/
def Coalesced (bs : List Block) : Prop := bs.IsChain fun b c => ¬ (b.free = true ∧ c.free = true ∧ b.fin = c.addr)

/-- In every run of touching free blocks the headers after the first differ from it modulo 16. -/
def AlternatesFrom (run : Option (Nat × Nat)) (bs : List Block) : Prop :=
  ∀ xs c ys, bs = xs ++ c :: ys → c.free = true → ∀ head, xs.foldl runStep run = some (head, c.addr) →
    head % 16 ≠ c.addr % 16

theorem alternatesFrom_cons {run : Option (Nat × Nat)} {c : Block} {cs : List Block} :
    AlternatesFrom run (c :: cs) ↔
      (c.free = true → ∀ head, run = some (head, c.addr) → head % 16 ≠ c.addr % 16) ∧
      AlternatesFrom (runStep run c) cs := by
  constructor
  · intro h
    refine ⟨fun free head eq => h [] c cs rfl free head eq, fun xs d ys eq => ?_⟩
    exact h (c :: xs) d ys (by rw [eq]; rfl)
  · intro h xs d ys eq
    cases xs with
    | nil =>
      cases eq
      exact h.1
    | cons x xs =>
      cases eq
      exact h.2 xs d ys rfl

theorem coalescedFrom_iff {regions : List Seg} {pre cs : List Block} {g : Block} {run : Option (Nat × Nat)}
    (layout : Layout regions (pre ++ g :: cs)) (eight : Eight (pre ++ g :: cs)) (tracks : Tracks g run) :
    Coalesced (coalesceFrom g cs) ↔ AlternatesFrom run cs := by
  induction cs generalizing pre g run with
  | nil =>
    refine ⟨fun _ xs c ys eq => ?_, fun _ => List.isChain_singleton g⟩
    cases xs <;> cases eq
  | cons c cs ih =>
    rw [alternatesFrom_cons, coalesceFrom]
    have joined := tracks.absorbs_iff layout eight
    by_cases test : absorbs g c
    · rw [if_pos test, ih (layout.merged (layout.touch_of_absorbs test)) eight.merged (tracks.absorbed layout test)]
      obtain ⟨-, head, eq, differ⟩ := joined.1 test
      refine ⟨fun rest => ⟨fun _ head' eq' => ?_, rest⟩, fun h => h.2⟩
      rw [eq, Option.some.injEq, Prod.mk.injEq] at eq'
      rw [← eq'.1]
      exact differ
    · have rest := @ih (pre ++ [g]) c (runStep run c) (by simpa using layout) (by simpa using eight)
        (tracks.kept layout eight test)
      rw [if_neg test, ← rest]
      obtain ⟨b, tail, eq, addr, free, -⟩ := coalesceFrom_head c cs
      rw [eq]
      unfold Coalesced
      rw [List.isChain_cons_cons, free, addr]
      refine and_congr ⟨fun apart freeC head eqRun same => ?_, fun differ h => ?_⟩ Iff.rfl
      · cases freeG : g.free with
        | false =>
          rw [tracks.used freeG] at eqRun
          cases eqRun
        | true =>
          obtain ⟨head', eq', -⟩ := tracks.free freeG
          rw [eq', Option.some.injEq, Prod.mk.injEq] at eqRun
          exact apart ⟨freeG, freeC, eqRun.2⟩
      · obtain ⟨freeG, freeC, touch⟩ := h
        obtain ⟨head, eqRun, -⟩ := tracks.free freeG
        rw [touch] at eqRun
        exact test (joined.2 ⟨freeC, head, eqRun, differ freeC head eqRun⟩)

/-- **When coalescing is complete.** -/
theorem coalesced_iff {regions : List Seg} {bs : List Block} (layout : Layout regions bs) (eight : Eight bs) :
    Coalesced (coalesce bs) ↔ AlternatesFrom none bs := by
  cases bs with
  | nil =>
    refine ⟨fun _ xs c ys eq => ?_, fun _ => List.isChain_nil⟩
    cases xs <;> cases eq
  | cons g cs =>
    rw [alternatesFrom_cons]
    have rest := @coalescedFrom_iff _ [] _ _ _ layout eight (tracks_first g)
    refine ⟨fun h => ⟨fun _ head eq => (nomatch eq), rest.1 h⟩, fun h => rest.2 h.2⟩

end SimpleKernel.Heap
