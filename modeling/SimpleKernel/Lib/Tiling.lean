import Mathlib.Data.List.Pairwise
import Mathlib.Order.Lattice.Nat
import Mathlib.Tactic.Common

/-!
# Segments that tile a set of addresses

A list of half-open segments in address order tiles a set when it covers exactly that
set. Splitting a segment, joining two that touch and inserting a segment apart from
the set keep a tiling (`Tiles.split`, `Tiles.join`, `Tiles.insert`). When the set is a
union of aligned regions, two consecutive segments touch or leave an aligned gap
(`Tiles.gap`): a segment never ends a few bytes before the next one begins.
-/

namespace Lib
set_option autoImplicit false

structure Seg where
  lo : Nat
  hi : Nat
  deriving DecidableEq, Repr

/-- The address lies in the segment. -/
def Seg.Has (s : Seg) (a : Nat) : Prop := s.lo ≤ a ∧ a < s.hi

/-- Some segment of the list has the address. -/
def Cover (l : List Seg) (a : Nat) : Prop := ∃ s ∈ l, s.Has a

/-- The segments, in order and apart, cover exactly `U`. -/
structure Tiles (l : List Seg) (U : Nat → Prop) : Prop where
  proper : ∀ s ∈ l, s.lo < s.hi
  ordered : l.Pairwise fun s t => s.hi ≤ t.lo
  cover : ∀ a, Cover l a ↔ U a

@[simp] theorem cover_nil (a : Nat) : Cover [] a ↔ False := by simp [Cover]

@[simp] theorem cover_cons (s : Seg) (l : List Seg) (a : Nat) : Cover (s :: l) a ↔ s.Has a ∨ Cover l a := by
  simp [Cover]

@[simp] theorem cover_append (l l' : List Seg) (a : Nat) :
    Cover (l ++ l') a ↔ Cover l a ∨ Cover l' a := by
  simp only [Cover, List.mem_append, or_and_right, exists_or]

namespace Tiles

variable {l pre post : List Seg} {s t r : Seg} {U V : Nat → Prop}

theorem congr (h : Tiles l U) (same : ∀ a, U a ↔ V a) : Tiles l V :=
  ⟨h.proper, h.ordered, fun a => (h.cover a).trans (same a)⟩

theorem nil (h : ∀ a, ¬ U a) : Tiles [] U :=
  ⟨by simp, .nil, fun a => by simp [h a]⟩

/-- The three parts of the order around one segment. -/
theorem ordered_middle :
    (pre ++ s :: post).Pairwise (fun s t => s.hi ≤ t.lo) ↔
      pre.Pairwise (fun s t => s.hi ≤ t.lo) ∧ post.Pairwise (fun s t => s.hi ≤ t.lo) ∧
        (∀ x ∈ pre, x.hi ≤ s.lo ∧ ∀ y ∈ post, x.hi ≤ y.lo) ∧ ∀ y ∈ post, s.hi ≤ y.lo := by
  simp only [List.pairwise_append, List.pairwise_cons, List.mem_cons, forall_eq_or_imp]
  tauto

/-- The segments around one are not empty, and neither is that one. -/
theorem proper_middle : (∀ x ∈ pre ++ s :: post, x.lo < x.hi) ↔
    (∀ x ∈ pre, x.lo < x.hi) ∧ s.lo < s.hi ∧ ∀ y ∈ post, y.lo < y.hi := by
  rw [List.forall_mem_append, List.forall_mem_cons]

/-- Cut a segment in two. -/
theorem split (h : Tiles (pre ++ s :: post) U) {m : Nat} (lo : s.lo < m) (hi : m < s.hi) :
    Tiles (pre ++ ⟨s.lo, m⟩ :: ⟨m, s.hi⟩ :: post) U := by
  obtain ⟨hpre, hpost, before, after⟩ := ordered_middle.1 h.ordered
  obtain ⟨properPre, -, properPost⟩ := proper_middle.1 h.proper
  refine ⟨?_, ?_, fun a => ?_⟩
  · exact proper_middle.2 ⟨properPre, lo, List.forall_mem_cons.2 ⟨hi, properPost⟩⟩
  · refine ordered_middle.2 ⟨hpre, List.pairwise_cons.2 ⟨after, hpost⟩, fun x hx => ?_, ?_⟩
    · refine ⟨(before x hx).1, fun y hy => ?_⟩
      rcases List.mem_cons.1 hy with rfl | hy
      · exact (before x hx).1.trans lo.le
      · exact (before x hx).2 y hy
    · intro y hy
      rcases List.mem_cons.1 hy with rfl | hy
      · exact le_rfl
      · exact hi.le.trans (after y hy)
  · rw [← h.cover a]
    simp only [cover_append, cover_cons, Seg.Has]
    have : (s.lo ≤ a ∧ a < m ∨ m ≤ a ∧ a < s.hi) ↔ (s.lo ≤ a ∧ a < s.hi) := by omega
    rw [← or_assoc (a := s.lo ≤ a ∧ a < m), this]

/-- Glue two segments that touch. -/
theorem join (h : Tiles (pre ++ s :: t :: post) U) (touch : s.hi = t.lo) :
    Tiles (pre ++ ⟨s.lo, t.hi⟩ :: post) U := by
  obtain ⟨hpre, hpost, before, after⟩ := ordered_middle.1 h.ordered
  obtain ⟨properPre, ps, properRest⟩ := proper_middle.1 h.proper
  obtain ⟨pt, properPost⟩ := List.forall_mem_cons.1 properRest
  refine ⟨?_, ?_, fun a => ?_⟩
  · exact proper_middle.2 ⟨properPre, (ps.trans_eq touch).trans pt, properPost⟩
  · refine ordered_middle.2 ⟨hpre, (List.pairwise_cons.1 hpost).2, fun x hx => ?_, ?_⟩
    · exact ⟨(before x hx).1, fun y hy => (before x hx).2 y (by simp [hy])⟩
    · exact fun y hy => (List.pairwise_cons.1 hpost).1 y hy
  · rw [← h.cover a]
    simp only [cover_append, cover_cons, Seg.Has]
    have : (s.lo ≤ a ∧ a < t.hi) ↔ (s.lo ≤ a ∧ a < s.hi ∨ t.lo ≤ a ∧ a < t.hi) := by omega
    rw [this, or_assoc]

/-- Put in a segment apart from the set, at its place in the order. -/
theorem insert (h : Tiles (pre ++ post) U) (proper : r.lo < r.hi) (apart : ∀ a, r.Has a → ¬ U a)
    (below : ∀ x ∈ pre, x.lo < r.lo) (above : ∀ y ∈ post, r.lo ≤ y.lo) :
    Tiles (pre ++ r :: post) (fun a => U a ∨ r.Has a) := by
  obtain ⟨hpre, hpost, cross⟩ := List.pairwise_append.1 h.ordered
  have left : ∀ x ∈ pre, x.hi ≤ r.lo := fun x hx => by
    by_contra overlap
    exact apart r.lo ⟨le_rfl, proper⟩
      ((h.cover _).1 ⟨x, by simp [hx], (below x hx).le, not_le.1 overlap⟩)
  have right : ∀ y ∈ post, r.hi ≤ y.lo := fun y hy => by
    by_contra overlap
    exact apart y.lo ⟨above y hy, not_le.1 overlap⟩
      ((h.cover _).1 ⟨y, by simp [hy], le_rfl, h.proper y (by simp [hy])⟩)
  obtain ⟨properPre, properPost⟩ := List.forall_mem_append.1 h.proper
  refine ⟨?_, ?_, fun a => ?_⟩
  · exact proper_middle.2 ⟨properPre, proper, properPost⟩
  · exact ordered_middle.2 ⟨hpre, hpost, fun x hx => ⟨left x hx, fun y hy => cross x hx y hy⟩, right⟩
  · rw [← h.cover a]
    simp only [cover_append, cover_cons]
    tauto

/-- Consecutive segments are in order. -/
theorem next_le (h : Tiles (pre ++ s :: t :: post) U) : s.hi ≤ t.lo :=
  (ordered_middle.1 h.ordered).2.2.2 t (by simp)

/-- No address between two consecutive segments is covered. -/
theorem between (h : Tiles (pre ++ s :: t :: post) U) {a : Nat} (lo : s.hi ≤ a) (hi : a < t.lo) : ¬ U a := by
  obtain ⟨-, hpost, before, -⟩ := ordered_middle.1 h.ordered
  have ps := h.proper s (by simp)
  rw [← h.cover a]
  rintro ⟨x, hx, has⟩
  simp only [List.mem_append, List.mem_cons] at hx
  rcases hx with hx | rfl | rfl | hx
  · have := (before x hx).1
    have := has.2
    omega
  · exact absurd has.2 (by omega)
  · exact absurd has.1 (by omega)
  · have := (List.pairwise_cons.1 hpost).1 x hx
    have := has.1
    have := h.proper t (by simp)
    omega

/-- **The gap lemma.** Tiles of a union of `n`-aligned regions touch, or leave a gap
with aligned ends. -/
theorem gap {n : Nat} {regions : List Seg} (h : Tiles (pre ++ s :: t :: post) (Cover regions))
    (aligned : ∀ r ∈ regions, n ∣ r.lo ∧ n ∣ r.hi) : s.hi = t.lo ∨ (n ∣ s.hi ∧ n ∣ t.lo) := by
  by_cases touch : s.hi = t.lo
  · exact .inl touch
  right
  have order := h.next_le
  have ps := h.proper s (by simp)
  have pt := h.proper t (by simp)
  obtain ⟨r, hr, has⟩ := (h.cover (s.hi - 1)).1 ⟨s, by simp, by unfold Seg.Has; omega⟩
  obtain ⟨r', hr', has'⟩ := (h.cover t.lo).1 ⟨t, by simp, le_rfl, pt⟩
  have out : ¬ r.Has s.hi := fun hs => h.between le_rfl (by omega) ⟨r, hr, hs⟩
  have out' : ¬ r'.Has (t.lo - 1) := fun hs => h.between (by omega) (by omega) ⟨r', hr', hs⟩
  unfold Seg.Has at *
  have endEq : r.hi = s.hi := by omega
  have startEq : r'.lo = t.lo := by omega
  exact ⟨endEq ▸ (aligned r hr).2, startEq ▸ (aligned r' hr').1⟩

end Tiles

end Lib
