import SimpleKernel.Heap.Model
import SimpleKernel.Lib.Tiling

/-!
# The block list

The heap as a list of blocks in address order, away from memory: what coalescing,
splitting and inserting do to the list, and what they keep. A block spans its header
and its payload; the spans tile the regions that the heap has got. `heap_coalesce` tests
adjacency against a rounded size, yet it joins touching blocks only
(`merges_coalesceFrom`): the test can go wrong by less than 16 bytes, and two blocks that do
not touch are whole pages apart.
-/

namespace SimpleKernel.Heap
set_option autoImplicit false
open Lib

structure Block where
  addr : Nat
  size : Nat
  free : Bool
  deriving DecidableEq, Repr

/-- The end of the payload. -/
def Block.fin (b : Block) : Nat := b.addr + 24 + b.size

/-- Header and payload. -/
def Block.seg (b : Block) : Seg := ⟨b.addr, b.fin⟩

@[simp] theorem Block.seg_lo (b : Block) : b.seg.lo = b.addr := rfl
@[simp] theorem Block.seg_hi (b : Block) : b.seg.hi = b.fin := rfl

/-- The test of `heap_coalesce`. -/
def absorbs (b c : Block) : Prop := b.free = true ∧ c.free = true ∧ b.addr + 24 + alignUp b.size = c.addr

instance (b c : Block) : Decidable (absorbs b c) := inferInstanceAs (Decidable (_ ∧ _ ∧ _))

def merge (b c : Block) : Block := ⟨b.addr, b.size + (24 + c.size), b.free⟩

/-- `heap_coalesce` from the block `g` on. -/
def coalesceFrom (g : Block) : List Block → List Block
  | [] => [g]
  | c :: cs => if absorbs g c then coalesceFrom (merge g c) cs else g :: coalesceFrom c cs

def coalesce : List Block → List Block
  | [] => []
  | g :: cs => coalesceFrom g cs

/-- A free block handed out for `need` bytes: whole, or with the rest split off. -/
def carve (b : Block) (need : Nat) : List Block :=
  if b.size < need + 24 + 32 then [⟨b.addr, b.size, false⟩]
  else [⟨b.addr, need, false⟩, ⟨b.addr + 24 + need, b.size - need - 24, true⟩]

/-- A block put in at its place in the order. -/
def insertBlock (b : Block) (bs : List Block) : List Block :=
  bs.filter (fun x => decide (x.addr < b.addr)) ++ b :: bs.filter fun x => decide (b.addr ≤ x.addr)

theorem filters_eq {target : Nat} {pre post : List Block} (below : ∀ x ∈ pre, x.addr < target)
    (above : ∀ y ∈ post, target ≤ y.addr) :
    (pre ++ post).filter (fun x => decide (x.addr < target)) = pre ∧
      (pre ++ post).filter (fun x => decide (target ≤ x.addr)) = post := by
  have preBelow : pre.filter (fun x => decide (x.addr < target)) = pre :=
    List.filter_eq_self.2 fun x hx => decide_eq_true (below x hx)
  have preAbove : pre.filter (fun x => decide (target ≤ x.addr)) = [] :=
    List.filter_eq_nil_iff.2 fun x hx => by have := below x hx; simpa using this
  have postBelow : post.filter (fun x => decide (x.addr < target)) = [] :=
    List.filter_eq_nil_iff.2 fun x hx => by have := above x hx; simpa using this
  have postAbove : post.filter (fun x => decide (target ≤ x.addr)) = post :=
    List.filter_eq_self.2 fun x hx => decide_eq_true (above x hx)
  rw [List.filter_append, List.filter_append, preBelow, preAbove, postBelow, postAbove]
  exact ⟨List.append_nil _, List.nil_append _⟩

theorem insertBlock_eq {b : Block} {pre post : List Block} (below : ∀ x ∈ pre, x.addr < b.addr)
    (above : ∀ y ∈ post, b.addr ≤ y.addr) : insertBlock b (pre ++ post) = pre ++ b :: post := by
  obtain ⟨low, high⟩ := filters_eq below above
  rw [insertBlock, low, high]

/-- Where a block goes in an ordered list. -/
theorem exists_place {bs : List Block} (ordered : bs.Pairwise fun b c => b.fin ≤ c.addr) (target : Nat) :
    ∃ pre post, bs = pre ++ post ∧ (∀ x ∈ pre, x.addr < target) ∧ ∀ y ∈ post, target ≤ y.addr := by
  induction bs with
  | nil => exact ⟨[], [], rfl, by simp, by simp⟩
  | cons b bs ih =>
    obtain ⟨next, ordered⟩ := List.pairwise_cons.1 ordered
    by_cases below : b.addr < target
    · obtain ⟨pre, post, rfl, hpre, hpost⟩ := ih ordered
      exact ⟨b :: pre, post, rfl, List.forall_mem_cons.2 ⟨below, hpre⟩, hpost⟩
    · refine ⟨[], b :: bs, rfl, by simp, List.forall_mem_cons.2 ⟨by omega, fun y hy => ?_⟩⟩
      have := next y hy
      unfold Block.fin at this
      omega

/-- The sizes of the blocks handed out. -/
def usedSum (bs : List Block) : Nat := (bs.map fun b => if b.free then 0 else b.size).sum

@[simp] theorem usedSum_nil : usedSum [] = 0 := rfl

@[simp] theorem usedSum_cons (b : Block) (bs : List Block) :
    usedSum (b :: bs) = (if b.free then 0 else b.size) + usedSum bs := rfl

@[simp] theorem usedSum_append (xs ys : List Block) : usedSum (xs ++ ys) = usedSum xs + usedSum ys := by
  simp [usedSum]

/-- The bytes of the blocks, headers included. -/
def spanSum (bs : List Block) : Nat := (bs.map fun b => 24 + b.size).sum

@[simp] theorem spanSum_nil : spanSum [] = 0 := rfl

@[simp] theorem spanSum_cons (b : Block) (bs : List Block) : spanSum (b :: bs) = 24 + b.size + spanSum bs := rfl

@[simp] theorem spanSum_append (xs ys : List Block) : spanSum (xs ++ ys) = spanSum xs + spanSum ys := by
  simp [spanSum]

theorem spanSum_carve (b : Block) (need : Nat) : spanSum (carve b need) = 24 + b.size := by
  unfold carve
  split
  · rfl
  · simp only [spanSum_cons, spanSum_nil]
    omega

/-- Every block has a header beside its size. -/
theorem usedSum_length_le (bs : List Block) : usedSum bs + 24 * bs.length ≤ spanSum bs := by
  induction bs with
  | nil => exact le_rfl
  | cons b bs ih =>
    rw [usedSum_cons, spanSum_cons, List.length_cons]
    split <;> omega

/-- Regions that the frame allocator can have returned. -/
structure Pages (regions : List Seg) : Prop where
  aligned : ∀ r ∈ regions, 4096 ∣ r.lo ∧ 4096 ∣ r.hi
  positive : ∀ r ∈ regions, 0 < r.lo
  bound : ∀ r ∈ regions, r.hi ≤ 2 ^ 30

/-- The blocks tile the regions. -/
structure Layout (regions : List Seg) (bs : List Block) : Prop where
  pages : Pages regions
  tiles : Tiles (bs.map Block.seg) (Cover regions)

namespace Layout

variable {regions : List Seg} {bs pre post : List Block} {b c : Block}

theorem ordered (h : Layout regions bs) : bs.Pairwise fun b c => b.fin ≤ c.addr :=
  List.pairwise_map.1 h.tiles.ordered

theorem addr_pos (h : Layout regions bs) (member : b ∈ bs) : 0 < b.addr := by
  have covered : Cover (bs.map Block.seg) b.addr :=
    ⟨b.seg, List.mem_map_of_mem member, le_rfl, h.tiles.proper b.seg (List.mem_map_of_mem member)⟩
  obtain ⟨r, hr, has⟩ := (h.tiles.cover b.addr).1 covered
  have := h.pages.positive r hr
  have := has.1
  omega

theorem fin_le (h : Layout regions bs) (member : b ∈ bs) : b.fin ≤ 2 ^ 30 := by
  have proper := h.tiles.proper b.seg (List.mem_map_of_mem member)
  rw [Block.seg_lo, Block.seg_hi] at proper
  have covered : Cover (bs.map Block.seg) (b.fin - 1) :=
    ⟨b.seg, List.mem_map_of_mem member, by rw [Block.seg_lo]; omega, by rw [Block.seg_hi]; omega⟩
  obtain ⟨r, hr, has⟩ := (h.tiles.cover _).1 covered
  have := h.pages.bound r hr
  have := has.2
  omega

/-- Two members are the same or apart. -/
theorem apart (h : Layout regions bs) (hb : b ∈ bs) (hc : c ∈ bs) (ne : b ≠ c) :
    b.fin ≤ c.addr ∨ c.fin ≤ b.addr := by
  refine List.Pairwise.forall_of_forall_of_flip (R := fun b c => b ≠ c → b.fin ≤ c.addr ∨ c.fin ≤ b.addr)
    (fun _ _ ne => absurd rfl ne) (h.ordered.imp fun le _ => .inl le) (h.ordered.imp fun le _ => .inr le) hb hc ne

theorem spanSum_le (h : Layout regions bs) : spanSum bs ≤ 2 ^ 30 := by
  have sums : ∀ (bs : List Block) (lo : Nat), bs.Pairwise (fun b c => b.fin ≤ c.addr) →
      (∀ b ∈ bs, lo ≤ b.addr ∧ b.fin ≤ 2 ^ 30) → spanSum bs ≤ 2 ^ 30 - lo := by
    intro bs
    induction bs with
    | nil => exact fun lo _ _ => Nat.zero_le _
    | cons b bs ih =>
      intro lo ordered bounds
      obtain ⟨next, ordered⟩ := List.pairwise_cons.1 ordered
      have first := bounds b List.mem_cons_self
      have rest := ih b.fin ordered fun c hc => ⟨next c hc, (bounds c (List.mem_cons_of_mem _ hc)).2⟩
      rw [spanSum_cons]
      unfold Block.fin at *
      omega
  exact sums bs 0 h.ordered fun b hb => ⟨Nat.zero_le _, h.fin_le hb⟩

/-- There are fewer blocks than addresses. -/
theorem length_lt (h : Layout regions bs) : bs.length < walkFuel := by
  have span := h.spanSum_le
  have sums := usedSum_length_le bs
  rw [walkFuel_eq]
  omega

theorem usedSum_le (h : Layout regions bs) : usedSum bs ≤ 2 ^ 30 := by
  have span := h.spanSum_le
  have sums := usedSum_length_le bs
  omega

theorem eq_of_addr (h : Layout regions bs) (hb : b ∈ bs) (hc : c ∈ bs) (same : b.addr = c.addr) : b = c := by
  by_contra ne
  have apart := h.apart hb hc ne
  unfold Block.fin at apart
  omega

/-- Two consecutive blocks touch or are pages apart. -/
theorem gap (h : Layout regions (pre ++ b :: c :: post)) :
    b.fin = c.addr ∨ (4096 ∣ b.fin ∧ 4096 ∣ c.addr) := by
  have tiles := h.tiles
  rw [List.map_append, List.map_cons, List.map_cons] at tiles
  exact tiles.gap h.pages.aligned

/-- The rounded test of `heap_coalesce` never passes across a gap. -/
theorem touch_of_absorbs (h : Layout regions (pre ++ b :: c :: post)) (test : absorbs b c) : b.fin = c.addr := by
  have bound : b.fin ≤ 2 ^ 30 := h.fin_le (by simp)
  obtain ⟨-, -, eq⟩ := test
  rcases h.gap with touch | ⟨hb, hc⟩
  · exact touch
  · unfold Block.fin at *
    rw [alignUp_of_lt (by omega)] at eq
    omega

/-- On touching free blocks the test passes exactly when the size is a multiple of 16. -/
theorem absorbs_iff (h : Layout regions (pre ++ b :: c :: post)) :
    absorbs b c ↔ b.free = true ∧ c.free = true ∧ b.fin = c.addr ∧ b.size % 16 = 0 := by
  have bound : b.fin ≤ 2 ^ 30 := h.fin_le (by simp)
  have touch := h.touch_of_absorbs
  unfold absorbs at *
  unfold Block.fin at *
  rw [alignUp_of_lt (by omega)] at *
  constructor
  · intro test
    have := touch test
    exact ⟨test.1, test.2.1, this, by omega⟩
  · intro test
    exact ⟨test.1, test.2.1, by omega⟩

theorem merged (h : Layout regions (pre ++ b :: c :: post)) (touch : b.fin = c.addr) :
    Layout regions (pre ++ merge b c :: post) := by
  have tiles := h.tiles
  rw [List.map_append, List.map_cons, List.map_cons] at tiles
  have joined := tiles.join touch
  refine ⟨h.pages, ?_⟩
  rw [List.map_append, List.map_cons]
  have seg : (merge b c).seg = ⟨b.addr, c.fin⟩ := by
    unfold Block.seg merge Block.fin at *
    simp only [Seg.mk.injEq, true_and]
    omega
  rw [seg]
  exact joined

/-- The marks do not matter. -/
theorem remark (h : Layout regions (pre ++ b :: post)) (free : Bool) :
    Layout regions (pre ++ { b with free } :: post) := by
  refine ⟨h.pages, ?_⟩
  have tiles := h.tiles
  rw [List.map_append, List.map_cons] at tiles ⊢
  exact tiles

theorem carved (h : Layout regions (pre ++ b :: post)) (need : Nat) :
    Layout regions (pre ++ carve b need ++ post) := by
  unfold carve
  split
  · rw [List.append_assoc]
    exact h.remark false
  · have tiles := h.tiles
    rw [List.map_append, List.map_cons] at tiles
    refine ⟨h.pages, ?_⟩
    have cut := tiles.split (m := b.addr + 24 + need) (by rw [Block.seg_lo]; omega)
      (by rw [Block.seg_hi, Block.fin]; omega)
    have rest : (⟨b.addr + 24 + need, b.size - need - 24, true⟩ : Block).seg = ⟨b.addr + 24 + need, b.fin⟩ := by
      unfold Block.seg Block.fin
      simp only [Seg.mk.injEq, true_and]
      omega
    rw [List.append_assoc, List.map_append, List.map_append, List.map_cons, List.map_singleton, rest]
    exact cut

/-- A new region put in as one block, at its place in the order. -/
theorem inserted (h : Layout regions (pre ++ post)) {r : Seg} (pages : Pages (r :: regions)) (whole : b.seg = r)
    (apart : ∀ a, r.Has a → ¬ Cover regions a) (below : ∀ x ∈ pre, x.addr < b.addr)
    (above : ∀ y ∈ post, b.addr ≤ y.addr) : Layout (r :: regions) (pre ++ b :: post) := by
  have tiles := h.tiles
  rw [List.map_append] at tiles
  refine ⟨pages, ?_⟩
  rw [List.map_append, List.map_cons, whole]
  have lo : r.lo = b.addr := congrArg Seg.lo whole.symm
  have hi : r.hi = b.fin := congrArg Seg.hi whole.symm
  have put := tiles.insert (r := r) (by rw [lo, hi, Block.fin]; omega) apart ?_ ?_
  · exact put.congr fun a => by rw [cover_cons]; exact or_comm
  · intro x hx
    obtain ⟨y, hy, rfl⟩ := List.mem_map.1 hx
    rw [lo]
    exact below y hy
  · intro x hx
    obtain ⟨y, hy, rfl⟩ := List.mem_map.1 hx
    rw [lo]
    exact above y hy

end Layout

/-! ## Merging -/

/-- The lists reached by joining touching free blocks. -/
inductive Merges : List Block → List Block → Prop
  | refl (bs : List Block) : Merges bs bs
  | step {bs pre post : List Block} {b c : Block} : Merges bs (pre ++ b :: c :: post) → b.free = true →
      c.free = true → b.fin = c.addr → Merges bs (pre ++ merge b c :: post)

theorem Merges.trans {as bs cs : List Block} (h : Merges as bs) (h' : Merges bs cs) : Merges as cs := by
  induction h' with
  | refl => exact h
  | step _ hb hc touch ih => exact ih.step hb hc touch

section

variable {bs bs' : List Block} {b : Block}

theorem Merges.layout {regions : List Seg} (h : Merges bs bs') (layout : Layout regions bs) : Layout regions bs' := by
  induction h with
  | refl => exact layout
  | step _ _ _ touch ih => exact ih.merged touch

/-- Blocks that are handed out stay as they are. -/
theorem Merges.used_iff (h : Merges bs bs') (used : b.free = false) : b ∈ bs' ↔ b ∈ bs := by
  induction h with
  | refl => rfl
  | @step pre post x y _ hx hy touch ih =>
    rw [← ih]
    have nx : b ≠ x := fun eq => by rw [eq, hx] at used; cases used
    have ny : b ≠ y := fun eq => by rw [eq, hy] at used; cases used
    have nm : b ≠ merge x y := fun eq => by rw [eq, merge, hx] at used; cases used
    simp only [List.mem_append, List.mem_cons, nx, ny, nm, false_or]

theorem Merges.spanSum_eq (h : Merges bs bs') : spanSum bs' = spanSum bs := by
  induction h with
  | refl => rfl
  | step _ _ _ _ ih =>
    rw [← ih]
    simp only [spanSum_append, spanSum_cons, merge]
    omega

theorem Merges.usedSum_eq (h : Merges bs bs') : usedSum bs' = usedSum bs := by
  induction h with
  | refl => rfl
  | step _ hb hc _ ih =>
    rw [← ih]
    simp [merge, hb, hc]

/-- Headers only disappear. -/
theorem Merges.addr_mem (h : Merges bs bs') (member : b ∈ bs') : ∃ b' ∈ bs, b'.addr = b.addr ∧ b'.free = b.free := by
  induction h generalizing b with
  | refl => exact ⟨b, member, rfl, rfl⟩
  | @step pre post x y _ _ _ _ ih =>
    simp only [List.mem_append, List.mem_cons] at member
    rcases member with old | rfl | old
    · exact ih (by simp [old])
    · exact ih (b := x) (by simp)
    · exact ih (by simp [old])

end

/-- **Coalescing joins touching free blocks and nothing else.** -/
theorem merges_coalesceFrom {regions : List Seg} {pre cs : List Block} {g : Block}
    (layout : Layout regions (pre ++ g :: cs)) : Merges (pre ++ g :: cs) (pre ++ coalesceFrom g cs) := by
  induction cs generalizing pre g with
  | nil => exact .refl _
  | cons c cs ih =>
    unfold coalesceFrom
    by_cases test : absorbs g c
    · rw [if_pos test]
      have touch := layout.touch_of_absorbs test
      have step := (Merges.refl (pre ++ g :: c :: cs)).step test.1 test.2.1 touch
      exact step.trans (ih (layout.merged touch))
    · rw [if_neg test]
      have rest := @ih (pre ++ [g]) c (by simpa using layout)
      simpa using rest

theorem merges_coalesce {regions : List Seg} {bs : List Block} (layout : Layout regions bs) :
    Merges bs (coalesce bs) := by
  cases bs with
  | nil => exact .refl _
  | cons g cs => exact @merges_coalesceFrom _ [] _ _ layout

end SimpleKernel.Heap
