import SimpleKernel.Heap.Isolation

/-!
# Complete coalescing

With one region, `kfree` leaves no two free blocks that touch exactly when the runs of
free blocks of the list it coalesces alternate modulo 16 (`AlternatesFrom`). In a run whose
frees all meet this the list is `Coalesced` throughout, and it is one free block again once
nothing is live.
-/

namespace SimpleKernel.Heap
set_option autoImplicit false
open Lib Pmm

/-- The call grows an empty heap only. -/
def OneRegion (w : World) (c : Call) : Prop := w.regions = [] ∨ grown w.heap c.request = []

/-- The block of the pointer marked free. -/
def markFree (ptr : Nat) (bs : List Block) : List Block := bs.map fun b => if b.addr + 24 = ptr then b.freed else b

/-- In the list that `kfree` of the pointer coalesces, the headers of every run of free
blocks after the first differ from it modulo 16. -/
def Alternates (w : World) (c : Call) : Prop :=
  ∀ ptr, c = .kfree ptr → AlternatesFrom none (markFree ptr (blockList w.heap))

theorem HeapStep.regions_eq {w w' : World} {c : Call} (step : HeapStep w c w') :
    w'.regions = grown w.heap c.request ++ w.regions := by
  have none := grown_zero w.heap
  cases step with
  | kmalloc => rfl
  | kcalloc => rfl
  | kfree => exact (congrArg (· ++ w.regions) none).symm
  | store => exact (congrArg (· ++ w.regions) none).symm

section

variable {avail : Finset Nat} {w w' : World} {c : Call} {bs pre post : List Block} {b : Block}

theorem HeapInv.nil_of_regions (inv : HeapInv avail w bs) (none : w.regions = []) : bs = [] := by
  have span := inv.span
  rw [none] at span
  cases bs with
  | nil => rfl
  | cons b bs =>
    rw [spanSum_cons] at span
    have zero : regionSum [] = 0 := rfl
    omega

theorem OneRegion.keeps (inv : HeapInv avail w bs) (one : OneRegion w c) : KeepsRegion w c := by
  rcases one with none | stay
  · rw [KeepsRegion, inv.well.blockList_eq, inv.nil_of_regions none]
    exact fun _ _ _ run => nomatch run
  · exact keepsRegion_still stay

/-- Only one block has the pointer. -/
theorem HeapInv.markFree_eq (inv : HeapInv avail w (pre ++ b :: post)) :
    markFree (b.addr + 24) (pre ++ b :: post) = pre ++ b.freed :: post := by
  obtain ⟨-, after, before⟩ := List.pairwise_append.1 inv.well.layout.ordered
  have next := (List.pairwise_cons.1 after).1
  have same : ∀ bs : List Block, (∀ c ∈ bs, c.addr ≠ b.addr) → markFree (b.addr + 24) bs = bs := fun bs apart => by
    refine (List.map_congr_left fun c hc => ?_).trans (List.map_id bs)
    rw [if_neg fun eq => apart c hc (by omega)]
    rfl
  have left := same pre fun c hc eq => by
    have := before c hc b List.mem_cons_self
    unfold Block.fin at this
    omega
  have right := same post fun c hc eq => by
    have := next c hc
    unfold Block.fin at this
    omega
  unfold markFree at *
  rw [List.map_append, List.map_cons, left, right, if_pos rfl]

/-! ## What keeps a list coalesced -/

/-- A block handed out separates, and the rest of a free block ends where the block did. -/
theorem coalesced_carve (h : Coalesced (pre ++ b :: post)) (free : b.free = true) (need : Nat) :
    Coalesced (pre ++ carve b need ++ post) := by
  unfold Coalesced at *
  rw [List.isChain_append, List.isChain_cons] at h
  obtain ⟨left, ⟨next, right⟩, -⟩ := h
  have begins : ∀ u : Block, u.free = false → ∀ x ∈ pre.getLast?, ∀ rest : List Block, ∀ y ∈ (u :: rest).head?,
      ¬ (x.free = true ∧ y.free = true ∧ x.fin = y.addr) := fun u used x _ rest y hy h => by
    cases hy
    rw [used] at h
    exact absurd h.2.1 Bool.false_ne_true
  unfold carve
  rw [List.append_assoc, List.isChain_append]
  split
  · refine ⟨left, List.isChain_cons.2 ⟨fun y _ h => absurd h.1 Bool.false_ne_true, right⟩, ?_⟩
    exact fun x hx => begins _ rfl x hx _
  · refine ⟨left, List.isChain_cons.2 ⟨fun y _ h => absurd h.1 Bool.false_ne_true, List.isChain_cons.2 ⟨?_, right⟩⟩, ?_⟩
    · intro y hy h
      refine next y hy ⟨free, h.2.1, ?_⟩
      have touch := h.2.2
      unfold Block.fin at *
      dsimp only at touch
      omega
    · exact fun x hx => begins _ rfl x hx _

/-- One region, nothing handed out, nothing left to join: one free block. -/
theorem Layout.single {r : Seg} (layout : Layout [r] bs) (span : spanSum bs = r.hi - r.lo) (proper : r.lo < r.hi)
    (free : ∀ b ∈ bs, b.free = true) (coalesced : Coalesced bs) : bs = [⟨r.lo, r.hi - r.lo - 24, true⟩] := by
  cases bs with
  | nil =>
    rw [spanSum_nil] at span
    omega
  | cons b bs =>
    cases bs with
    | nil =>
      have head := free b (by simp)
      have first := (layout.tiles.cover b.addr).1 ⟨b.seg, by simp, le_rfl, layout.tiles.proper b.seg (by simp)⟩
      have last := (layout.tiles.cover r.lo).2 ⟨r, by simp, le_rfl, proper⟩
      simp only [List.map_cons, List.map_nil, cover_cons, cover_nil, or_false, Seg.Has, Block.seg_lo] at first last
      rw [spanSum_cons, spanSum_nil] at span
      obtain ⟨addr, size, mark⟩ := b
      dsimp only at *
      rw [List.cons.injEq, Block.mk.injEq]
      exact ⟨⟨by omega, by omega, head⟩, rfl⟩
    | cons c bs =>
      have pair := (List.isChain_cons_cons.1 coalesced).1
      have tiles := layout.tiles
      rw [List.map_cons, List.map_cons] at tiles
      have order := @Tiles.next_le [] _ b.seg c.seg _ tiles
      rw [Block.seg_lo, Block.seg_hi] at order
      by_cases touch : b.fin = c.addr
      · exact absurd ⟨free b (by simp), free c (by simp), touch⟩ pair
      · have gap := @Tiles.between [] _ b.seg c.seg _ tiles b.fin le_rfl (by rw [Block.seg_lo]; omega)
        have first := (layout.tiles.cover b.addr).1 ⟨b.seg, by simp, le_rfl, layout.tiles.proper b.seg (by simp)⟩
        have second := (layout.tiles.cover c.addr).1 ⟨c.seg, by simp, le_rfl, layout.tiles.proper c.seg (by simp)⟩
        simp only [cover_cons, cover_nil, or_false, Seg.Has] at first second gap
        unfold Block.fin at *
        omega

/-! ## Runs -/

/-- The invariant of a run on one region whose frees alternate. -/
structure OneInv (avail : Finset Nat) (w : World) (bs : List Block) : Prop where
  heap : HeapInv avail w bs
  coalesced : Coalesced bs

/-- Coalescing the list with the block marked. -/
theorem HeapInv.coalesced_iff (inv : HeapInv avail w (pre ++ b :: post)) :
    Coalesced (coalesce (pre ++ b.freed :: post)) ↔
    AlternatesFrom none (markFree (b.addr + 24) (blockList w.heap)) := by
  have layout : Layout w.regions (pre ++ b.freed :: post) := inv.well.layout.remark true
  rw [inv.well.blockList_eq, inv.markFree_eq]
  exact Heap.coalesced_iff layout inv.eight.freed

theorem HeapInv.kfree_iff (inv : HeapInv avail w bs) {ptr : Nat} (step : HeapStep w (.kfree ptr) w') :
    Coalesced (blockList w'.heap) ↔ Alternates w (.kfree ptr) := by
  cases step with
  | @kfree x h live run =>
    obtain ⟨b, hb, used, addr, -⟩ := inv.granted x live
    obtain ⟨pre, post, rfl⟩ := List.append_of_mem hb
    obtain ⟨s', run', well, -⟩ := kfree_live inv.well used
    rw [addr, run'] at run
    cases run
    rw [addr, well.blockList_eq, inv.coalesced_iff]
    constructor
    · intro alternates ptr eq
      cases eq
      exact alternates
    · intro alternates
      exact alternates _ rfl

theorem OneInv.step (zero : 0 ∉ avail) (inv : OneInv avail w bs) (one : OneRegion w c) (alternates : Alternates w c)
    (step : HeapStep w c w') : ∃ bs', OneInv avail w' bs' := by
  obtain ⟨bs', heap, change⟩ := inv.heap.step zero (one.keeps inv.heap) step
  have regions := step.regions_eq
  refine ⟨bs', heap, ?_⟩
  generalize eq : w.regions = rs at change
  generalize eq' : w'.regions = rs' at change
  cases change with
  | same => exact inv.coalesced
  | take free => exact coalesced_carve inv.coalesced free _
  | @grow _ _ _ pre post b region pages need _ list free =>
    rcases one with none | stay
    · obtain rfl := inv.heap.nil_of_regions none
      refine coalesced_carve ?_ free need
      rw [← list]
      exact List.isChain_singleton _
    · rw [stay, List.nil_append, eq, eq'] at regions
      exact absurd (congrArg List.length regions) (by simp)
  | free => exact inv.heap.coalesced_iff.2 (alternates _ rfl)

theorem OneInv.run {p : Pmm.State} {boot : Boot} {ok : World → Call → Prop} (one : ∀ w c, ok w c → OneRegion w c)
    (alternates : ∀ w c, ok w c → Alternates w c) {calls : List Call} {w : World}
    (run : ((heapSystem p boot).restrict ok).Run calls w) : ∃ bs, OneInv (freeSet (pmmInit p boot)) w bs := by
  have start : ∀ w, ((heapSystem p boot).restrict ok).Init w → ∃ bs, OneInv (freeSet (pmmInit p boot)) w bs :=
    fun w init => ⟨[], heapInv_start init, List.isChain_nil⟩
  refine run.invariant start fun w c w' inv step => ?_
  obtain ⟨bs, inv⟩ := inv
  exact inv.step (zero_not_free p boot) (one w c step.1) (alternates w c step.1) step.2

/-- Nothing live: the region is one free block. -/
theorem OneInv.single (inv : OneInv avail w bs) (none : w.live = []) {r : Seg} (region : w.regions = [r]) :
    blockList w.heap = [⟨r.lo, r.hi - r.lo - 24, true⟩] := by
  have layout := inv.heap.well.layout
  have span := inv.heap.span
  have total := inv.heap.total
  rw [region] at layout span total
  rw [regionSum_cons, show regionSum [] = 0 from rfl] at span total
  rw [List.length_singleton] at total
  rw [inv.heap.well.blockList_eq]
  refine layout.single span (by omega) (fun b hb => ?_) inv.coalesced
  cases used : b.free with
  | true => rfl
  | false =>
    obtain ⟨x, hx, -⟩ := inv.heap.owned b hb used
    rw [none] at hx
    cases hx

end

/-- **When coalescing is complete.** A `kfree` with one region leaves no two free blocks that
touch exactly when the list it coalesces alternates; when all frees of a run do, no two
free blocks touch at its end, and with nothing live the region is one free block. -/
theorem coalescing_complete (p : Pmm.State) (boot : Boot) (calls : List Call) (w : World) :
    (((heapSystem p boot).restrict OneRegion).Run calls w → ∀ ptr w', HeapStep w (.kfree ptr) w' →
      (Coalesced (blockList w'.heap) ↔ Alternates w (.kfree ptr))) ∧
    (((heapSystem p boot).restrict fun w c => OneRegion w c ∧ Alternates w c).Run calls w →
      Coalesced (blockList w.heap) ∧
      (w.live = [] → ∀ r, w.regions = [r] → blockList w.heap = [⟨r.lo, r.hi - r.lo - 24, true⟩])) := by
  refine ⟨fun run ptr w' step => ?_, fun run => ?_⟩
  · obtain ⟨bs, inv⟩ := heapInv_run (fun _ _ _ inv one => one.keeps inv) run
    exact inv.kfree_iff step
  · obtain ⟨bs, inv⟩ := OneInv.run (fun _ _ ok => ok.1) (fun _ _ ok => ok.2) run
    exact ⟨inv.heap.well.blockList_eq ▸ inv.coalesced, fun none r region => inv.single none region⟩

section

variable {ok : World → Call → Prop} {p : Pmm.State}

/-- The first allocation freed again. -/
theorem reaches_freed (first : ∀ s, HeapInv (freeSet (pmmInit p smallBoot)) ⟨s, [], []⟩ [] →
      ok ⟨s, [], []⟩ (.kmalloc 16))
    (freed : ∀ s, HeapInv (freeSet (pmmInit p smallBoot)) ⟨s, [(0x100018, 16)], [⟨0x100000, 0x101000⟩]⟩
      [⟨0x100000, 16, false⟩, ⟨0x100028, 4032, true⟩] →
      ok ⟨s, [(0x100018, 16)], [⟨0x100000, 0x101000⟩]⟩ (.kfree 0x100018)) :
    Reaches ok p smallBoot [.kmalloc 16, .kfree 0x100018] [] [⟨0x100000, 0x101000⟩] [⟨0x100000, 4072, true⟩] :=
  @Reaches.freed ok p smallBoot _ _ _ [] _ ⟨0x100000, 16, false⟩ (reaches_first fun s inv _ => first s inv) rfl 16
    (by simp) freed

/-- Two allocations freed in order: the first absorbs the second, and the free tail after
them is at the same remainder as the first. -/
theorem reaches_two_free (allowed : ∀ w c, w.regions = [] ∨ grown w.heap c.request = [] → ok w c) :
    Reaches ok p smallBoot [.kmalloc 16, .kmalloc 16, .kfree 0x100018, .kfree 0x100040] [] [⟨0x100000, 0x101000⟩]
      [⟨0x100000, 56, true⟩, ⟨0x100050, 3992, true⟩] := by
  have one : Reaches ok p smallBoot _ _ _ _ := reaches_first fun s _ _ => allowed _ _ (.inl rfl)
  have two := @Reaches.found ok p smallBoot _ _ _ [⟨0x100000, 16, false⟩] [] ⟨0x100028, 4032, true⟩ one 16 (by decide)
    (by decide) rfl (by decide) (by decide) fun s _ stay => allowed _ _ (.inr stay)
  have three := @Reaches.freed ok p smallBoot _ _ _ [] _ ⟨0x100000, 16, false⟩ two rfl 16 (by decide)
    fun s _ => allowed _ _ (.inr (grown_zero s))
  exact @Reaches.freed ok p smallBoot _ _ _ [⟨0x100000, 16, true⟩] _ ⟨0x100028, 16, false⟩ three rfl 16 (by decide)
    fun s _ => allowed _ _ (.inr (grown_zero s))

end

theorem coalescing_complete_freed :
    ∃ w, (∀ ptr w', HeapStep w (.kfree ptr) w' → (Coalesced (blockList w'.heap) ↔ Alternates w (.kfree ptr))) ∧
      (∃ w', HeapStep w (.kfree 0x100018) w') ∧
      ∃ w' : World, Coalesced (blockList w'.heap) ∧ blockList w'.heap = [⟨0x100000, 4072, true⟩] := by
  obtain ⟨s, run, inv⟩ := @reaches_first OneRegion bss fun s _ _ => .inl rfl
  obtain ⟨h, call, -⟩ := @kfree_live _ _ [] _ ⟨0x100000, 16, false⟩ inv.well rfl
  obtain ⟨s', run', -⟩ := @reaches_freed (fun w c => OneRegion w c ∧ Alternates w c) bss
    (fun s _ => ⟨.inl rfl, fun _ eq => nomatch eq⟩) fun s inv => by
      refine ⟨.inr (grown_zero s), fun ptr eq => ?_⟩
      cases eq
      exact (@HeapInv.coalesced_iff _ _ [] _ ⟨0x100000, 16, false⟩ inv).1 (List.isChain_singleton _)
  obtain ⟨coalesced, single⟩ := (coalescing_complete bss smallBoot _ _).2 run'
  have step : HeapStep ⟨s, _, _⟩ (.kfree 0x100018) _ := @HeapStep.kfree _ (0x100018, 16) h List.mem_cons_self call
  exact ⟨_, (coalescing_complete bss smallBoot _ _).1 run, ⟨_, step⟩, _, coalesced, single rfl _ rfl⟩

/-- Everything freed, and yet two blocks that touch. -/
theorem two_free_blocks_left : ∃ w, ((heapSystem bss smallBoot).restrict OneRegion).Run
      [.kmalloc 16, .kmalloc 16, .kfree 0x100018, .kfree 0x100040] w ∧ w.live = [] ∧
    blockList w.heap = [⟨0x100000, 56, true⟩, ⟨0x100050, 3992, true⟩] ∧ ¬ Coalesced (blockList w.heap) := by
  obtain ⟨s, run, inv⟩ := @reaches_two_free OneRegion bss fun _ _ one => one
  have list := inv.well.blockList_eq
  refine ⟨_, run, rfl, list, fun coalesced => ?_⟩
  dsimp only at list coalesced
  rw [list] at coalesced
  exact (List.isChain_cons_cons.1 coalesced).1 (by decide)

end SimpleKernel.Heap
