import SimpleKernel.Heap.Alignment
import SimpleKernel.Pmm.FrameZero

/-!
# First fit over two allocators

`kmalloc` rounds a size to 16 bytes and `heap_expand` rounds it with a header to frames;
`framesFor` is the number of frames without the wrap. A request that the list does not serve
comes down to the frame allocator, and that one tells a run at frame `0` from none in nothing
but its bitmap: `kmalloc_exact_iff` says when a request is exact, for any heap on top of any
state of the frame allocator that holds its regions.
-/

namespace SimpleKernel.Heap
set_option autoImplicit false
open Lib Pmm

/-- The size rounded up to `HEAP_ALIGNMENT`. -/
def rounded (size : Nat) : Nat := (size + 15) / 16 * 16

/-- The frames that hold a block of that size with its header. -/
def framesFor (size : Nat) : Nat := (rounded size + sizeofHeapBlock + 4095) / 4096

/-- A run of frames for the request is free. -/
def RunFree (q : Pmm.State) (size start : Nat) : Prop :=
  start + framesFor size ≤ frameLimit ∧ FreeRun q (framesFor size) start

/-- The block is free and large enough. -/
def Fits (size : Nat) (b : Block) : Prop := b.free = true ∧ rounded size ≤ b.size

instance (size : Nat) (b : Block) : Decidable (Fits size b) := inferInstanceAs (Decidable (_ ∧ _))

/-- The frames of the regions are allocated. -/
def Held (regions : List Seg) (q : Pmm.State) : Prop := ∀ a, Cover regions a → bitTest q (a / 4096) = true

/-- Neither allocator has changed. -/
structure Unchanged (s s' : Machine) : Prop where
  list : blockList s' = blockList s
  used : s'.usedBytes = s.usedBytes
  total : s'.totalBytes = s.totalBytes
  bitmap : s'.pmm.frameBitmap = s.pmm.frameBitmap
  free : s'.pmm.freeFrames = s.pmm.freeFrames

/-- `kmalloc` takes the lowest block that fits, whatever the frame allocator is and without a
change to it, and fails only where no run of frames is free, with nothing changed. -/
structure KmallocExact (s : Machine) (bs : List Block) (size : Nat) : Prop where
  served : (∃ b ∈ bs, Fits size b) → ∃ b ∈ bs, Fits size b ∧ (∀ c ∈ bs, Fits size c → b.addr ≤ c.addr) ∧
    ∃ s' : Machine, ∀ q, kmalloc { s with pmm := q } size = some (b.addr + 24, { s' with pmm := q })
  expanded : (¬ ∃ b ∈ bs, Fits size b) → ∃ ptr s', kmalloc s size = some (ptr, s') ∧
    (ptr = 0 ↔ ∀ start, ¬ RunFree s.pmm size start) ∧ (ptr = 0 → Unchanged s s')

section

variable {s : Machine} {regions : List Seg} {bs : List Block} {b : Block} {size : Nat}

theorem alignUp_rounded (small : size ≤ 2 ^ 30) : alignUp size = rounded size := alignUp_of_lt (by omega)

theorem expandPages_framesFor (small : size ≤ 2 ^ 30) : expandPages (alignUp size) = framesFor size := by
  have round : rounded size % 16 = 0 ∧ rounded size ≤ 2 ^ 30 := by
    unfold rounded
    omega
  rw [alignUp_rounded small, framesFor, expandPages, sizeofHeapBlock_eq, heapPageSize_eq]
  generalize rounded size = need at *
  rw [u64_of_lt (n := need + 24) (by omega), alignUp_of_lt (by omega), u64_of_lt (by omega)]
  omega

theorem fits_iff (small : size ≤ 2 ^ 30) : fits (alignUp size) b = true ↔ Fits size b := by
  rw [fits, Bool.and_eq_true, decide_eq_true_eq, alignUp_rounded small, Fits]

theorem find_none_iff (small : size ≤ 2 ^ 30) : bs.find? (fits (alignUp size)) = none ↔ ¬ ∃ b ∈ bs, Fits size b := by
  rw [List.find?_eq_none]
  push Not
  exact forall₂_congr fun b _ => not_congr (fits_iff small)

/-! ## Served from the list -/

/-- A request that finds a block makes no call of the frame allocator. -/
theorem kmalloc_any_frames {ptr : Nat} {s' : Machine}
    (found : findFree s.mem (alignUp size) walkFuel s.heapHead ≠ some 0)
    (run : kmalloc s size = some (ptr, s')) (q : Pmm.State) :
    kmalloc { s with pmm := q } size = some (ptr, { s' with pmm := q }) := by
  by_cases nothing : size = 0
  · rw [kmalloc, if_pos nothing] at run ⊢
    cases run
    rfl
  · rw [kmalloc, if_neg nothing] at run ⊢
    dsimp only at run ⊢
    cases search : findFree s.mem (alignUp size) walkFuel s.heapHead with
    | none =>
      rw [search] at run
      cases run
    | some block =>
      have nonzero : block ≠ 0 := fun zero => found (by rw [search, zero])
      rw [search] at run
      dsimp only at run ⊢
      rw [if_pos nonzero] at run ⊢
      cases run
      rfl

/-- The first block that fits is the lowest. -/
theorem kmalloc_lowest (h : WellFormed s regions bs) (nonzero : size ≠ 0) (small : size ≤ 2 ^ 30)
    (some' : ∃ b ∈ bs, Fits size b) : ∃ b ∈ bs, Fits size b ∧ (∀ c ∈ bs, Fits size c → b.addr ≤ c.addr) ∧
      ∃ s' : Machine, ∀ q, kmalloc { s with pmm := q } size = some (b.addr + 24, { s' with pmm := q }) := by
  obtain ⟨b, found⟩ := Option.ne_none_iff_exists'.1 (mt (find_none_iff small).1 (not_not.2 some'))
  obtain ⟨pre, post, rfl, free, fit, before⟩ := find_split found
  obtain ⟨s', run, -⟩ := kmalloc_found h nonzero free fit before
  have search := h.findFree (alignUp size)
  have pos := h.layout.addr_pos (b := b) (by simp)
  rw [found] at search
  have listed : findFree s.mem (alignUp size) walkFuel s.heapHead ≠ some 0 := by
    rw [search]
    simp only [Option.map_some, Option.getD_some, ne_eq, Option.some.injEq]
    omega
  refine ⟨b, by simp, ⟨free, alignUp_rounded small ▸ fit⟩, fun c hc hit => ?_, s', kmalloc_any_frames listed run⟩
  simp only [List.mem_append, List.mem_cons] at hc
  rcases hc with early | rfl | late
  · have miss := before c early
    rw [(fits_iff small).2 hit] at miss
    cases miss
  · exact Nat.le_refl _
  · have ordered := (List.pairwise_append.1 h.layout.ordered).2.1
    have after := (List.pairwise_cons.1 ordered).1 c late
    unfold Block.fin at after
    omega

/-! ## Growing -/

/-- The frames of the heap, for a frame allocator that holds them. -/
theorem Held.frames (held : Held regions s.pmm) (pages : Pages regions) : ∃ avail, Frames avail s.pmm regions := by
  classical
  refine ⟨(Finset.range pmmMaxFrames).filter fun f => f ∈ freeSet s.pmm ∨ Cover regions (f * 4096), pages, fun f => ?_,
    fun a cover => ?_⟩
  · rw [Finset.mem_filter, Finset.mem_range]
    constructor
    · intro free
      refine ⟨⟨(mem_freeSet.1 free).1, .inl free⟩, fun cover => ?_⟩
      have used := held _ cover
      rw [Nat.mul_div_cancel f (by decide), (mem_freeSet.1 free).2] at used
      cases used
    · intro h
      exact h.1.2.resolve_right h.2
  · have bound := pages.cover_lt cover
    rw [Finset.mem_filter, Finset.mem_range, pmmMaxFrames_eq, pages.cover_page]
    exact ⟨by omega, .inr cover⟩

/-- What `kmalloc` returns when it has to grow the heap. -/
theorem kmalloc_grow (h : WellFormed s regions bs) (held : Held regions s.pmm) (nonzero : size ≠ 0)
    (missing : bs.find? (fits (alignUp size)) = none) :
    ((pmmAllocFrames s.pmm (expandPages (alignUp size))).1 = 0 ∧
        kmalloc s size = some (0, { s with pmm := (pmmAllocFrames s.pmm (expandPages (alignUp size))).2 })) ∨
      ((pmmAllocFrames s.pmm (expandPages (alignUp size))).1 ≠ 0 ∧
        ∃ ptr s', ptr ≠ 0 ∧ kmalloc s size = some (ptr, s')) := by
  have search := h.missing missing
  have call := kmalloc_expand nonzero search
  by_cases failed : (pmmAllocFrames s.pmm (expandPages (alignUp size))).1 = 0
  · rw [heapExpand_failed failed] at call
    exact .inl ⟨failed, call.trans (if_pos rfl)⟩
  · obtain ⟨avail, frames⟩ := held.frames h.layout.pages
    obtain ⟨region, -, s', -, run, -⟩ := kmalloc_region h.toRepresents frames nonzero search failed
    exact .inr ⟨failed, region + 24, s', Nat.succ_ne_zero _, run⟩

/-- Without a fitting block: exact unless the run that would be taken is the one at frame `0`. -/
theorem kmalloc_expanded_iff (h : WellFormed s regions bs) (held : Held regions s.pmm) (nonzero : size ≠ 0)
    (small : size ≤ 2 ^ 30) (missing : ¬ ∃ b ∈ bs, Fits size b) :
    (∃ ptr s', kmalloc s size = some (ptr, s') ∧ (ptr = 0 ↔ ∀ start, ¬ RunFree s.pmm size start) ∧
      (ptr = 0 → Unchanged s s')) ↔ ¬ RunFree s.pmm size 0 := by
  have grow := kmalloc_grow h held nonzero ((find_none_iff small).2 missing)
  rw [expandPages_framesFor small] at grow
  have positive : 0 < framesFor size := by
    unfold framesFor rounded
    rw [sizeofHeapBlock_eq]
    omega
  rcases pmmAllocFrames_cases s.pmm (framesFor size) with ⟨eq, none⟩ | ⟨start, -, first, eq⟩
  · -- there is no run, so nothing is at frame `0` either
    have noRun : ∀ start, ¬ RunFree s.pmm size start := fun start free =>
      none.elim (Nat.ne_of_gt positive) fun none => none start free.1 free.2
    rw [eq] at grow
    obtain ⟨-, call⟩ := grow.resolve_right fun granted => granted.1 rfl
    exact iff_of_true ⟨0, s, call, iff_of_true rfl noRun, fun _ => ⟨rfl, rfl, rfl, rfl, rfl⟩⟩ (noRun 0)
  · have free : RunFree s.pmm size start := ⟨first.upper, first.free⟩
    rw [eq] at grow
    by_cases zero : start = 0
    · subst zero
      obtain ⟨-, call⟩ := grow.resolve_right fun granted => granted.1 rfl
      refine iff_of_false (fun exact' => ?_) (not_not.2 free)
      obtain ⟨ptr, s', call', null, -⟩ := exact'
      rw [call] at call'
      cases call'
      exact null.1 rfl 0 free
    · obtain ⟨-, ptr, s', some', call⟩ := grow.resolve_left fun failed => by
        have := failed.1
        dsimp only at this
        omega
      refine iff_of_true ⟨ptr, s', call, iff_of_false some' fun none => none start free,
        fun null => absurd null some'⟩ ?_
      exact fun low => first.first 0 (Nat.le_refl 0) (Nat.pos_of_ne_zero zero) low.2

end

/-- **When a request is exact.** -/
theorem kmalloc_exact_iff (s : Machine) (regions : List Seg) (bs : List Block) (h : WellFormed s regions bs)
    (held : Held regions s.pmm) (size : Nat) (nonzero : size ≠ 0) (small : size ≤ 2 ^ 30) :
    KmallocExact s bs size ↔ (∃ b ∈ bs, Fits size b) ∨ ¬ RunFree s.pmm size 0 := by
  have grow := kmalloc_expanded_iff h held nonzero small
  constructor
  · intro exact'
    by_cases missing : ∃ b ∈ bs, Fits size b
    · exact .inl missing
    · exact .inr ((grow missing).1 (exact'.expanded missing))
  · intro cond
    refine ⟨kmalloc_lowest h nonzero small, fun missing => (grow missing).2 (cond.resolve_left missing)⟩

/-- A page of heap on top of a frame allocator with nothing left: a request of 64 bytes is served,
one of 5000 refused. -/
theorem kmalloc_exact_page : KmallocExact { pageHeap with pmm := allUsed bss } [⟨0x100000, 4072, true⟩] 64 ∧
    KmallocExact { pageHeap with pmm := allUsed bss } [⟨0x100000, 4072, true⟩] 5000 := by
  have well : WellFormed { pageHeap with pmm := allUsed bss } [⟨0x100000, 0x101000⟩] [⟨0x100000, 4072, true⟩] :=
    ⟨⟨pageHeap_wellFormed.links, pageHeap_wellFormed.layout⟩, pageHeap_wellFormed.used⟩
  have held : Held [⟨0x100000, 0x101000⟩] (allUsed bss) := by
    intro a cover
    have bound := well.layout.pages.cover_lt cover
    apply bitTest_allUsed
    rw [pmmMaxFrames_eq]
    omega
  constructor
  · exact (kmalloc_exact_iff _ _ _ well held 64 (by decide) (by decide)).2
      (.inl ⟨_, List.mem_singleton_self _, by decide⟩)
  · refine (kmalloc_exact_iff _ _ _ well held 5000 (by decide) (by decide)).2 (.inr fun free => ?_)
    have clear := free.2 0 (by decide)
    rw [bitTest_allUsed bss (by decide)] at clear
    cases clear

/-- A fresh heap after a free of address `0x800`: the request takes frame `0` and returns the null pointer. -/
theorem kmalloc_at_frame_zero : ∃ q, (anyUse bss unitTestBoot).Run [.free 0x800 1] q ∧ ∀ s : Machine,
    WellFormed { heapInit s with pmm := q } [] [] ∧ ¬ KmallocExact { heapInit s with pmm := q } [] 64 := by
  obtain ⟨q, run, zero⟩ := first_page_clear
  refine ⟨q, run, fun s => ?_⟩
  have well : WellFormed { heapInit s with pmm := q } [] [] := ⟨represents_empty rfl, rfl⟩
  refine ⟨well, fun exact' => ?_⟩
  have held : Held [] q := fun a cover => absurd cover (by simp)
  have one : framesFor 64 = 1 := by decide
  rcases (kmalloc_exact_iff _ _ _ well held 64 (by decide) (by decide)).1 exact' with listed | used
  · simp at listed
  · refine used ⟨by decide, fun i below => ?_⟩
    rw [one] at below
    rw [show 0 + i = 0 by omega]
    exact (mem_freeSet.1 zero).2

end SimpleKernel.Heap
