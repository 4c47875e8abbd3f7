import SimpleKernel.Heap.Requests
import SimpleKernel.Heap.Accounting

/-!
# A heap at rest

Nothing is live and every region is one free block. Such a block fills whole pages, so its size is 8 modulo 16 and
`heap_coalesce` joins it with nothing; what `heap_split_block` cuts off it is joined again when the block comes back. A
request that is given back before the next one leaves the list as it was, or one region longer (`AtRest.request`).
-/

namespace SimpleKernel.Heap
set_option autoImplicit false
open Lib Pmm

/-- A free block of whole pages. -/
structure WholePages (b : Block) : Prop where
  free : b.free = true
  lo : 4096 ∣ b.addr
  hi : 4096 ∣ b.fin
  bound : b.fin ≤ 2 ^ 30

/-- Nothing is live, and every region is a block. -/
structure AtRest (avail : Finset Nat) (s : Machine) (bs : List Block) : Prop where
  inv : ∃ regions, HeapInv avail ⟨s, [], regions⟩ bs ∧ regions.length = bs.length
  whole : ∀ b ∈ bs, WholePages b

/-- What a request gets from a heap at rest and what it leaves when that is given back: the pointer,
the list and the frames. -/
def restRequest (size : Nat) (bs : List Block) (pmm : Pmm.State) : Nat × List Block × Pmm.State :=
  if size = 0 then (0, bs, pmm)
  else
    match bs.find? (fits (alignUp size)) with
    | some b => (b.addr + 24, bs, pmm)
    | none =>
      let pages := expandPages (alignUp size)
      let (region, pmm') := pmmAllocFrames pmm pages
      if region = 0 then (0, bs, pmm) else (region + 24, insertBlock (regionBlock region pages) bs, pmm')

section

variable {avail : Finset Nat} {s h : Machine} {regions : List Seg} {bs pre post : List Block} {b c : Block}
  {size need : Nat}

theorem WholePages.not_absorbs (whole : WholePages b) (aligned : 4096 ∣ c.addr) : ¬ absorbs b c := by
  intro test
  obtain ⟨-, -, eq⟩ := test
  obtain ⟨k, lo⟩ := whole.lo
  obtain ⟨l, hi⟩ := whole.hi
  obtain ⟨n, next⟩ := aligned
  have bound := whole.bound
  unfold Block.fin at *
  rw [alignUp_of_lt (by omega)] at eq
  omega

/-- Whole pages in front are left alone. -/
theorem coalesce_append (whole : ∀ x ∈ pre, WholePages x) (aligned : 4096 ∣ c.addr) :
    coalesce (pre ++ c :: post) = pre ++ coalesceFrom c post := by
  have loop : ∀ g xs, (∀ x ∈ g :: xs, WholePages x) →
      coalesceFrom g (xs ++ c :: post) = g :: xs ++ coalesceFrom c post := by
    intro g xs
    induction xs generalizing g with
    | nil =>
      intro all
      exact if_neg ((all g List.mem_cons_self).not_absorbs aligned)
    | cons x xs ih =>
      intro all
      have head := (all g List.mem_cons_self).not_absorbs (all x (by simp)).lo
      rw [List.cons_append, coalesceFrom, if_neg head, ih x fun y hy => all y (List.mem_cons_of_mem _ hy)]
      rfl
  cases pre with
  | nil => rfl
  | cons g xs => exact loop g xs whole

theorem coalesce_whole (whole : ∀ x ∈ bs, WholePages x) : coalesce bs = bs := by
  rcases List.eq_nil_or_concat bs with rfl | ⟨pre, c, rfl⟩
  · rfl
  · rw [List.concat_eq_append] at *
    exact coalesce_append (fun x hx => whole x (by simp [hx])) (whole c (by simp)).lo

/-- **What was cut is joined again**, and nothing else. -/
theorem coalesce_restored (whole : ∀ x ∈ pre ++ b :: post, WholePages x) (enough : need ≤ b.size)
    (rounded : need % 16 = 0) :
    ∃ c rest, carve b need = c :: rest ∧ c.addr = b.addr ∧ c.free = false ∧
      coalesce (pre ++ c.freed :: (rest ++ post)) = pre ++ b :: post := by
  have own := whole b (by simp)
  have free := own.free
  have bound := own.bound
  have tail : coalesceFrom b post = b :: post :=
    @coalesce_whole (b :: post) fun x hx => whole x (List.mem_append_right _ hx)
  have front : ∀ c : Block, c.addr = b.addr → ∀ rest,
      coalesce (pre ++ c :: rest) = pre ++ coalesceFrom c rest := fun c addr rest =>
    coalesce_append (fun x hx => whole x (by simp [hx])) (addr ▸ own.lo)
  unfold Block.fin at bound
  unfold carve
  split
  · refine ⟨_, _, rfl, rfl, rfl, ?_⟩
    have same : Block.freed ⟨b.addr, b.size, false⟩ = b := by
      rw [Block.freed, ← free]
    rw [same, List.nil_append, front b rfl, tail]
  · refine ⟨_, _, rfl, rfl, rfl, ?_⟩
    have joins : absorbs (Block.freed ⟨b.addr, need, false⟩) ⟨b.addr + 24 + need, b.size - need - 24, true⟩ := by
      refine ⟨rfl, rfl, ?_⟩
      show b.addr + 24 + alignUp need = b.addr + 24 + need
      rw [alignUp_of_lt (by omega)]
      omega
    have joined : merge (Block.freed ⟨b.addr, need, false⟩) ⟨b.addr + 24 + need, b.size - need - 24, true⟩ = b := by
      obtain ⟨addr, size, mark⟩ := b
      unfold merge Block.freed
      dsimp only at *
      rw [free, Block.mk.injEq]
      refine ⟨rfl, ?_, rfl⟩
      omega
    rw [front (Block.freed ⟨b.addr, need, false⟩) rfl, List.singleton_append, coalesceFrom, if_pos joins, joined, tail]

theorem wholePages_region {region pages : Nat} (pages' : Pages (regionSeg region pages :: regions))
    (positive : 0 < pages) : WholePages (regionBlock region pages) := by
  obtain ⟨lo, hi⟩ := pages'.aligned _ List.mem_cons_self
  have bound := pages'.bound _ List.mem_cons_self
  have fin : (regionBlock region pages).fin = (regionSeg region pages).hi := by
    unfold Block.fin regionBlock regionSeg
    dsimp only
    omega
  exact ⟨rfl, lo, fin ▸ hi, fin ▸ bound⟩

/-! ## What a state at rest says -/

theorem AtRest.used (rest : AtRest avail s bs) : s.usedBytes = 0 := by
  obtain ⟨regions, inv, -⟩ := rest.inv
  have none : usedSum bs = 0 := by
    unfold usedSum
    refine List.sum_eq_zero fun n member => ?_
    obtain ⟨b, hb, rfl⟩ := List.mem_map.1 member
    exact if_pos (rest.whole b hb).free
  exact inv.well.used.trans none

theorem spanSum_eq (bs : List Block) : spanSum bs = (bs.map Block.size).sum + 24 * bs.length := by
  induction bs with
  | nil => rfl
  | cons b bs ih =>
    rw [spanSum_cons, ih, List.map_cons, List.sum_cons, List.length_cons]
    omega

theorem AtRest.total (rest : AtRest avail s bs) : s.totalBytes = (bs.map Block.size).sum := by
  obtain ⟨regions, inv, count⟩ := rest.inv
  have total := inv.total
  have span := inv.span
  rw [spanSum_eq] at span
  dsimp only at total span
  omega

/-- The frames are those of the blocks and the free ones. -/
theorem AtRest.frames (rest : AtRest avail s bs) (f : Nat) :
    f ∈ freeSet s.pmm ↔ f ∈ avail ∧ ¬ ∃ b ∈ bs, b.addr ≤ f * 4096 ∧ f * 4096 < b.fin := by
  obtain ⟨regions, inv, -⟩ := rest.inv
  have cover : Cover regions (f * 4096) ↔ ∃ b ∈ bs, b.addr ≤ f * 4096 ∧ f * 4096 < b.fin := by
    rw [← inv.well.layout.tiles.cover]
    constructor
    · intro h
      obtain ⟨r, hr, has⟩ := h
      obtain ⟨b, hb, rfl⟩ := List.mem_map.1 hr
      exact ⟨b, hb, has⟩
    · intro h
      obtain ⟨b, hb, has⟩ := h
      exact ⟨b.seg, List.mem_map_of_mem hb, has⟩
  rw [← cover]
  exact inv.frames.free f

theorem AtRest.blockList_eq (rest : AtRest avail s bs) : blockList s = bs := by
  obtain ⟨regions, inv, -⟩ := rest.inv
  exact inv.well.blockList_eq

/-! ## A request and its return -/

/-- The block that was taken comes back, whatever was stored into it. -/
theorem HeapInv.give_back (inv : HeapInv avail ⟨h, [(b.addr + 24, size)], regions⟩ (pre ++ carve b need ++ post))
    (whole : ∀ x ∈ pre ++ b :: post, WholePages x) (enough : need ≤ b.size) (rounded : need % 16 = 0) {m : Mem}
    (stored : SameOutside (fun a => b.addr + 24 ≤ a ∧ a < b.addr + 24 + size) h.mem m) :
    ∃ s', kfree { h with mem := m } (b.addr + 24) = some s' ∧ HeapInv avail ⟨s', [], regions⟩ (pre ++ b :: post) ∧
      s'.pmm = h.pmm := by
  obtain ⟨c, rest, eq, addr, used, restored⟩ := coalesce_restored whole enough rounded
  have list : pre ++ carve b need ++ post = pre ++ c :: (rest ++ post) := by
    rw [eq, List.append_assoc, List.cons_append]
  rw [list] at inv
  have after := inv.store (m := m) (stored.mono fun a ha => ⟨_, List.mem_cons_self, ha⟩)
  obtain ⟨s', run, well, -, pmm, total, -⟩ := kfree_live after.well used
  have inv' := after.give well pmm total
  rw [restored] at inv'
  rw [← addr]
  refine ⟨s', run, ?_, pmm⟩
  have gone : List.filter (fun y : Nat × Nat => decide (y.1 ≠ c.addr + 24)) [(b.addr + 24, size)] = [] := by
    rw [addr]
    simp
  exact gone ▸ inv'

/-- What was handed out ends below 1 GiB. -/
theorem HeapInv.live_bound {w : World} (inv : HeapInv avail w bs) {x : Nat × Nat} (live : x ∈ w.live) :
    x.1 + x.2 ≤ 2 ^ 30 := by
  obtain ⟨b, hb, -, addr, enough⟩ := inv.granted x live
  have bound := inv.well.layout.fin_le hb
  unfold Block.fin at bound
  omega

/-- The outcome of a request on a heap at rest. -/
structure Lent (avail : Finset Nat) (s : Machine) (bs : List Block) (size p : Nat) (h : Machine) : Prop where
  pointer : p = (restRequest size bs s.pmm).1
  refused : p = 0 → h = s ∧ restRequest size bs s.pmm = (0, bs, s.pmm)
  bound : p ≠ 0 → p + size ≤ 2 ^ 30
  back : p ≠ 0 → ∀ m, SameOutside (fun a => p ≤ a ∧ a < p + size) h.mem m →
    ∃ s', kfree { h with mem := m } p = some s' ∧ AtRest avail s' (restRequest size bs s.pmm).2.1 ∧
      s'.pmm = (restRequest size bs s.pmm).2.2

theorem restRequest_found (nonzero : size ≠ 0) (found : bs.find? (fits (alignUp size)) = some b) (pmm : Pmm.State) :
    restRequest size bs pmm = (b.addr + 24, bs, pmm) := by
  rw [restRequest, if_neg nonzero, found]

theorem restRequest_missing (nonzero : size ≠ 0) (missing : bs.find? (fits (alignUp size)) = none) (pmm : Pmm.State) :
    restRequest size bs pmm = if (pmmAllocFrames pmm (expandPages (alignUp size))).1 = 0 then (0, bs, pmm)
      else ((pmmAllocFrames pmm (expandPages (alignUp size))).1 + 24,
        insertBlock (regionBlock (pmmAllocFrames pmm (expandPages (alignUp size))).1 (expandPages (alignUp size))) bs,
        (pmmAllocFrames pmm (expandPages (alignUp size))).2) := by
  rw [restRequest, if_neg nonzero, missing]

/-- A request that `kmalloc` answers with null is refused by the list and by the frame allocator. -/
theorem HeapInv.restRequest_null {w : World} (inv : HeapInv avail w bs) (run : kmalloc w.heap size = some (0, h)) :
    restRequest size bs w.heap.pmm = (0, bs, w.heap.pmm) := by
  by_cases empty : size = 0
  · exact if_pos empty
  · have null : ∀ {p : Nat} {h' : Machine}, kmalloc w.heap size = some (p, h') → p = 0 := fun run' => by
      rw [run] at run'
      cases run'
      rfl
    cases found : bs.find? (fits (alignUp size)) with
    | some b =>
      obtain ⟨pre, post, rfl, free, fit, before⟩ := find_split found
      obtain ⟨h', run', -⟩ := kmalloc_found inv.well empty free fit before
      exact absurd (null run') (Nat.succ_ne_zero _)
    | none =>
      rw [restRequest_missing empty found]
      refine if_pos ?_
      by_contra some'
      obtain ⟨region, room, h', -, run', -⟩ := inv.kmalloc_expanded empty found some'
      exact absurd (null run') (Nat.succ_ne_zero _)

theorem Lent.null (inv : HeapInv avail ⟨s, [], regions⟩ bs) (run : kmalloc s size = some (0, s)) :
    Lent avail s bs size 0 s := by
  have none := inv.restRequest_null run
  dsimp only at none
  refine ⟨?_, fun _ => ⟨rfl, none⟩, fun ne => absurd rfl ne, fun ne => absurd rfl ne⟩
  rw [none]

/-- A block of whole pages handed out. -/
theorem HeapInv.lent (inv : HeapInv avail ⟨h, [(b.addr + 24, size)], regions⟩ (pre ++ carve b (alignUp size) ++ post))
    (whole : ∀ x ∈ pre ++ b :: post, WholePages x) (enough : alignUp size ≤ b.size)
    (count : regions.length = (pre ++ b :: post).length)
    (rest : restRequest size bs s.pmm = (b.addr + 24, pre ++ b :: post, h.pmm)) :
    Lent avail s bs size (b.addr + 24) h := by
  have bound := inv.live_bound List.mem_cons_self
  refine ⟨by rw [rest], fun null => absurd null (Nat.succ_ne_zero _), fun _ => bound, fun _ m stored => ?_⟩
  obtain ⟨s', run, inv', pmm⟩ := inv.give_back whole enough (alignUp_mod size) stored
  rw [rest]
  exact ⟨s', run, ⟨⟨regions, inv', count⟩, whole⟩, pmm⟩

theorem length_insertBlock (b : Block) (bs : List Block) : (insertBlock b bs).length = bs.length + 1 := by
  have rest : bs.filter (fun x => decide (b.addr ≤ x.addr)) = bs.filter fun x => !decide (x.addr < b.addr) :=
    List.filter_congr fun x _ => by rw [← decide_not, decide_eq_decide, Nat.not_lt]
  have split := List.length_eq_length_filter_add (l := bs) fun x => decide (x.addr < b.addr)
  rw [insertBlock, rest, List.length_append, List.length_cons, split, Nat.add_assoc]

/-- The run of free blocks at the end of a list begins with the header of one of them. -/
theorem freeRun_head {head fin : Nat} (run : freeRun bs = some (head, fin)) : ∃ b ∈ bs, b.addr = head := by
  induction bs using List.reverseRecOn generalizing head fin with
  | nil => cases run
  | append_singleton bs b ih =>
    have last : freeRun (bs ++ [b]) = runStep (freeRun bs) b := List.foldl_concat ..
    rw [last] at run
    unfold runStep at run
    split at run
    · cases before : freeRun bs with
      | none =>
        rw [before] at run
        cases run
        exact ⟨b, by simp, rfl⟩
      | some r =>
        rw [before] at run
        dsimp only at run
        split at run
        · cases run
          obtain ⟨c, hc, addr⟩ := ih before
          exact ⟨c, by simp [hc], addr⟩
        · cases run
          exact ⟨b, by simp, rfl⟩
    · cases run

/-- The frames after a request that grew the heap. -/
theorem HeapInv.grown_pmm {w : World} {p : Nat} (inv : HeapInv avail w bs) (nonzero : size ≠ 0)
    (search : findFree w.heap.mem (alignUp size) walkFuel w.heap.heapHead = some 0)
    (some' : (pmmAllocFrames w.heap.pmm (expandPages (alignUp size))).1 ≠ 0) (run : kmalloc w.heap size = some (p, h)) :
    h.pmm = (pmmAllocFrames w.heap.pmm (expandPages (alignUp size))).2 := by
  obtain ⟨pages, apart, -⟩ := inv.frames.granted some'
  obtain ⟨start, positive, -⟩ := alloc_granted some'
  have got : pmmAllocFrames w.heap.pmm (expandPages (alignUp size)) =
    ((pmmAllocFrames w.heap.pmm (expandPages (alignUp size))).1,
      (pmmAllocFrames w.heap.pmm (expandPages (alignUp size))).2) := rfl
  obtain ⟨m, head, expand, -⟩ := heapExpand_spec inv.well.toRepresents got some' positive pages apart
  have call := kmalloc_expand nonzero search
  rw [expand] at call
  dsimp only at call
  rw [if_neg some', run] at call
  cases call
  rfl

/-- **A request that does not wrap**, on a heap at rest. -/
theorem AtRest.lent (zero : 0 ∉ avail) (rest : AtRest avail s bs) (sound : NoWrap ⟨s, [], []⟩ size) :
    ∃ p h, kmalloc s size = some (p, h) ∧ Lent avail s bs size p h := by
  obtain ⟨regions, inv, count⟩ := rest.inv
  by_cases empty : size = 0
  · have run : kmalloc s size = some (0, s) := by rw [kmalloc, if_pos empty]
    exact ⟨0, s, run, .null inv run⟩
  · by_cases large : 2 ^ 30 < size
    · obtain ⟨run, -⟩ := inv.refused zero large sound
      exact ⟨0, s, run, .null inv run⟩
    · have small : size ≤ 2 ^ 30 := by omega
      cases found : bs.find? (fits (alignUp size)) with
      | some b =>
        have answer := restRequest_found empty found s.pmm
        obtain ⟨pre, post, rfl, free, fit, before⟩ := find_split found
        obtain ⟨h, run, -, inv'⟩ := inv.request_found empty small free fit before
        obtain ⟨h', run', -, pmm, -⟩ := kmalloc_found inv.well empty free fit before
        rw [run] at run'
        cases run'
        exact ⟨_, h, run, inv'.lent rest.whole fit count (pmm ▸ answer)⟩
      | none =>
        have answer := restRequest_missing empty found s.pmm
        by_cases failed : (pmmAllocFrames s.pmm (expandPages (alignUp size))).1 = 0
        · obtain ⟨run, -⟩ := inv.request_failed zero found failed
          exact ⟨0, s, run, .null inv run⟩
        · rw [if_neg failed] at answer
          have search := inv.well.missing found
          have covers : alignUp size ≤ 2 ^ 30 := by
            rw [alignUp_of_lt (by omega)]
            omega
          have aligned : ∀ b ∈ bs, b.addr % 16 = 0 := fun b hb => by
            obtain ⟨k, lo⟩ := (rest.whole b hb).lo
            omega
          obtain ⟨pre, b, post, h, run, region, inserted, list, -, fit, -, inv'⟩ :=
            inv.request_grown empty small search failed fun r _ head free => by
              obtain ⟨b, hb, rfl⟩ := freeRun_head free
              rw [inv.well.blockList_eq] at hb
              exact aligned b (List.mem_of_mem_filter hb)
          have pmm := inv.grown_pmm empty search failed run
          dsimp only at region pmm inserted
          rw [region] at answer
          have whole : ∀ x ∈ insertBlock (regionBlock b.addr (expandPages (alignUp size))) bs, WholePages x := by
            intro x hx
            rcases mem_insertBlock.1 hx with rfl | old
            · exact wholePages_region inserted.layout.pages (expandPages_spec covers).1
            · exact rest.whole x old
          have still := coalesce_whole whole
          rw [list] at still
          rw [← still] at answer whole
          refine ⟨b.addr + 24, h, run, inv'.lent whole fit ?_ (pmm ▸ answer)⟩
          rw [still, length_insertBlock, List.length_cons, count]

/-! ## Asking again -/

/-- Blocks stay. -/
theorem restRequest_keeps (size : Nat) (pmm : Pmm.State) {x : Block} (member : x ∈ bs) :
    x ∈ (restRequest size bs pmm).2.1 := by
  unfold restRequest
  split
  · exact member
  · split
    · exact member
    · dsimp only
      split
      · exact member
      · exact mem_insertBlock.2 (.inr member)

/-- What was granted once is there. -/
theorem restRequest_serves {pmm : Pmm.State} (small : size ≤ 2 ^ 30) (granted : (restRequest size bs pmm).1 ≠ 0) :
    ∃ b ∈ (restRequest size bs pmm).2.1, fits (alignUp size) b = true := by
  have nonzero : size ≠ 0 := fun empty => granted (by rw [restRequest, if_pos empty])
  cases found : bs.find? (fits (alignUp size)) with
  | some b =>
    rw [restRequest_found nonzero found]
    exact ⟨b, List.mem_of_find?_eq_some found, List.find?_some found⟩
  | none =>
    rw [restRequest_missing nonzero found] at granted ⊢
    split at granted
    · exact absurd rfl granted
    · rename_i some'
      rw [if_neg some']
      refine ⟨_, mem_insertBlock.2 (.inl rfl), ?_⟩
      have covers : alignUp size ≤ 2 ^ 30 := by
        rw [alignUp_of_lt (by omega)]
        omega
      have enough := (expandPages_spec covers).2
      unfold fits regionBlock
      rw [Bool.and_eq_true, decide_eq_true_eq]
      refine ⟨rfl, ?_⟩
      dsimp only
      omega

/-- A size that a block fits is served from the list, and leaves it as it is. -/
theorem restRequest_listed (nonzero : size ≠ 0) (member : b ∈ bs) (fit : fits (alignUp size) b = true)
    (pmm : Pmm.State) :
    ∃ c ∈ bs, restRequest size bs pmm = (c.addr + 24, bs, pmm) := by
  obtain ⟨c, found⟩ := Option.isSome_iff_exists.1 (List.find?_isSome.2 ⟨b, member, fit⟩)
  exact ⟨c, List.mem_of_find?_eq_some found, restRequest_found nonzero found pmm⟩

theorem fits_mono {k : Nat} (le : k ≤ size) (small : size ≤ 2 ^ 30) (fit : fits (alignUp size) b = true) :
    fits (alignUp k) b = true := by
  unfold fits at *
  rw [Bool.and_eq_true, decide_eq_true_eq] at *
  rw [alignUp_of_lt (by omega)] at *
  exact ⟨fit.1, by omega⟩

end

end SimpleKernel.Heap
