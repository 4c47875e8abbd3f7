import SimpleKernel.Heap.FreeRuns
import SimpleKernel.Lib.Lts

/-!
# Runs of the heap

`heapSystem` is the heap on top of the frame allocator, from `pmm_init` and `heap_init`
on, under calls and under stores of the clients into what they were given. `HeapInv` ties
the block list, the live allocations and the frames together. Every call keeps it
(`HeapInv.step`) except a growing one whose new region is absorbed into a free
block below it, which `KeepsRegion` rules out.
-/

namespace SimpleKernel.Heap
set_option autoImplicit false
open Lib Pmm Kstring

/-- The list as it stands in memory. -/
def readList (m : Mem) : Nat → Nat → List Block
  | 0, _ => []
  | fuel + 1, b => if b = 0 then [] else ⟨b, blockSize m b, blockFree m b⟩ :: readList m fuel (blockNext m b)

def blockList (s : Machine) : List Block := readList s.mem walkFuel s.heapHead

theorem readList_eq {m : Mem} {p fuel : Nat} {bs : List Block} (links : Links m p 0 bs) (bounded : Bounded bs)
    (enough : bs.length < fuel) : readList m fuel p = bs := by
  induction bs generalizing p fuel with
  | nil =>
    obtain ⟨fuel, rfl⟩ : ∃ n, fuel = n + 1 := ⟨fuel - 1, by omega⟩
    have start : p = 0 := links
    rw [readList, if_pos start]
  | cons b bs ih =>
    obtain ⟨fuel, rfl⟩ : ∃ n, fuel = n + 1 := ⟨fuel - 1, by omega⟩
    rw [List.length_cons] at enough
    obtain ⟨rfl, size, free, rest⟩ := links
    have pos := bounded.positive b List.mem_cons_self
    rw [readList, if_neg (by omega), size, free, ih rest bounded.tail (by omega)]

theorem Represents.blockList_eq {s : Machine} {regions : List Seg} {bs : List Block} (h : Represents s regions bs) :
    blockList s = bs :=
  readList_eq h.links h.layout.bounded h.layout.length_lt

/-! ## The system -/

inductive Call where
  | kmalloc (size : Nat)
  | kcalloc (count size : Nat)
  | kfree (ptr : Nat)
  | store

/-- The bytes that a call asks for. -/
def Call.request : Call → Nat
  | .kmalloc size => size
  | .kcalloc count size => count * size
  | .kfree _ => 0
  | .store => 0

/-- The region by which `kmalloc(size)` grows the heap, if it does. -/
def grown (s : Machine) (size : Nat) : List Seg :=
  if size = 0 ∨ findFree s.mem (alignUp size) walkFuel s.heapHead ≠ some 0 then []
  else
    let pages := expandPages (alignUp size)
    let region := (pmmAllocFrames s.pmm pages).1
    if region = 0 then [] else [regionSeg region pages]

/-- The heap, the live allocations with their sizes, and the regions obtained so far. -/
structure World where
  heap : Machine
  live : List (Nat × Nat)
  regions : List Seg

/-- After a request for `size` bytes that returned `p`. -/
def World.granted (w : World) (size p : Nat) (heap : Machine) : World :=
  ⟨heap, if p = 0 then w.live else (p, size) :: w.live, grown w.heap size ++ w.regions⟩

/-- The bytes of the live allocations. -/
def Payload (live : List (Nat × Nat)) (a : Nat) : Prop := ∃ x ∈ live, x.1 ≤ a ∧ a < x.1 + x.2

/-- One call with a request of at most 1 GiB, `kfree` of a live pointer, or a store of a client. -/
inductive HeapStep : World → Call → World → Prop
  | kmalloc {w : World} {size p : Nat} {h : Machine} : size ≤ 2 ^ 30 → kmalloc w.heap size = some (p, h) →
      HeapStep w (.kmalloc size) (w.granted size p h)
  | kcalloc {w : World} {count size p : Nat} {h : Machine} : count * size ≤ 2 ^ 30 →
      kcalloc w.heap count size = some (p, h) → HeapStep w (.kcalloc count size) (w.granted (count * size) p h)
  | kfree {w : World} {x : Nat × Nat} {h : Machine} : x ∈ w.live → kfree w.heap x.1 = some h →
      HeapStep w (.kfree x.1) ⟨h, w.live.filter (fun y => decide (y.1 ≠ x.1)), w.regions⟩
  | store {w : World} {m : Mem} : SameOutside (Payload w.live) w.heap.mem m →
      HeapStep w .store { w with heap := { w.heap with mem := m } }

/-- The heap after `pmm_init` and `heap_init`, whatever memory holds. -/
def heapSystem (p : Pmm.State) (boot : Boot) : Lts World Call where
  Init w := ∃ s, w = ⟨{ heapInit s with pmm := pmmInit p boot }, [], []⟩
  Step := HeapStep

/-- The call does not grow the heap next to a run of free blocks whose first header is at 8
modulo 16: such a run absorbs the new region. -/
def KeepsRegion (w : World) (c : Call) : Prop :=
  ∀ r ∈ grown w.heap c.request, ∀ head,
    freeRun ((blockList w.heap).filter fun b => decide (b.addr < r.lo)) = some (head, r.lo) → head % 16 = 0

theorem grown_zero (s : Machine) : grown s 0 = [] := if_pos (.inl rfl)

/-- A call that does not grow the heap keeps the regions. -/
theorem keepsRegion_still {w : World} {c : Call} (stay : grown w.heap c.request = []) : KeepsRegion w c := by
  intro r hr
  rw [stay] at hr
  cases hr

/-! ## The frames of the regions -/

/-- The frames not free any more, of those that `pmm_init` left free, are those of the regions. -/
structure Frames (avail : Finset Nat) (pmm : Pmm.State) (regions : List Seg) : Prop where
  pages : Pages regions
  free : ∀ f, f ∈ freeSet pmm ↔ f ∈ avail ∧ ¬ Cover regions (f * 4096)
  fresh : ∀ a, Cover regions a → a / 4096 ∈ avail

theorem Pages.cover_page {regions : List Seg} (h : Pages regions) (a : Nat) :
    Cover regions (a / 4096 * 4096) ↔ Cover regions a := by
  refine exists_congr fun r => and_congr_right fun hr => ?_
  obtain ⟨⟨lo, hlo⟩, ⟨hi, hhi⟩⟩ := h.aligned r hr
  unfold Seg.Has
  omega

section

variable {avail : Finset Nat} {pmm : Pmm.State} {regions : List Seg}

theorem Frames.failed (h : Frames avail pmm regions) (zero : 0 ∉ avail) {count : Nat}
    (none : (pmmAllocFrames pmm count).1 = 0) : (pmmAllocFrames pmm count).2 = pmm :=
  alloc_failed (fun member => zero ((h.free 0).1 member).1) none

theorem Frames.granted (h : Frames avail pmm regions) {count : Nat} (some' : (pmmAllocFrames pmm count).1 ≠ 0) :
    Pages (regionSeg (pmmAllocFrames pmm count).1 count :: regions) ∧
      (∀ a, (regionSeg (pmmAllocFrames pmm count).1 count).Has a → ¬ Cover regions a) ∧
      Frames avail (pmmAllocFrames pmm count).2 (regionSeg (pmmAllocFrames pmm count).1 count :: regions) := by
  obtain ⟨start, positive, first, run, eq⟩ := alloc_granted some'
  rw [eq]
  dsimp only
  have upper := run.upper
  rw [frameLimit_eq] at upper
  have old : ∀ a, (regionSeg (start * 4096) count).Has a → a / 4096 ∈ avail ∧ ¬ Cover regions a := fun a ha => by
    unfold Seg.Has regionSeg at ha
    dsimp only at ha
    obtain ⟨fresh, out⟩ := (h.free _).1 (run.free.mem_freeSet run.upper (f := a / 4096) (by omega) (by omega))
    rw [h.pages.cover_page] at out
    exact ⟨fresh, out⟩
  have pages : Pages (regionSeg (start * 4096) count :: regions) := by
    unfold regionSeg
    refine ⟨fun r hr => ?_, fun r hr => ?_, fun r hr => ?_⟩
    · rcases List.mem_cons.1 hr with rfl | hr
      · exact ⟨by dsimp only; omega, by dsimp only; omega⟩
      · exact h.pages.aligned r hr
    · rcases List.mem_cons.1 hr with rfl | hr
      · dsimp only
        omega
      · exact h.pages.positive r hr
    · rcases List.mem_cons.1 hr with rfl | hr
      · dsimp only
        omega
      · exact h.pages.bound r hr
  refine ⟨pages, fun a ha => (old a ha).2, ⟨pages, fun f => ?_, fun a ha => ?_⟩⟩
  · rw [freeSet_setRun, Finset.mem_sdiff, h.free, cover_cons, Finset.mem_Ico, and_assoc]
    refine and_congr_right fun _ => ?_
    have has : (regionSeg (start * 4096) count).Has (f * 4096) ↔ start ≤ f ∧ f < start + count := by
      unfold Seg.Has regionSeg
      dsimp only
      omega
    rw [has]
    tauto
  · rw [cover_cons] at ha
    rcases ha with ha | ha
    · exact (old a ha).1
    · exact h.fresh a ha

end

/-! ## The invariant -/

def regionSum (regions : List Seg) : Nat := (regions.map fun r => r.hi - r.lo).sum

@[simp] theorem regionSum_cons (r : Seg) (regions : List Seg) :
    regionSum (r :: regions) = r.hi - r.lo + regionSum regions := rfl

/-- **The invariant of a run.** Live allocations and blocks handed out match one to one. -/
structure HeapInv (avail : Finset Nat) (w : World) (bs : List Block) : Prop where
  well : WellFormed w.heap w.regions bs
  eight : Eight bs
  frames : Frames avail w.heap.pmm w.regions
  granted : ∀ x ∈ w.live, ∃ b ∈ bs, b.free = false ∧ x.1 = b.addr + 24 ∧ x.2 ≤ b.size
  distinct : w.live.Pairwise fun x y => x.1 ≠ y.1
  owned : ∀ b ∈ bs, b.free = false → ∃ x ∈ w.live, x.1 = b.addr + 24
  span : spanSum bs = regionSum w.regions
  total : w.heap.totalBytes + 24 * w.regions.length = regionSum w.regions

/-- The block of a region as it goes on the list, before coalescing. -/
structure Inserted (regions : List Seg) (bs : List Block) (region pages : Nat) : Prop where
  layout : Layout (regionSeg region pages :: regions) (insertBlock (regionBlock region pages) bs)
  eight : Eight (insertBlock (regionBlock region pages) bs)

/-- What a call does to the regions and the list. -/
inductive Change : Call → List Seg → List Block → List Seg → List Block → Prop
  | same (c : Call) (regions : List Seg) (bs : List Block) : Change c regions bs regions bs
  | take {c : Call} {regions : List Seg} {pre post : List Block} {b : Block} {need : Nat} : b.free = true →
      need ≤ b.size → need % 16 = 0 → Change c regions (pre ++ b :: post) regions (pre ++ carve b need ++ post)
  | grow {c : Call} {regions : List Seg} {bs pre post : List Block} {b : Block} {region pages need : Nat} :
      Inserted regions bs region pages →
      coalesce (insertBlock (regionBlock region pages) bs) = pre ++ b :: post → b.free = true → need ≤ b.size →
      need % 16 = 0 → Change c regions bs (regionSeg region pages :: regions) (pre ++ carve b need ++ post)
  | free {regions : List Seg} {pre post : List Block} {b : Block} : b.free = false →
      Change (.kfree (b.addr + 24)) regions (pre ++ b :: post) regions (coalesce (pre ++ b.freed :: post))

theorem eight_carve {pre post : List Block} {b : Block} {need : Nat} (eight : Eight (pre ++ b :: post))
    (rounded : need % 16 = 0) : Eight (pre ++ carve b need ++ post) := by
  have here := eight b (by simp)
  intro c hc
  simp only [List.mem_append] at hc
  rcases hc with (hc | hc) | hc
  · exact eight c (by simp [hc])
  · unfold carve at hc
    split at hc
    · rw [List.mem_singleton.1 hc]
      exact here
    · simp only [List.mem_cons, List.not_mem_nil, or_false] at hc
      rcases hc with rfl | rfl
      · dsimp only
        omega
      · dsimp only
        omega
  · exact eight c (by simp [hc])

theorem Eight.freed {pre post : List Block} {b : Block} (eight : Eight (pre ++ b :: post)) :
    Eight (pre ++ b.freed :: post) := by
  intro c hc
  simp only [List.mem_append, List.mem_cons] at hc
  rcases hc with hc | rfl | hc
  · exact eight c (by simp [hc])
  · exact eight b (by simp)
  · exact eight c (by simp [hc])

section

variable {avail : Finset Nat} {w : World} {pre post bs : List Block} {b : Block}

/-- A free block handed out. -/
theorem HeapInv.take (inv : HeapInv avail w (pre ++ b :: post)) (free : b.free = true) {need size : Nat} {h : Machine}
    (well : WellFormed h w.regions (pre ++ carve b need ++ post)) (enough : need ≤ b.size) (rounded : need % 16 = 0)
    (covers : size ≤ need) (pmm : h.pmm = w.heap.pmm) (total : h.totalBytes = w.heap.totalBytes) :
    HeapInv avail ⟨h, (b.addr + 24, size) :: w.live, w.regions⟩ (pre ++ carve b need ++ post) := by
  obtain ⟨rest, eq, spare⟩ := carve_head b need
  have big : need ≤ grantedSize b need := by
    unfold grantedSize
    split <;> omega
  have stays : ∀ c ∈ pre ++ b :: post, c.free = false → c ∈ pre ++ carve b need ++ post ∧ c ≠ b := fun c hc used => by
    have ne : c ≠ b := fun same => by rw [same, free] at used; cases used
    simp only [List.mem_append, List.mem_cons, ne, false_or] at hc
    refine ⟨?_, ne⟩
    simp only [List.mem_append]
    tauto
  refine ⟨well, eight_carve inv.eight rounded, pmm ▸ inv.frames, ?_, ?_, ?_, ?_, ?_⟩
  · refine List.forall_mem_cons.2 ⟨⟨⟨b.addr, grantedSize b need, false⟩, by rw [eq]; simp, rfl, rfl, by
      dsimp only; omega⟩, fun x hx => ?_⟩
    obtain ⟨c, hc, used, facts⟩ := inv.granted x hx
    exact ⟨c, (stays c hc used).1, used, facts⟩
  · refine List.pairwise_cons.2 ⟨fun x hx same => ?_, inv.distinct⟩
    obtain ⟨c, hc, used, addr, -⟩ := inv.granted x hx
    have addrs : c.addr = b.addr := by
      dsimp only at same
      omega
    exact (stays c hc used).2 (inv.well.layout.eq_of_addr hc (by simp) addrs)
  · intro c hc used
    rw [eq] at hc
    simp only [List.mem_append, List.mem_cons] at hc
    have old : ∀ c ∈ pre ++ b :: post, c.free = false → ∃ x ∈ (b.addr + 24, size) :: w.live, x.1 = c.addr + 24 :=
      fun c hc used => by
        obtain ⟨x, hx, addr⟩ := inv.owned c hc used
        exact ⟨x, List.mem_cons_of_mem _ hx, addr⟩
    rcases hc with (hc | rfl | hc) | hc
    · exact old c (by simp [hc]) used
    · exact ⟨_, List.mem_cons_self, rfl⟩
    · rw [spare c hc] at used
      cases used
    · exact old c (by simp [hc]) used
  · have span := inv.span
    rw [spanSum_append, spanSum_append, spanSum_carve, ← span, spanSum_append, spanSum_cons]
    omega
  · rw [total]
    exact inv.total

/-- A live allocation given back. -/
theorem HeapInv.give (inv : HeapInv avail w (pre ++ b :: post)) {h : Machine}
    (well : WellFormed h w.regions (coalesce (pre ++ b.freed :: post))) (pmm : h.pmm = w.heap.pmm)
    (total : h.totalBytes = w.heap.totalBytes) :
    HeapInv avail ⟨h, w.live.filter (fun y => decide (y.1 ≠ b.addr + 24)), w.regions⟩
      (coalesce (pre ++ b.freed :: post)) := by
  have layout : Layout w.regions (pre ++ b.freed :: post) := inv.well.layout.remark true
  have merges := merges_coalesce layout
  refine ⟨well, merges.eight inv.eight.freed, pmm ▸ inv.frames, fun x hx => ?_, inv.distinct.filter _,
    fun c hc used => ?_, ?_, ?_⟩
  · obtain ⟨hx, ne⟩ := List.mem_filter.1 hx
    obtain ⟨c, hc, used, addr, size⟩ := inv.granted x hx
    have other : c ≠ b := fun same => by
      rw [same] at addr
      simp [addr] at ne
    refine ⟨c, (merges.used_iff used).2 ?_, used, addr, size⟩
    simp only [List.mem_append, List.mem_cons, other, false_or] at hc ⊢
    tauto
  · have hc' := (merges.used_iff used).1 hc
    have other : c ≠ b.freed := fun same => by rw [same] at used; cases used
    have apart : c.addr ≠ b.addr := fun same => other (layout.eq_of_addr hc' (by simp) same)
    have old : c ∈ pre ++ b :: post := by
      simp only [List.mem_append, List.mem_cons, other, false_or] at hc' ⊢
      tauto
    obtain ⟨x, hx, addr⟩ := inv.owned c old used
    exact ⟨x, List.mem_filter.2 ⟨hx, by simp [addr, apart]⟩, addr⟩
  · rw [merges.spanSum_eq, ← inv.span]
    simp [Block.freed]
  · rw [total]
    exact inv.total

/-- A store of a client. -/
theorem HeapInv.store (inv : HeapInv avail w bs) {m : Mem} (same : SameOutside (Payload w.live) w.heap.mem m) :
    HeapInv avail { w with heap := { w.heap with mem := m } } bs := by
  refine ⟨⟨⟨?_, inv.well.layout⟩, inv.well.used⟩, inv.eight, inv.frames, inv.granted, inv.distinct, inv.owned, inv.span,
    inv.total⟩
  refine inv.well.links.congr same fun c hc a ha hit => ?_
  obtain ⟨x, hx, lo, hi⟩ := hit
  obtain ⟨b, hb, -, addr, size⟩ := inv.granted x hx
  refine inv.well.layout.payload_not_header hb ?_ ?_ ⟨c, hc, ha⟩
  · omega
  · unfold Block.fin
    omega

theorem expandPages_spec {need : Nat} (small : need ≤ 2 ^ 30) :
    0 < expandPages need ∧ need + 24 ≤ expandPages need * 4096 := by
  unfold expandPages
  rw [sizeofHeapBlock_eq, heapPageSize_eq, u64_of_lt (n := need + 24) (by omega), alignUp_of_lt (by omega),
    u64_of_lt (by omega)]
  omega

/-- The heap grown by a region that is not absorbed: the region's block is on the list. -/
theorem HeapInv.grow (inv : HeapInv avail w bs) {need : Nat} (small : need ≤ 2 ^ 30)
    (some' : (pmmAllocFrames w.heap.pmm (expandPages need)).1 ≠ 0)
    (keeps : ∀ head, freeRun (bs.filter fun b =>
      decide (b.addr < (pmmAllocFrames w.heap.pmm (expandPages need)).1)) =
        some (head, (pmmAllocFrames w.heap.pmm (expandPages need)).1) → head % 16 = 0) :
    ∃ s' pre b post, heapExpand w.heap need = some (b.addr, s') ∧
      (pmmAllocFrames w.heap.pmm (expandPages need)).1 = b.addr ∧ Inserted w.regions bs b.addr (expandPages need) ∧
      coalesce (insertBlock (regionBlock b.addr (expandPages need)) bs) = pre ++ b :: post ∧
      b.free = true ∧ need ≤ b.size ∧
      HeapInv avail ⟨s', w.live, regionSeg b.addr (expandPages need) :: w.regions⟩ (pre ++ b :: post) := by
  obtain ⟨positive, covers⟩ := expandPages_spec small
  obtain ⟨pages, apart, frames⟩ := inv.frames.granted some'
  have got : pmmAllocFrames w.heap.pmm (expandPages need) = ((pmmAllocFrames w.heap.pmm (expandPages need)).1,
    (pmmAllocFrames w.heap.pmm (expandPages need)).2) := rfl
  obtain ⟨m, head, expand, now, layout, -⟩ :=
    heapExpand_spec inv.well.toRepresents got some' positive pages apart
  clear got
  generalize (pmmAllocFrames w.heap.pmm (expandPages need)).1 = region at *
  generalize (pmmAllocFrames w.heap.pmm (expandPages need)).2 = pmm at *
  generalize expandPages need = n at *
  have aligned : region % 16 = 0 := by
    obtain ⟨⟨k, hk⟩, -⟩ := pages.aligned _ List.mem_cons_self
    unfold regionSeg at hk
    dsimp only at hk
    omega
  obtain ⟨xs, ys, rfl, below, above⟩ := exists_place inv.well.layout.ordered region
  have put : insertBlock (regionBlock region n) (xs ++ ys) = xs ++ regionBlock region n :: ys :=
    insertBlock_eq below above
  rw [(filters_eq below above).1] at keeps
  have whole := layout
  rw [put] at layout now
  have eight : Eight (xs ++ regionBlock region n :: ys) := fun c hc => by
    simp only [List.mem_append, List.mem_cons] at hc
    rcases hc with hc | rfl | hc
    · exact inv.eight c (by simp [hc])
    · unfold regionBlock
      dsimp only
      omega
    · exact inv.eight c (by simp [hc])
  have apartRun : ¬ Joined (freeRun xs) (regionBlock region n) := fun joined => by
    obtain ⟨-, first, eq, differ⟩ := joined
    exact differ ((keeps first eq).trans aligned.symm)
  obtain ⟨b, hb, addr, free, size⟩ := coalesce_survives layout eight apartRun
  have merges := merges_coalesce layout
  obtain ⟨pre, post, list⟩ := List.append_of_mem hb
  have addr' : region = b.addr := addr.symm
  have size' : n * 4096 - 24 ≤ b.size := size
  subst addr'
  have old : ∀ c, c.free = false → (c ∈ pre ++ b :: post ↔ c ∈ xs ++ ys) := fun c used => by
    have ne : c ≠ regionBlock b.addr n := fun same => by rw [same] at used; cases used
    rw [← list, merges.used_iff used]
    simp only [List.mem_append, List.mem_cons, ne, false_or]
  refine ⟨_, pre, b, post, expand, rfl, ⟨whole, put ▸ eight⟩, by rw [put, list], free, by omega, ?_⟩
  rw [list] at now merges
  refine ⟨⟨now, ?_⟩, merges.eight eight, frames, fun x hx => ?_, inv.distinct, fun c hc used => ?_, ?_, ?_⟩
  · rw [merges.usedSum_eq]
    refine inv.well.used.trans ?_
    simp [regionBlock]
  · obtain ⟨c, hc, used, facts⟩ := inv.granted x hx
    exact ⟨c, (old c used).2 hc, used, facts⟩
  · exact inv.owned c ((old c used).1 hc) used
  · rw [merges.spanSum_eq, regionSum_cons, ← inv.span]
    simp only [spanSum_append, spanSum_cons, regionBlock, regionSeg]
    omega
  · have total := inv.total
    have span := inv.span
    have bound := layout.spanSum_le
    simp only [spanSum_append, spanSum_cons, regionBlock] at bound span
    simp only [regionSum_cons, List.length_cons, regionSeg]
    rw [u64_of_lt (by omega)]
    omega

theorem World.granted_null {size : Nat} (stay : grown w.heap size = []) : w.granted size 0 w.heap = w := by
  rw [World.granted, stay, if_pos rfl]
  rfl

/-- `kmalloc` past its search. -/
theorem kmalloc_expand {s : Machine} {size : Nat} (nonzero : size ≠ 0)
    (search : findFree s.mem (alignUp size) walkFuel s.heapHead = some 0) :
    kmalloc s size = match heapExpand s (alignUp size) with
      | none => none
      | some (block, s) => if block = 0 then some (0, s) else some (takeBlock s block (alignUp size)) := by
  rw [kmalloc, if_neg nonzero]
  dsimp only
  rw [search]
  rfl

theorem grown_expand {s : Machine} {size : Nat} (nonzero : size ≠ 0)
    (search : findFree s.mem (alignUp size) walkFuel s.heapHead = some 0) :
    grown s size = if (pmmAllocFrames s.pmm (expandPages (alignUp size))).1 = 0 then []
      else [regionSeg (pmmAllocFrames s.pmm (expandPages (alignUp size))).1 (expandPages (alignUp size))] := by
  refine if_neg fun h => ?_
  rcases h with h | h
  · exact nonzero h
  · exact h search

/-- A request that finds a block. -/
theorem HeapInv.request_found (inv : HeapInv avail w (pre ++ b :: post)) {size : Nat} (nonzero : size ≠ 0)
    (small : size ≤ 2 ^ 30) (free : b.free = true) (fit : alignUp size ≤ b.size)
    (before : ∀ c ∈ pre, fits (alignUp size) c = false) :
    ∃ h, kmalloc w.heap size = some (b.addr + 24, h) ∧
      w.granted size (b.addr + 24) h = ⟨h, (b.addr + 24, size) :: w.live, w.regions⟩ ∧
      HeapInv avail ⟨h, (b.addr + 24, size) :: w.live, w.regions⟩ (pre ++ carve b (alignUp size) ++ post) := by
  have search := inv.well.findFree (alignUp size)
  rw [find_first free fit before] at search
  obtain ⟨h, run, well, pmm, total, -⟩ := kmalloc_found inv.well nonzero free fit before
  have pos := inv.well.layout.addr_pos (b := b) (by simp)
  have stay : grown w.heap size = [] := by
    refine if_pos (.inr ?_)
    rw [search]
    dsimp only [Option.map_some, Option.getD_some]
    rw [ne_eq, Option.some.injEq]
    omega
  have covers : size ≤ alignUp size := by
    rw [alignUp_of_lt (by omega)]
    omega
  refine ⟨h, run, ?_, inv.take free well fit (alignUp_mod size) covers pmm total⟩
  rw [World.granted, stay, if_neg (by omega)]
  rfl

/-- A request that grows the heap. -/
theorem HeapInv.request_grown (inv : HeapInv avail w bs) {size : Nat} (nonzero : size ≠ 0) (small : size ≤ 2 ^ 30)
    (search : findFree w.heap.mem (alignUp size) walkFuel w.heap.heapHead = some 0)
    (some' : (pmmAllocFrames w.heap.pmm (expandPages (alignUp size))).1 ≠ 0)
    (keeps : ∀ r ∈ grown w.heap size, ∀ head,
      freeRun ((blockList w.heap).filter fun b => decide (b.addr < r.lo)) = some (head, r.lo) → head % 16 = 0) :
    ∃ pre b post h, kmalloc w.heap size = some (b.addr + 24, h) ∧
      (pmmAllocFrames w.heap.pmm (expandPages (alignUp size))).1 = b.addr ∧
      Inserted w.regions bs b.addr (expandPages (alignUp size)) ∧
      coalesce (insertBlock (regionBlock b.addr (expandPages (alignUp size))) bs) = pre ++ b :: post ∧
      b.free = true ∧ alignUp size ≤ b.size ∧
      w.granted size (b.addr + 24) h = ⟨h, (b.addr + 24, size) :: w.live,
        regionSeg b.addr (expandPages (alignUp size)) :: w.regions⟩ ∧
      HeapInv avail ⟨h, (b.addr + 24, size) :: w.live,
        regionSeg b.addr (expandPages (alignUp size)) :: w.regions⟩ (pre ++ carve b (alignUp size) ++ post) := by
  have covers : size ≤ alignUp size ∧ alignUp size ≤ 2 ^ 30 := by
    rw [alignUp_of_lt (by omega)]
    omega
  have grows := grown_expand nonzero search
  rw [if_neg some'] at grows
  rw [grows, inv.well.blockList_eq] at keeps
  obtain ⟨s, pre, b, post, expanded, region, inserted, list, free, fit, inv'⟩ :=
    inv.grow covers.2 some' (keeps _ List.mem_cons_self)
  have pos := inv'.well.layout.addr_pos (b := b) (by simp)
  obtain ⟨m, take, links, -⟩ := takeBlock_spec inv'.well.toRepresents fit (alignUp_mod size)
  have layout := inv'.well.layout.carved (alignUp size)
  have sum := layout.usedSum_le
  have before := inv'.well.used
  rw [usedSum_append, usedSum_append, usedSum_carve] at sum
  rw [usedSum_append, usedSum_cons, free, if_pos rfl] at before
  dsimp only at before
  obtain ⟨h, taken⟩ : ∃ h : Machine, h = { s with
    mem := m, usedBytes := u64 (s.usedBytes + grantedSize b (alignUp size)) } := ⟨_, rfl⟩
  rw [← taken] at take
  have used : h.usedBytes = usedSum (pre ++ carve b (alignUp size) ++ post) := by
    rw [taken, usedSum_append, usedSum_append, usedSum_carve]
    dsimp only
    rw [u64_of_lt (by omega)]
    omega
  have world : w.granted size (b.addr + 24) h = ⟨h, (b.addr + 24, size) :: w.live,
      regionSeg b.addr (expandPages (alignUp size)) :: w.regions⟩ := by
    rw [World.granted, grows, region, if_neg (by omega)]
    rfl
  refine ⟨pre, b, post, h, ?_, region, inserted, list, free, fit, world, ?_⟩
  · rw [kmalloc_expand nonzero search, expanded]
    dsimp only
    rw [if_neg (by omega), take]
  · refine inv'.take free ⟨⟨?_, layout⟩, used⟩ fit (alignUp_mod size) covers.1 ?_ ?_
    · rw [taken]
      exact links
    · rw [taken]
    · rw [taken]

/-- A request that finds no block and gets no frames changes nothing. -/
theorem HeapInv.request_failed (zero : 0 ∉ avail) (inv : HeapInv avail w bs) {size : Nat}
    (missing : bs.find? (fits (alignUp size)) = none)
    (failed : (pmmAllocFrames w.heap.pmm (expandPages (alignUp size))).1 = 0) :
    kmalloc w.heap size = some (0, w.heap) ∧ grown w.heap size = [] := by
  by_cases empty : size = 0
  · constructor
    · rw [kmalloc, if_pos empty]
    · exact if_pos (.inl empty)
  · have search := inv.well.missing missing
    constructor
    · rw [kmalloc_expand empty search, heapExpand_failed failed, inv.frames.failed zero failed]
      exact if_pos rfl
    · rw [grown_expand empty search, if_pos failed]

/-- **Every request** of at most 1 GiB returns and keeps the invariant. -/
theorem HeapInv.request (zero : 0 ∉ avail) (inv : HeapInv avail w bs) {size : Nat} (small : size ≤ 2 ^ 30)
    (keeps : ∀ r ∈ grown w.heap size, ∀ head,
      freeRun ((blockList w.heap).filter fun b => decide (b.addr < r.lo)) = some (head, r.lo) → head % 16 = 0) :
    ∃ p h bs', kmalloc w.heap size = some (p, h) ∧ HeapInv avail (w.granted size p h) bs' ∧
      ∀ c, Change c w.regions bs (w.granted size p h).regions bs' := by
  by_cases empty : size = 0
  · have still : w.granted size 0 w.heap = w := World.granted_null (if_pos (.inl empty))
    refine ⟨0, w.heap, bs, ?_, still.symm ▸ inv, ?_⟩
    · rw [kmalloc, if_pos empty]
    · rw [still]
      exact fun c => .same c _ _
  · cases found : bs.find? (fits (alignUp size)) with
    | some b =>
      obtain ⟨pre, post, rfl, free, fit, before⟩ := find_split found
      obtain ⟨h, run, world, inv'⟩ := inv.request_found empty small free fit before
      exact ⟨b.addr + 24, h, _, run, world.symm ▸ inv', fun c => world.symm ▸ .take free fit (alignUp_mod size)⟩
    | none =>
      by_cases failed : (pmmAllocFrames w.heap.pmm (expandPages (alignUp size))).1 = 0
      · obtain ⟨run, stay⟩ := inv.request_failed zero found failed
        have still : w.granted size 0 w.heap = w := World.granted_null stay
        refine ⟨0, w.heap, bs, run, still.symm ▸ inv, ?_⟩
        rw [still]
        exact fun c => .same c _ _
      · have search := inv.well.missing found
        obtain ⟨pre, b, post, h, run, -, inserted, list, free, fit, world, inv'⟩ :=
          inv.request_grown empty small search failed keeps
        exact ⟨b.addr + 24, h, _, run, world.symm ▸ inv', fun c => world.symm ▸ .grow inserted list free fit
          (alignUp_mod size)⟩

/-! ## The calls -/

/-- The block that `kcalloc` got, cleared. -/
def cleared (total p : Nat) (h : Machine) : Machine :=
  if p ≠ 0 then { h with mem := kmemset h.mem p 0 total } else h

/-- `kcalloc` is `kmalloc` of the product, cleared. -/
theorem kcalloc_eq (s : Machine) (count size : Nat) :
    kcalloc s count size =
      (kmalloc s (u64 (count * size))).map fun r => (r.1, cleared (u64 (count * size)) r.1 r.2) := by
  rw [kcalloc]
  by_cases empty : count = 0 ∨ size = 0
  · have none : count * size = 0 := Nat.mul_eq_zero.2 empty
    rw [if_pos empty, none, kmalloc, if_pos (show u64 0 = 0 from rfl)]
    rfl
  · rw [if_neg empty]
    dsimp only
    cases kmalloc s (u64 (count * size)) with
    | none => rfl
    | some r => rfl

/-- Clearing what was just granted is a store of its owner. -/
theorem HeapInv.cleared {size p : Nat} {h : Machine} (inv : HeapInv avail (w.granted size p h) bs) :
    HeapInv avail (w.granted size p (cleared size p h)) bs := by
  unfold Heap.cleared
  by_cases null : p = 0
  · rw [if_neg (not_not.2 null)]
    exact inv
  · rw [if_pos null]
    refine inv.store (m := kmemset h.mem p 0 size) fun a out => ?_
    rw [kmemset_eq_fill]
    refine fill_out fun inside => out ⟨(p, size), ?_, inside⟩
    rw [World.granted, if_neg null]
    exact List.mem_cons_self

/-- `kfree` of a live allocation. -/
theorem HeapInv.release (inv : HeapInv avail w bs) {x : Nat × Nat} (live : x ∈ w.live) {h : Machine}
    (run : kfree w.heap x.1 = some h) :
    ∃ bs', HeapInv avail ⟨h, w.live.filter (fun y => decide (y.1 ≠ x.1)), w.regions⟩ bs' ∧
      Change (.kfree x.1) w.regions bs w.regions bs' := by
  obtain ⟨b, hb, used, addr, -⟩ := inv.granted x live
  obtain ⟨pre, post, rfl⟩ := List.append_of_mem hb
  obtain ⟨s', run', well, -, pmm, total, -⟩ := kfree_live inv.well used
  rw [addr, run'] at run
  cases run
  rw [addr]
  exact ⟨_, inv.give well pmm total, .free used⟩

/-- **The step lemma.** -/
theorem HeapInv.step (zero : 0 ∉ avail) (inv : HeapInv avail w bs) {c : Call} {w' : World} (keeps : KeepsRegion w c)
    (step : HeapStep w c w') : ∃ bs', HeapInv avail w' bs' ∧ Change c w.regions bs w'.regions bs' := by
  cases step with
  | kmalloc small run =>
    obtain ⟨p, h, bs', run', inv', change⟩ := inv.request zero small keeps
    rw [run'] at run
    cases run
    exact ⟨bs', inv', change _⟩
  | @kcalloc count size p h small run =>
    obtain ⟨p', h', bs', run', inv', change⟩ := inv.request zero small keeps
    rw [kcalloc_eq, u64_of_lt (by omega), run'] at run
    cases run
    exact ⟨bs', inv'.cleared, change _⟩
  | kfree live run => exact inv.release live run
  | store same => exact ⟨bs, inv.store same, .same _ _ _⟩

end

end SimpleKernel.Heap
