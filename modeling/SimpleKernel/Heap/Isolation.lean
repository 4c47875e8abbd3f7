import SimpleKernel.Heap.Run
import SimpleKernel.Pmm.Firmware

/-!
# Isolation

In every run that keeps the new regions apart (`KeepsRegion`) the live allocations are
disjoint, lie in frames of the heap and touch neither a header nor a free block. The
condition cannot be dropped: a region absorbed into the free block below it is handed
out and stays on the list inside that block (`absorbed_region_granted`).
-/

namespace SimpleKernel.Heap
set_option autoImplicit false
open Lib Pmm

/-- The live allocations are apart from each other, in frames that the heap took from those
`init` left free, and apart from the headers and the free blocks of the list. -/
structure Isolated (init : Pmm.State) (w : World) : Prop where
  apart : w.live.Pairwise fun x y => x.1 + x.2 ≤ y.1 ∨ y.1 + y.2 ≤ x.1
  frames : ∀ a, Payload w.live a → Cover w.regions a ∧ a / 4096 < pmmMaxFrames ∧
    bitTest init (a / 4096) = false ∧ bitTest w.heap.pmm (a / 4096) = true
  unlisted : ∀ a, Payload w.live a → ∀ b ∈ blockList w.heap,
    ¬ headerBytes b.addr a ∧ ¬ (b.free = true ∧ b.addr ≤ a ∧ a < b.fin)

section

variable {avail : Finset Nat} {w : World} {bs : List Block}

/-- A byte of a live allocation is payload of a block that is handed out. -/
theorem HeapInv.payload_block (inv : HeapInv avail w bs) {a : Nat} (live : Payload w.live a) :
    ∃ b ∈ bs, b.free = false ∧ b.addr + 24 ≤ a ∧ a < b.fin := by
  obtain ⟨x, hx, lo, hi⟩ := live
  obtain ⟨b, hb, used, addr, size⟩ := inv.granted x hx
  refine ⟨b, hb, used, by omega, ?_⟩
  unfold Block.fin
  omega

theorem HeapInv.live_apart (inv : HeapInv avail w bs) :
    w.live.Pairwise fun x y => x.1 + x.2 ≤ y.1 ∨ y.1 + y.2 ≤ x.1 := by
  refine inv.distinct.imp_of_mem fun {x y} hx hy differ => ?_
  obtain ⟨b, hb, -, addrX, sizeX⟩ := inv.granted x hx
  obtain ⟨c, hc, -, addrY, sizeY⟩ := inv.granted y hy
  have ne : b ≠ c := fun same => differ (by rw [addrX, addrY, same])
  have apart := inv.well.layout.apart hb hc ne
  unfold Block.fin at apart
  omega

/-- It lies in a region. -/
theorem HeapInv.payload_cover (inv : HeapInv avail w bs) {a : Nat} (live : Payload w.live a) : Cover w.regions a := by
  obtain ⟨b, hb, used, lo, hi⟩ := inv.payload_block live
  refine (inv.well.layout.tiles.cover a).1 ⟨b.seg, List.mem_map_of_mem hb, ?_, hi⟩
  rw [Block.seg_lo]
  omega

theorem HeapInv.isolated {init : Pmm.State} (inv : HeapInv (freeSet init) w bs) : Isolated init w := by
  refine ⟨inv.live_apart, fun a live => ?_, fun a live c hc => ?_⟩
  · obtain ⟨b, hb, -, lo, hi⟩ := inv.payload_block live
    have cover : Cover w.regions a := by
      refine (inv.well.layout.tiles.cover a).1 ⟨b.seg, List.mem_map_of_mem hb, ?_, hi⟩
      rw [Block.seg_lo]
      omega
    have fresh := mem_freeSet.1 (inv.frames.fresh a cover)
    refine ⟨cover, fresh.1, fresh.2, (not_mem_freeSet fresh.1).1 fun free => ?_⟩
    exact ((inv.frames.free _).1 free).2 ((inv.frames.pages.cover_page a).2 cover)
  · rw [inv.well.blockList_eq] at hc
    obtain ⟨b, hb, used, lo, hi⟩ := inv.payload_block live
    refine ⟨fun header => inv.well.layout.payload_not_header hb lo hi ⟨c, hc, header⟩, fun inside => ?_⟩
    have ne : b ≠ c := fun same => by
      rw [same, inside.1] at used
      cases used
    exact inv.well.layout.payload_apart hc hb ne lo hi inside.2

end

/-! ## Runs -/

theorem heapInv_start {p : Pmm.State} {boot : Boot} {w : World} (init : (heapSystem p boot).Init w) :
    HeapInv (freeSet (pmmInit p boot)) w [] := by
  obtain ⟨s, rfl⟩ := init
  have none : ∀ a, ¬ Cover [] a := fun a => by simp
  have pages : Pages [] := ⟨by simp, by simp, by simp⟩
  refine ⟨⟨⟨rfl, pages, .nil none⟩, rfl⟩, by simp [Eight], ⟨pages, fun f => ?_, fun a ha => absurd ha (none a)⟩,
    by simp, .nil, by simp, rfl, rfl⟩
  simp

/-- **The run lemma**, for any condition that keeps the new regions. -/
theorem heapInv_run {p : Pmm.State} {boot : Boot} {ok : World → Call → Prop}
    (keeps : ∀ w bs c, HeapInv (freeSet (pmmInit p boot)) w bs → ok w c → KeepsRegion w c) {calls : List Call}
    {w : World} (run : ((heapSystem p boot).restrict ok).Run calls w) :
    ∃ bs, HeapInv (freeSet (pmmInit p boot)) w bs := by
  have start : ∀ w, ((heapSystem p boot).restrict ok).Init w → ∃ bs, HeapInv (freeSet (pmmInit p boot)) w bs :=
    fun w init => ⟨[], heapInv_start init⟩
  refine run.invariant start fun w c w' inv step => ?_
  obtain ⟨bs, inv⟩ := inv
  obtain ⟨bs', inv', -⟩ := inv.step (zero_not_free p boot) (keeps w bs c inv step.1) step.2
  exact ⟨bs', inv'⟩

/-- **Heap isolation.** -/
theorem heap_isolated (p : Pmm.State) (boot : Boot) (calls : List Call) (w : World)
    (run : ((heapSystem p boot).restrict KeepsRegion).Run calls w) : Isolated (pmmInit p boot) w := by
  obtain ⟨bs, inv⟩ := heapInv_run (fun _ _ _ _ keeps => keeps) run
  exact inv.isolated

/-! ## Following a run -/

/-- A run under `ok` whose heap is known up to the contents of memory. -/
def Reaches (ok : World → Call → Prop) (p : Pmm.State) (boot : Boot) (calls : List Call) (live : List (Nat × Nat))
    (regions : List Seg) (bs : List Block) : Prop :=
  ∃ h, ((heapSystem p boot).restrict ok).Run calls ⟨h, live, regions⟩ ∧
    HeapInv (freeSet (pmmInit p boot)) ⟨h, live, regions⟩ bs

section

variable {ok : World → Call → Prop} {p : Pmm.State} {boot : Boot} {calls : List Call} {live : List (Nat × Nat)}
  {regions : List Seg} {pre post bs : List Block} {b : Block}

theorem reaches_start : Reaches ok p boot [] [] [] [] :=
  ⟨_, .start ⟨⟨fun _ => 0, 0, 0, 0, p⟩, rfl⟩, heapInv_start ⟨⟨fun _ => 0, 0, 0, 0, p⟩, rfl⟩⟩

theorem Reaches.found (h : Reaches ok p boot calls live regions (pre ++ b :: post)) {size : Nat} (nonzero : size ≠ 0)
    (small : size ≤ 2 ^ 30) (free : b.free = true) (fit : alignUp size ≤ b.size)
    (before : ∀ c ∈ pre, fits (alignUp size) c = false)
    (allowed : ∀ s, HeapInv (freeSet (pmmInit p boot)) ⟨s, live, regions⟩ (pre ++ b :: post) →
      grown s size = [] → ok ⟨s, live, regions⟩ (.kmalloc size)) :
    Reaches ok p boot (calls ++ [.kmalloc size]) ((b.addr + 24, size) :: live) regions
      (pre ++ carve b (alignUp size) ++ post) := by
  obtain ⟨s, run, inv⟩ := h
  obtain ⟨s', call, world, inv'⟩ := inv.request_found nonzero small free fit before
  have stay : grown s size = [] := List.append_left_eq_self.1 (congrArg World.regions world)
  refine ⟨s', ?_, inv'⟩
  rw [← world]
  exact run.snoc ⟨allowed s inv stay, .kmalloc small call⟩

theorem Reaches.freed (h : Reaches ok p boot calls live regions (pre ++ b :: post)) (used : b.free = false) {size : Nat}
    (owner : (b.addr + 24, size) ∈ live)
    (allowed : ∀ s, HeapInv (freeSet (pmmInit p boot)) ⟨s, live, regions⟩ (pre ++ b :: post) →
      ok ⟨s, live, regions⟩ (.kfree (b.addr + 24))) :
    Reaches ok p boot (calls ++ [.kfree (b.addr + 24)]) (live.filter fun y => decide (y.1 ≠ b.addr + 24)) regions
      (coalesce (pre ++ b.freed :: post)) := by
  obtain ⟨s, run, inv⟩ := h
  obtain ⟨s', call, well, -, pmm, total, -⟩ := kfree_live inv.well used
  have step : HeapStep ⟨s, live, regions⟩ (.kfree (b.addr + 24)) _ :=
    @HeapStep.kfree _ (b.addr + 24, size) s' owner call
  exact ⟨s', run.snoc ⟨allowed s inv, step⟩, inv.give well pmm total⟩

/-- The frame allocator's answer, from what is left of its free frames. -/
theorem Frames.next {avail : Finset Nat} {pmm : Pmm.State} (h : Frames avail pmm regions) {start count : Nat}
    (positive : 0 < count) (upper : start + count ≤ frameLimit)
    (free : ∀ i, i < count → start + i ∈ avail ∧ ¬ Cover regions ((start + i) * 4096))
    (used : ∀ f, f < start → f ∈ avail → Cover regions (f * 4096)) :
    (pmmAllocFrames pmm count).1 = start * 4096 := by
  rw [pmmAllocFrames_eq positive
    (.of_used positive upper (fun i hi => (h.free _).2 (free i hi)) fun f below member => ?_)]
  obtain ⟨old, out⟩ := (h.free f).1 member
  exact out (used f below old)

/-- Where a header splits a list. -/
theorem Layout.split_unique {pre' post' : List Block} {b' : Block} (h : Layout regions (pre ++ b :: post))
    (eq : pre ++ b :: post = pre' ++ b' :: post') (addr : b.addr = b'.addr) : pre = pre' ∧ b = b' ∧ post = post' := by
  have same : b = b' := h.eq_of_addr (by simp) (by rw [eq]; simp) addr
  obtain ⟨-, after, before⟩ := List.pairwise_append.1 h.ordered
  have next := (List.pairwise_cons.1 after).1
  refine (List.append_cons_inj_of_notMem (fun hb => ?_) fun hb => ?_).1 eq
  · have := before b' hb b List.mem_cons_self
    unfold Block.fin at this
    omega
  · have := next b' hb
    unfold Block.fin at this
    omega

theorem Reaches.grown (h : Reaches ok p boot calls live regions bs) {size start : Nat} (nonzero : size ≠ 0)
    (small : size ≤ 2 ^ 30) (missing : bs.find? (fits (alignUp size)) = none)
    (upper : start + expandPages (alignUp size) ≤ frameLimit)
    (free : ∀ i, i < expandPages (alignUp size) → start + i ∈ freeSet (pmmInit p boot) ∧
      ¬ Cover regions ((start + i) * 4096))
    (used : ∀ f, f < start → f ∈ freeSet (pmmInit p boot) → Cover regions (f * 4096))
    (keeps : ∀ head, freeRun (bs.filter fun b => decide (b.addr < start * 4096)) = some (head, start * 4096) →
      head % 16 = 0)
    (list : coalesce (insertBlock (regionBlock (start * 4096) (expandPages (alignUp size))) bs) = pre ++ b :: post)
    (addr : b.addr = start * 4096)
    (allowed : ∀ s, HeapInv (freeSet (pmmInit p boot)) ⟨s, live, regions⟩ bs →
      Heap.grown s size = [regionSeg (start * 4096) (expandPages (alignUp size))] →
      ok ⟨s, live, regions⟩ (.kmalloc size)) :
    Reaches ok p boot (calls ++ [.kmalloc size]) ((b.addr + 24, size) :: live)
      (regionSeg b.addr (expandPages (alignUp size)) :: regions) (pre ++ carve b (alignUp size) ++ post) := by
  obtain ⟨s, run, inv⟩ := h
  have covers : alignUp size ≤ 2 ^ 30 := by
    rw [alignUp_of_lt (by omega)]
    omega
  have base := inv.frames.next (expandPages_spec covers).1 upper free used
  have zero : start ≠ 0 := fun zero => by
    have first := (free 0 (expandPages_spec covers).1).1
    rw [zero] at first
    exact zero_not_free p boot first
  have some' : (pmmAllocFrames s.pmm (expandPages (alignUp size))).1 ≠ 0 := by
    rw [base]
    omega
  have search := inv.well.missing missing
  have grows := grown_expand nonzero search
  rw [if_neg some', base] at grows
  have layout : Layout (regionSeg (start * 4096) (expandPages (alignUp size)) :: regions) (pre ++ b :: post) := by
    rw [← base] at keeps
    obtain ⟨_, _, c, _, -, base', -, list', -, -, inv'⟩ := inv.grow covers some' keeps
    have here : c.addr = start * 4096 := base'.symm.trans base
    rw [here, list] at list'
    rw [list', ← here]
    exact inv'.well.layout
  obtain ⟨pre', b', post', s', call, base', -, list', -, -, world, inv'⟩ :=
    inv.request_grown nonzero small search some' fun r hr head run' => by
      rw [grows, List.mem_singleton] at hr
      subst hr
      rw [inv.well.blockList_eq] at run'
      exact keeps head run'
  have here : b'.addr = start * 4096 := base'.symm.trans base
  rw [here, list] at list'
  obtain ⟨rfl, rfl, rfl⟩ := layout.split_unique list' (addr.trans here.symm)
  refine ⟨s', ?_, inv'⟩
  rw [← world]
  exact run.snoc ⟨allowed s inv grows, .kmalloc small call⟩

end

/-- 16 usable pages at 1 MiB. -/
def smallBoot : Boot where
  addr := 0x5000
  info := { memoryMapEntries := 1, memoryMapAddr := 0x5400, kernelPhysStart := 0x10000, kernelPhysEnd := 0x20000 }
  entries _ := ⟨0x100000, 0x10000, 1⟩

theorem smallBoot_noWrap : NoWrap smallBoot := by
  refine ⟨fun i _ => ?_, by decide, by decide, by decide⟩
  unfold smallBoot
  dsimp only
  omega

theorem smallBoot_free {p : Pmm.State} {f : Nat} : f ∈ freeSet (pmmInit p smallBoot) ↔ 256 ≤ f ∧ f < 272 := by
  rw [mem_freeSet_pmmInit_exact smallBoot_noWrap, pmmMaxFrames_eq]
  constructor
  · intro h
    obtain ⟨-, ⟨i, hi, type, inside⟩, kept⟩ := h
    unfold Inside smallBoot at inside
    dsimp only at inside
    omega
  · intro h
    refine ⟨by omega, ⟨0, by decide, rfl, ?_⟩, ?_⟩
    · unfold Inside smallBoot
      dsimp only
      omega
    · unfold Kept Outward sizeofBootInfo sizeofMemoryMapEntry smallBoot
      dsimp only
      omega

section

variable {ok : World → Call → Prop} {p : Pmm.State} {calls : List Call} {live : List (Nat × Nat)}
  {regions : List Seg} {pre post bs : List Block} {b : Block}

/-- Growth on that map, when the regions so far are its first pages. -/
theorem Reaches.grown_small (h : Reaches ok p smallBoot calls live regions bs) {size start : Nat}
    (nonzero : size ≠ 0) (small : size ≤ 2 ^ 30) (missing : bs.find? (fits (alignUp size)) = none)
    (covered : ∀ a, Cover regions a ↔ 0x100000 ≤ a ∧ a < start * 4096) (lower : 256 ≤ start)
    (upper : start + expandPages (alignUp size) ≤ 272)
    (keeps : ∀ head, freeRun (bs.filter fun b => decide (b.addr < start * 4096)) = some (head, start * 4096) →
      head % 16 = 0)
    (list : coalesce (insertBlock (regionBlock (start * 4096) (expandPages (alignUp size))) bs) = pre ++ b :: post)
    (addr : b.addr = start * 4096)
    (allowed : ∀ s, HeapInv (freeSet (pmmInit p smallBoot)) ⟨s, live, regions⟩ bs →
      Heap.grown s size = [regionSeg (start * 4096) (expandPages (alignUp size))] →
      ok ⟨s, live, regions⟩ (.kmalloc size)) :
    Reaches ok p smallBoot (calls ++ [.kmalloc size]) ((b.addr + 24, size) :: live)
      (regionSeg b.addr (expandPages (alignUp size)) :: regions) (pre ++ carve b (alignUp size) ++ post) := by
  refine h.grown nonzero small missing ?_ (fun i hi => ⟨?_, ?_⟩) (fun f below free => ?_) keeps list addr allowed
  · rw [frameLimit_eq]
    omega
  · rw [smallBoot_free]
    omega
  · rw [covered]
    omega
  · rw [smallBoot_free] at free
    rw [covered]
    omega

theorem HeapInv.keepsRegion {avail : Finset Nat} {w : World} {c : Call} (inv : HeapInv avail w bs)
    (keeps : ∀ r ∈ Heap.grown w.heap c.request, ∀ head,
      freeRun (bs.filter fun b => decide (b.addr < r.lo)) = some (head, r.lo) → head % 16 = 0) : KeepsRegion w c := by
  rw [← inv.well.blockList_eq] at keeps
  exact keeps

/-- The first request. -/
theorem reaches_first (allowed : ∀ s, HeapInv (freeSet (pmmInit p smallBoot)) ⟨s, [], []⟩ [] →
    grown s 16 = [⟨0x100000, 0x101000⟩] → ok ⟨s, [], []⟩ (.kmalloc 16)) :
    Reaches ok p smallBoot [.kmalloc 16] [(0x100018, 16)] [⟨0x100000, 0x101000⟩]
      [⟨0x100000, 16, false⟩, ⟨0x100028, 4032, true⟩] := by
  refine @Reaches.grown_small ok p [] [] [] [] [] [] ⟨0x100000, 4072, true⟩ reaches_start 16 256 (by decide) (by decide)
    rfl (fun a => ?_) le_rfl (by decide) (fun head run => nomatch run) (by decide) rfl allowed
  rw [cover_nil]
  refine ⟨fun h => h.elim, fun h => ?_⟩
  omega

/-- It grows an empty list. -/
theorem keepsRegion_first {s : Machine} (inv : HeapInv (freeSet (pmmInit p smallBoot)) ⟨s, [], []⟩ []) :
    KeepsRegion ⟨s, [], []⟩ (.kmalloc 16) :=
  inv.keepsRegion fun _ _ _ free => nomatch free

/-- Two pages, each with an allocation at its start, and the rest of the first handed out. -/
theorem reaches_second_page (found : ∀ s live regions size, grown s size = [] → ok ⟨s, live, regions⟩ (.kmalloc size))
    (first : ∀ s, HeapInv (freeSet (pmmInit p smallBoot)) ⟨s, [], []⟩ [] → grown s 16 = [⟨0x100000, 0x101000⟩] →
      ok ⟨s, [], []⟩ (.kmalloc 16))
    (second : ∀ s live, HeapInv (freeSet (pmmInit p smallBoot)) ⟨s, live, [⟨0x100000, 0x101000⟩]⟩
      [⟨0x100000, 16, false⟩, ⟨0x100028, 4032, false⟩] → grown s 16 = [⟨0x101000, 0x102000⟩] →
      ok ⟨s, live, [⟨0x100000, 0x101000⟩]⟩ (.kmalloc 16)) :
    Reaches ok p smallBoot [.kmalloc 16, .kmalloc 4032, .kmalloc 16]
      [(0x101018, 16), (0x100040, 4032), (0x100018, 16)] [⟨0x101000, 0x102000⟩, ⟨0x100000, 0x101000⟩]
      [⟨0x100000, 16, false⟩, ⟨0x100028, 4032, false⟩, ⟨0x101000, 16, false⟩, ⟨0x101028, 4032, true⟩] := by
  have one : Reaches ok p smallBoot _ _ _ _ := reaches_first first
  have two := @Reaches.found ok p smallBoot _ _ _ [⟨0x100000, 16, false⟩] [] ⟨0x100028, 4032, true⟩ one 4032
    (by decide) (by decide) rfl (by decide) (by decide) fun s _ stay => found s _ _ _ stay
  refine @Reaches.grown_small ok p _ _ _ [⟨0x100000, 16, false⟩, ⟨0x100028, 4032, false⟩] []
    [⟨0x100000, 16, false⟩, ⟨0x100028, 4032, false⟩] ⟨0x101000, 4072, true⟩ two 16 257 (by decide) (by decide) rfl
    (fun a => ?_) (by decide) (by decide) (fun head run => nomatch run) (by decide) rfl fun s inv => second s _ inv
  rw [cover_cons, cover_nil, or_false]
  exact Iff.rfl

/-- The second page follows a block that is handed out. -/
theorem keepsRegion_second {s : Machine} {live : List (Nat × Nat)} {regions : List Seg}
    (inv : HeapInv (freeSet (pmmInit p smallBoot)) ⟨s, live, regions⟩ [⟨0x100000, 16, false⟩, ⟨0x100028, 4032, false⟩])
    (grows : grown s 16 = [⟨0x101000, 0x102000⟩]) : KeepsRegion ⟨s, live, regions⟩ (.kmalloc 16) := by
  refine inv.keepsRegion fun r hr head run => ?_
  rw [show (Call.kmalloc 16).request = 16 from rfl, grows, List.mem_singleton] at hr
  subst hr
  cases run

theorem keepsRegion_second_page : Reaches KeepsRegion p smallBoot [.kmalloc 16, .kmalloc 4032, .kmalloc 16]
    [(0x101018, 16), (0x100040, 4032), (0x100018, 16)] [⟨0x101000, 0x102000⟩, ⟨0x100000, 0x101000⟩]
    [⟨0x100000, 16, false⟩, ⟨0x100028, 4032, false⟩, ⟨0x101000, 16, false⟩, ⟨0x101028, 4032, true⟩] :=
  reaches_second_page (fun _ _ _ _ stay => keepsRegion_still stay) (fun _ inv _ => keepsRegion_first inv)
    fun _ _ inv grows => keepsRegion_second inv grows

/-- The block between the two allocations, freed. -/
theorem keepsRegion_recycled : Reaches KeepsRegion p smallBoot
    [.kmalloc 16, .kmalloc 4032, .kmalloc 16, .kfree 0x100040]
    [(0x101018, 16), (0x100018, 16)] [⟨0x101000, 0x102000⟩, ⟨0x100000, 0x101000⟩]
    [⟨0x100000, 16, false⟩, ⟨0x100028, 4032, true⟩, ⟨0x101000, 16, false⟩, ⟨0x101028, 4032, true⟩] :=
  @Reaches.freed KeepsRegion p smallBoot _ _ _ [⟨0x100000, 16, false⟩] _ ⟨0x100028, 4032, false⟩ keepsRegion_second_page
    rfl 4032 (by decide) fun s _ => keepsRegion_still (grown_zero s)

end

/-- Two pages, and an allocation in a block that was freed. -/
theorem heap_isolated_recycled : ∃ w, Isolated (pmmInit bss smallBoot) w ∧
    w.live = [(0x100040, 1000), (0x101018, 16), (0x100018, 16)] ∧
    blockList w.heap = [⟨0x100000, 16, false⟩, ⟨0x100028, 1008, false⟩, ⟨0x100430, 3000, true⟩,
      ⟨0x101000, 16, false⟩, ⟨0x101028, 4032, true⟩] := by
  obtain ⟨h, run, inv⟩ := @Reaches.found KeepsRegion bss smallBoot _ _ _
    [⟨0x100000, 16, false⟩] _ ⟨0x100028, 4032, true⟩ keepsRegion_recycled 1000
    (by decide) (by decide) rfl (by decide) (by decide) fun s _ stay => keepsRegion_still stay
  exact ⟨_, heap_isolated bss smallBoot _ _ run, rfl, inv.well.blockList_eq⟩

/-- The stores of `heap_split_block` and the mark of `kmalloc`, whatever the header says. -/
theorem takeBlock_outside (s : Machine) (block size : Nat) :
    SameOutside (fun a => headerBytes block a ∨ headerBytes (u64 (u64 (block + 24) + alignUp size)) a) s.mem
      (takeBlock s block size).2.mem := by
  have own : ∀ a, headerBytes block a →
      headerBytes block a ∨ headerBytes (u64 (u64 (block + 24) + alignUp size)) a := fun a ha => .inl ha
  unfold takeBlock heapSplitBlock
  dsimp only
  split
  · exact (setFree_outside _ _ _).mono own
  · rw [sizeofHeapBlock_eq]
    refine ((header_outside s.mem _ _ 1 _).mono fun a ha => ?_).trans ((header_outside _ block _ 0 _).mono own)
    exact .inr ha

/-- A growing request whose region is absorbed: where `kmalloc` writes there is no header, so
the list stays as coalescing left it. -/
theorem HeapInv.kmalloc_absorbed {avail : Finset Nat} {w : World} {bs : List Block} (inv : HeapInv avail w bs)
    {size region pages : Nat} (nonzero : size ≠ 0) (small : size ≤ 2 ^ 30)
    (missing : bs.find? (fits (alignUp size)) = none) (asked : expandPages (alignUp size) = pages)
    (base : (pmmAllocFrames w.heap.pmm pages).1 = region) (some' : region ≠ 0)
    (clear : ∀ c ∈ coalesce (insertBlock (regionBlock region pages) bs), ∀ a, headerBytes c.addr a →
      ¬ (headerBytes region a ∨ headerBytes (region + 24 + alignUp size) a)) :
    ∃ h, kmalloc w.heap size = some (region + 24, h) ∧
      blockList h = coalesce (insertBlock (regionBlock region pages) bs) := by
  subst asked
  have covers : alignUp size ≤ 2 ^ 30 ∧ alignUp (alignUp size) = alignUp size := by
    rw [alignUp_alignUp, alignUp_of_lt (by omega)]
    omega
  obtain ⟨frames, apart, -⟩ := inv.frames.granted (base ▸ some')
  have got : pmmAllocFrames w.heap.pmm (expandPages (alignUp size)) = (region, _) := Prod.ext base rfl
  rw [base] at frames apart
  have inside : region + expandPages (alignUp size) * 4096 ≤ 2 ^ 30 := frames.bound _ List.mem_cons_self
  have search := inv.well.missing missing
  obtain ⟨m, head, expand, now, -, -⟩ :=
    heapExpand_spec inv.well.toRepresents got some' (expandPages_spec covers.1).1 frames apart
  have call := kmalloc_expand nonzero search
  rw [expand] at call
  dsimp only at call
  rw [if_neg some'] at call
  refine ⟨_, call.trans (congrArg some (Prod.ext ?_ rfl)), ?_⟩
  · refine u64_of_lt ?_
    rw [sizeofHeapBlock_eq]
    omega
  · have out := takeBlock_outside { w.heap with
      mem := m, heapHead := head, totalBytes := u64 (w.heap.totalBytes + (expandPages (alignUp size) * 4096 - 24)),
      pmm := (pmmAllocFrames w.heap.pmm (expandPages (alignUp size))).2 } region (alignUp size)
    rw [covers.2, u64_of_lt (n := region + 24) (by omega), u64_of_lt (by omega)] at out
    exact readList_eq (now.links.congr out clear) now.layout.bounded now.layout.length_lt

/-- The second request grows the heap by `[0x101000, 0x103000)`, which the free tail of the
first page absorbs; its payload at `0x101018` stays inside that free block. -/
theorem absorbed_region_granted : ∃ w, (heapSystem bss smallBoot).Run [.kmalloc 16, .kmalloc 5000] w ∧
    w.live = [(0x101018, 5000), (0x100018, 16)] ∧
    blockList w.heap = [⟨0x100000, 16, false⟩, ⟨0x100028, 12224, true⟩] ∧ ¬ Isolated (pmmInit bss smallBoot) w := by
  obtain ⟨s, run, inv⟩ := @reaches_first KeepsRegion bss fun s inv _ => keepsRegion_first inv
  have base : (pmmAllocFrames s.pmm 2).1 = 257 * 4096 := by
    refine inv.frames.next (by decide) ?_ (fun i hi => ⟨smallBoot_free.2 (by omega), ?_⟩) fun f below free => ?_
    · rw [frameLimit_eq]
      omega
    · rw [cover_cons, cover_nil, or_false]
      unfold Seg.Has
      dsimp only
      omega
    · rw [smallBoot_free] at free
      rw [cover_cons]
      unfold Seg.Has
      dsimp only
      omega
  have list : coalesce (insertBlock (regionBlock (257 * 4096) 2) [⟨0x100000, 16, false⟩, ⟨0x100028, 4032, true⟩]) =
    [⟨0x100000, 16, false⟩, ⟨0x100028, 12224, true⟩] := by decide
  have clear : ∀ c ∈ coalesce (insertBlock (regionBlock (257 * 4096) 2) [⟨0x100000, 16, false⟩,
      ⟨0x100028, 4032, true⟩]), ∀ a, headerBytes c.addr a →
      ¬ (headerBytes (257 * 4096) a ∨ headerBytes (257 * 4096 + 24 + alignUp 5000) a) := by
    rw [list, show alignUp 5000 = 5008 by decide]
    unfold headerBytes
    refine List.forall_mem_cons.2 ⟨fun a ha => ?_, List.forall_mem_cons.2 ⟨fun a ha => ?_, by simp⟩⟩
    · dsimp only at ha
      omega
    · dsimp only at ha
      omega
  obtain ⟨h, call, now⟩ := @HeapInv.kmalloc_absorbed _ _ _ inv 5000 _ _ (by decide) (by decide) (by decide) (by decide)
    base (by decide) clear
  rw [list] at now
  refine ⟨_, run.unrestrict.snoc (.kmalloc (by decide) call), rfl, now, fun isolated => ?_⟩
  have inside := isolated.unlisted 0x101018 ⟨(0x101018, 5000), List.mem_cons_self, by decide⟩ ⟨0x100028, 12224, true⟩
  refine (inside ?_).2 (by decide)
  exact now ▸ List.mem_cons_of_mem _ List.mem_cons_self

end SimpleKernel.Heap
