import SimpleKernel.Heap.Completeness

/-!
# Accounting

`total_bytes` counts one header a region, and a region whose first header has been
absorbed holds more payload than that. While no coalescing absorbs the first header of a
region (`KeepsBases`) the counters are exact and `heap_free_bytes` does not wrap; without the
condition `used_bytes` can pass `total_bytes` (`used_exceeds_total`).
-/

namespace SimpleKernel.Heap
set_option autoImplicit false
open Lib Pmm

/-- No block that begins a region is absorbed when `bs` is coalesced. -/
def BasesKept (regions : List Seg) (bs : List Block) : Prop :=
  ∀ xs b ys, bs = xs ++ b :: ys → (∃ r ∈ regions, r.lo = b.addr) → ¬ Joined (freeRun xs) b

theorem basesKept_iff {regions : List Seg} {bs : List Block} : BasesKept regions bs ↔
    ∀ i : Fin bs.length, (∃ r ∈ regions, r.lo = (bs.get i).addr) → ¬ Joined (freeRun (bs.take i)) (bs.get i) := by
  constructor
  · intro h i
    apply h _ _ (bs.drop (i + 1))
    rw [List.get_eq_getElem, List.cons_getElem_drop_succ, List.take_append_drop]
  · rintro h xs b ys rfl
    have here := h ⟨xs.length, by simp⟩
    simpa using here

instance (regions : List Seg) (bs : List Block) : Decidable (BasesKept regions bs) :=
  decidable_of_iff _ basesKept_iff.symm

/-- The list that the call coalesces, if any, keeps the first headers of the regions. -/
def KeepsBases (w : World) (c : Call) : Prop :=
  (∀ ptr, c = .kfree ptr → BasesKept w.regions (markFree ptr (blockList w.heap))) ∧
    ∀ r ∈ grown w.heap c.request,
      BasesKept (r :: w.regions) (insertBlock ⟨r.lo, r.hi - r.lo - 24, true⟩ (blockList w.heap))

/-- The counters agree with the live allocations. -/
structure Accounted (w : World) : Prop where
  used : w.heap.usedBytes = (w.live.map fun x => blockSize w.heap.mem (x.1 - 24)).sum
  bound : w.heap.usedBytes ≤ w.heap.totalBytes
  free : heapFreeBytes w.heap + w.heap.usedBytes = w.heap.totalBytes
  empty : w.live = [] → w.heap.usedBytes = 0

/-- Every region begins with a header. -/
structure Based (regions : List Seg) (bs : List Block) : Prop where
  header : ∀ r ∈ regions, ∃ b ∈ bs, b.addr = r.lo
  distinct : (regions.map Seg.lo).Nodup

section

variable {avail : Finset Nat} {w w' : World} {c : Call} {regions : List Seg} {bs bs' pre post : List Block} {b : Block}

/-- There are as many blocks as regions at least. -/
theorem Based.length_le (h : Based regions bs) : regions.length ≤ bs.length := by
  have sub : regions.map Seg.lo ⊆ bs.map Block.addr := fun a ha => by
    obtain ⟨r, hr, rfl⟩ := List.mem_map.1 ha
    obtain ⟨b, hb, addr⟩ := h.header r hr
    exact List.mem_map.2 ⟨b, hb, addr⟩
  have le := (h.distinct.subperm sub).length_le
  rwa [List.length_map, List.length_map] at le

/-- Lists with the same headers, and more. -/
theorem Based.mono (h : Based regions bs) (more : ∀ b ∈ bs, ∃ b' ∈ bs', b'.addr = b.addr) : Based regions bs' := by
  refine ⟨fun r hr => ?_, h.distinct⟩
  obtain ⟨b, hb, addr⟩ := h.header r hr
  obtain ⟨b', hb', addr'⟩ := more b hb
  exact ⟨b', hb', addr'.trans addr⟩

theorem Based.carved (h : Based regions (pre ++ b :: post)) (need : Nat) :
    Based regions (pre ++ carve b need ++ post) := by
  obtain ⟨rest, eq, -⟩ := carve_head b need
  refine h.mono fun c hc => ?_
  rw [eq]
  simp only [List.mem_append, List.mem_cons] at hc ⊢
  rcases hc with hc | rfl | hc
  · exact ⟨c, by simp [hc], rfl⟩
  · exact ⟨⟨c.addr, grantedSize c need, false⟩, by simp, rfl⟩
  · exact ⟨c, by simp [hc], rfl⟩

/-- Coalescing that absorbs no first header. -/
theorem Based.coalesced (h : Based regions bs) (layout : Layout regions bs) (eight : Eight bs)
    (kept : BasesKept regions bs) : Based regions (coalesce bs) := by
  refine ⟨fun r hr => ?_, h.distinct⟩
  obtain ⟨b, hb, addr⟩ := h.header r hr
  obtain ⟨xs, ys, rfl⟩ := List.append_of_mem hb
  obtain ⟨b', hb', addr', -⟩ := coalesce_survives layout eight (kept xs b ys rfl ⟨r, hr, addr.symm⟩)
  exact ⟨b', hb', addr'.trans addr⟩

theorem mem_insertBlock {x : Block} : x ∈ insertBlock b bs ↔ x = b ∨ x ∈ bs := by
  unfold insertBlock
  simp only [List.mem_append, List.mem_cons, List.mem_filter, decide_eq_true_eq]
  constructor
  · intro h
    tauto
  · intro h
    rcases h with rfl | h
    · exact .inr (.inl rfl)
    · rcases Nat.lt_or_ge x.addr b.addr with lt | le
      · exact .inl ⟨h, lt⟩
      · exact .inr (.inr ⟨h, le⟩)

theorem Based.inserted (h : Based regions bs) {region pages : Nat} (inserted : Inserted regions bs region pages) :
    Based (regionSeg region pages :: regions) (insertBlock (regionBlock region pages) bs) := by
  refine ⟨List.forall_mem_cons.2 ⟨⟨_, mem_insertBlock.2 (.inl rfl), rfl⟩, fun r hr => ?_⟩, ?_⟩
  · obtain ⟨b, hb, addr⟩ := h.header r hr
    exact ⟨b, mem_insertBlock.2 (.inr hb), addr⟩
  · refine List.nodup_cons.2 ⟨fun again => ?_, h.distinct⟩
    obtain ⟨r, hr, lo⟩ := List.mem_map.1 again
    obtain ⟨b, hb, addr⟩ := h.header r hr
    have start : b.addr = region := addr.trans lo
    -- the block of that header would come after the region's own
    have after := (List.pairwise_cons.1 (List.pairwise_append.1 inserted.layout.ordered).2.1).1 b
      (List.mem_filter.2 ⟨hb, decide_eq_true start.ge⟩)
    unfold Block.fin regionBlock at after
    dsimp only at after
    omega

/-! ## The counters -/

theorem sum_used (bs : List Block) : ((bs.filter fun b => !b.free).map Block.size).sum = usedSum bs := by
  induction bs with
  | nil => rfl
  | cons b bs ih =>
    cases free : b.free with
    | true => simp [free, ih]
    | false => simp [free, ih]

/-- The live allocations are the blocks handed out. -/
theorem HeapInv.live_perm (inv : HeapInv avail w bs) :
    (w.live.map fun x => x.1 - 24).Perm ((bs.filter fun b => !b.free).map Block.addr) := by
  refine (List.perm_ext_iff_of_nodup ?_ ?_).2 fun a => ?_
  · refine List.pairwise_map.2 (inv.distinct.imp_of_mem fun {x y} hx hy differ same => differ ?_)
    obtain ⟨b, -, -, addrX, -⟩ := inv.granted x hx
    obtain ⟨c, -, -, addrY, -⟩ := inv.granted y hy
    omega
  · refine List.pairwise_map.2 ((inv.well.layout.ordered.filter _).imp fun {b c} order same => ?_)
    unfold Block.fin at order
    omega
  · simp only [List.mem_map, List.mem_filter, Bool.not_eq_true']
    constructor
    · intro h
      obtain ⟨x, hx, rfl⟩ := h
      obtain ⟨b, hb, used, addr, -⟩ := inv.granted x hx
      exact ⟨b, ⟨hb, used⟩, by omega⟩
    · intro h
      obtain ⟨b, ⟨hb, used⟩, rfl⟩ := h
      obtain ⟨x, hx, addr⟩ := inv.owned b hb used
      exact ⟨x, hx, by omega⟩

theorem Links.sizes {m : Mem} {p q : Nat} (h : Links m p q bs) : ∀ b ∈ bs, blockSize m b.addr = b.size := by
  induction bs generalizing p with
  | nil => exact fun _ hb => nomatch hb
  | cons c bs ih =>
    obtain ⟨-, size, -, rest⟩ := h
    exact List.forall_mem_cons.2 ⟨size, ih rest⟩

/-- **The counters of a heap whose regions all begin with a header.** -/
theorem HeapInv.accounted (inv : HeapInv avail w bs) (based : Based w.regions bs) : Accounted w := by
  have sums := usedSum_length_le bs
  have span := inv.span
  have total := inv.total
  have length := based.length_le
  have bound := inv.well.layout.spanSum_le
  have used := inv.well.used
  have sum : (w.live.map fun x => blockSize w.heap.mem (x.1 - 24)).sum = usedSum bs := by
    have perm := (inv.live_perm.map (blockSize w.heap.mem)).sum_eq
    rw [List.map_map, List.map_map] at perm
    refine perm.trans ((congrArg List.sum (List.map_congr_left fun b hb => ?_)).trans (sum_used bs))
    exact inv.well.links.sizes b (List.mem_filter.1 hb).1
  have le : w.heap.usedBytes ≤ w.heap.totalBytes := by omega
  refine ⟨used.trans sum.symm, le, ?_, fun none => ?_⟩
  · rw [heapFreeBytes, sub64_of_le le (by omega)]
    omega
  · rw [used, ← sum, none]
    rfl

/-! ## Runs -/

theorem grown_page {s : Machine} {size : Nat} {r : Seg} (hr : r ∈ grown s size) :
    ∃ start pages, r = regionSeg (start * 4096) pages := by
  unfold grown at hr
  dsimp only at hr
  split_ifs at hr with none null
  · cases hr
  · cases hr
  · obtain ⟨start, -, -, -, eq⟩ := alloc_granted null
    rw [List.mem_singleton, eq] at hr
    exact ⟨start, _, hr⟩

theorem KeepsBases.keeps (kept : KeepsBases w c) : KeepsRegion w c := by
  intro r hr head run
  obtain ⟨start, pages, rfl⟩ := grown_page hr
  by_contra differ
  refine kept.2 _ hr _ ⟨_, _, true⟩ _ rfl ⟨_, List.mem_cons_self, rfl⟩ ⟨rfl, head, run, ?_⟩
  unfold regionSeg
  dsimp only
  omega

structure BasedInv (avail : Finset Nat) (w : World) (bs : List Block) : Prop where
  heap : HeapInv avail w bs
  based : Based w.regions bs

theorem BasedInv.step (zero : 0 ∉ avail) (inv : BasedInv avail w bs) (kept : KeepsBases w c) (step : HeapStep w c w') :
    ∃ bs', BasedInv avail w' bs' := by
  obtain ⟨bs', heap, change⟩ := inv.heap.step zero kept.keeps step
  have regions := step.regions_eq
  refine ⟨bs', heap, ?_⟩
  have based := inv.based
  generalize eq : w.regions = rs at change based
  generalize eq' : w'.regions = rs' at change
  cases change with
  | same => exact based
  | take => exact based.carved _
  | @grow _ _ _ pre post b region pages need inserted list =>
    have member : regionSeg region pages ∈ grown w.heap c.request := by
      rw [eq, eq'] at regions
      have one : [regionSeg region pages] = grown w.heap c.request := List.append_cancel_right regions
      rw [← one]
      exact List.mem_singleton_self _
    have block : (⟨(regionSeg region pages).lo,
        (regionSeg region pages).hi - (regionSeg region pages).lo - 24, true⟩ : Block) =
          regionBlock region pages := by
      unfold regionSeg regionBlock
      rw [Nat.add_sub_cancel_left]
    have bases := kept.2 _ member
    rw [inv.heap.well.blockList_eq, block, eq] at bases
    have put := (based.inserted inserted).coalesced inserted.layout inserted.eight bases
    rw [list] at put
    exact put.carved need
  | @free _ pre post b used =>
    have bases := kept.1 _ rfl
    rw [inv.heap.well.blockList_eq, inv.heap.markFree_eq] at bases
    subst eq
    have marked : Based w.regions (pre ++ b.freed :: post) := based.mono fun c hc => by
      simp only [List.mem_append, List.mem_cons] at hc ⊢
      rcases hc with hc | rfl | hc
      · exact ⟨c, by simp [hc], rfl⟩
      · exact ⟨c.freed, by simp, rfl⟩
      · exact ⟨c, by simp [hc], rfl⟩
    exact marked.coalesced (inv.heap.well.layout.remark true) inv.heap.eight.freed bases

end

/-- **Heap accounting.** -/
theorem heap_accounted (p : Pmm.State) (boot : Boot) (calls : List Call) (w : World)
    (run : ((heapSystem p boot).restrict KeepsBases).Run calls w) : Accounted w := by
  have start : ∀ w, ((heapSystem p boot).restrict KeepsBases).Init w →
      ∃ bs, BasedInv (freeSet (pmmInit p boot)) w bs := fun w init => by
    refine ⟨[], heapInv_start init, ?_⟩
    obtain ⟨s, rfl⟩ := init
    exact ⟨by simp, .nil⟩
  obtain ⟨bs, inv⟩ := run.invariant start fun w c w' inv step => by
    obtain ⟨bs, inv⟩ := inv
    exact inv.step (zero_not_free p boot) step.1 step.2
  exact inv.heap.accounted inv.based

section

variable {avail : Finset Nat} {s : Machine} {live : List (Nat × Nat)} {regions : List Seg} {bs : List Block}

theorem HeapInv.keepsBases_free (inv : HeapInv avail ⟨s, live, regions⟩ bs) {ptr : Nat}
    (kept : BasesKept regions (markFree ptr bs)) : KeepsBases ⟨s, live, regions⟩ (.kfree ptr) := by
  refine ⟨fun ptr' same => ?_, fun r hr => ?_⟩
  · cases same
    rw [inv.well.blockList_eq]
    exact kept
  · rw [show (Call.kfree ptr).request = 0 from rfl, grown_zero] at hr
    cases hr

theorem HeapInv.keepsBases_grown (inv : HeapInv avail ⟨s, live, regions⟩ bs) {size : Nat} {r : Seg}
    (grows : grown s size = [r]) (kept : BasesKept (r :: regions) (insertBlock ⟨r.lo, r.hi - r.lo - 24, true⟩ bs)) :
    KeepsBases ⟨s, live, regions⟩ (.kmalloc size) := by
  refine ⟨fun _ same => (nomatch same), fun r' hr => ?_⟩
  rw [show (Call.kmalloc size).request = size from rfl, grows, List.mem_singleton] at hr
  rw [hr, inv.well.blockList_eq]
  exact kept

theorem keepsBases_found {size : Nat} (stay : grown s size = []) : KeepsBases ⟨s, live, regions⟩ (.kmalloc size) := by
  refine ⟨fun _ same => (nomatch same), fun r hr => ?_⟩
  rw [show (Call.kmalloc size).request = size from rfl, stay] at hr
  cases hr

end

/-- 1040 bytes used of 8144 after a second growth, a free and a request served from the block freed. -/
theorem heap_accounted_recycled : ∃ w, Accounted w ∧ w.live = [(0x100040, 1000), (0x101018, 16), (0x100018, 16)] ∧
    w.heap.usedBytes = 1040 ∧ w.heap.totalBytes = 8144 := by
  have found : ∀ s live regions size, grown s size = [] → KeepsBases ⟨s, live, regions⟩ (.kmalloc size) :=
    fun _ _ _ _ stay => keepsBases_found stay
  have two : Reaches KeepsBases bss smallBoot _ _ _ _ := reaches_second_page found
    (fun s inv grows => inv.keepsBases_grown grows (by decide)) fun s live inv grows =>
      inv.keepsBases_grown grows (by decide)
  have freed := @Reaches.freed KeepsBases bss smallBoot _ _ _ [⟨0x100000, 16, false⟩] _ ⟨0x100028, 4032, false⟩ two
    rfl 4032 (by decide) fun s inv => inv.keepsBases_free (by decide)
  obtain ⟨h, run, inv⟩ := @Reaches.found KeepsBases bss smallBoot _ _ _ [⟨0x100000, 16, false⟩] _
    ⟨0x100028, 4032, true⟩ freed 1000 (by decide) (by decide) rfl (by decide) (by decide) fun s _ stay =>
      found s _ _ _ stay
  have total : h.totalBytes + 24 * 2 = 8192 := inv.total
  exact ⟨_, heap_accounted bss smallBoot _ _ run, rfl, inv.well.used, by dsimp only; omega⟩

/-- Two pages joined into one block of 8168 bytes, handed out again as a whole. -/
theorem reaches_joined_pages {p : Pmm.State} :
    Reaches KeepsRegion p smallBoot [.kmalloc 16, .kmalloc 4032, .kmalloc 16, .kfree 0x100040, .kfree 0x101018,
      .kfree 0x100018, .kmalloc 8160] [(0x100018, 8160)] [⟨0x101000, 0x102000⟩, ⟨0x100000, 0x101000⟩]
      [⟨0x100000, 8168, false⟩] := by
  have still : ∀ w ptr, KeepsRegion w (.kfree ptr) := fun w ptr => keepsRegion_still (grown_zero w.heap)
  have five := @Reaches.freed KeepsRegion p smallBoot _ _ _ [⟨0x100000, 16, false⟩, ⟨0x100028, 4032, true⟩] _
    ⟨0x101000, 16, false⟩ keepsRegion_recycled rfl 16 (by decide) fun s _ => still _ _
  have six := @Reaches.freed KeepsRegion p smallBoot _ _ _ [] _ ⟨0x100000, 16, false⟩ five rfl 16 (by decide)
    fun s _ => still _ _
  exact @Reaches.found KeepsRegion p smallBoot _ _ _ [] [] ⟨0x100000, 8168, true⟩ six 8160 (by decide) (by decide) rfl
    (by decide) (by decide) fun s _ stay => keepsRegion_still stay

/-- 8168 bytes used of 8144. -/
theorem used_exceeds_total : ∃ w, (heapSystem bss smallBoot).Run [.kmalloc 16, .kmalloc 4032, .kmalloc 16,
      .kfree 0x100040, .kfree 0x101018, .kfree 0x100018, .kmalloc 8160] w ∧
    w.heap.totalBytes = 8144 ∧ w.heap.usedBytes = 8168 ∧ heapFreeBytes w.heap = 2 ^ 64 - 24 ∧ ¬ Accounted w := by
  obtain ⟨s, run, inv⟩ := @reaches_joined_pages bss
  have used : s.usedBytes = 8168 := inv.well.used
  have total : s.totalBytes + 24 * 2 = 8192 := inv.total
  have free : heapFreeBytes s = 2 ^ 64 - 24 := by
    rw [heapFreeBytes, used, show s.totalBytes = 8144 by omega]
    decide
  refine ⟨_, run.unrestrict, by dsimp only; omega, used, free, fun accounted => ?_⟩
  have bound := accounted.bound
  dsimp only at bound
  omega

end SimpleKernel.Heap
