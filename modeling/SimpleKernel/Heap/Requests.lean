import SimpleKernel.Heap.Isolation

/-!
# What a request gets

`kmalloc` takes any 64-bit size, and what it asks of `heap_expand` and of
`heap_split_block` is computed modulo `2 ^ 64`. Up to 1 GiB nothing wraps and the block is
large enough, also when its region is absorbed. Above that no block fits and no run of
frames is long enough, until the last 31 sizes: their sums wrap to one page, or to no bytes
at all, and the request is granted (`requests_sufficient`, `wrapped_request_granted`).
-/

namespace SimpleKernel.Heap
set_option autoImplicit false
open Lib Pmm

/-- `kmalloc(size)` returns, and a pointer that is not null has a block of at least `size`
bytes behind it and `size` bytes in frames of the heap before it. -/
def Sufficient (w : World) (size : Nat) : Prop :=
  ∃ p h, kmalloc w.heap size = some (p, h) ∧
    (p ≠ 0 → size ≤ blockSize h.mem (sub64 p sizeofHeapBlock) ∧
      ∀ a, p ≤ a → a < p + size → Cover (grown w.heap size ++ w.regions) a)

/-- The size is below the last 31, or there is nothing to grant by mistake: no frame is left
and, for the last 15, no free block is listed. -/
def NoWrap (w : World) (size : Nat) : Prop :=
  size < 2 ^ 64 - 31 ∨
    (freeSet w.heap.pmm = ∅ ∧ (size < 2 ^ 64 - 15 ∨ ∀ b ∈ blockList w.heap, b.free = false))

/-! ## The system -/

/-- The bytes that a call asks of `kmalloc`. -/
def Call.asked : Call → Nat
  | .kmalloc size => size
  | .kcalloc count size => u64 (count * size)
  | .kfree _ => 0
  | .store => 0

/-- One call with any 64-bit arguments, `kfree` of a live pointer, or a store of a client. -/
inductive RequestStep : World → Call → World → Prop
  | kmalloc {w : World} {size p : Nat} {h : Machine} : size < 2 ^ 64 → kmalloc w.heap size = some (p, h) →
      RequestStep w (.kmalloc size) (w.granted size p h)
  | kcalloc {w : World} {count size p : Nat} {h : Machine} : count < 2 ^ 64 → size < 2 ^ 64 →
      kcalloc w.heap count size = some (p, h) →
      RequestStep w (.kcalloc count size) (w.granted (u64 (count * size)) p h)
  | kfree {w : World} {x : Nat × Nat} {h : Machine} : x ∈ w.live → kfree w.heap x.1 = some h →
      RequestStep w (.kfree x.1) ⟨h, w.live.filter (fun y => decide (y.1 ≠ x.1)), w.regions⟩
  | store {w : World} {m : Mem} : SameOutside (Payload w.live) w.heap.mem m →
      RequestStep w .store { w with heap := { w.heap with mem := m } }

/-- The heap after `pmm_init` and `heap_init`, under calls with any arguments. -/
def requestSystem (p : Pmm.State) (boot : Boot) : Lts World Call where
  Init := (heapSystem p boot).Init
  Step := RequestStep

/-- The call asks for no size that wraps, and keeps the regions apart. -/
def Sound (w : World) (c : Call) : Prop := NoWrap w c.asked ∧ KeepsRegion w (.kmalloc c.asked)

/-! ## Large requests -/

/-- Above 1 GiB and below the last sizes `heap_expand` asks for no frames or for more than
there are. -/
theorem expandPages_large {size : Nat} (large : 2 ^ 30 < size) (below : size < 2 ^ 64 - 31) :
    expandPages (alignUp size) = 0 ∨ frameLimit < expandPages (alignUp size) := by
  have need : alignUp size = (size + 15) / 16 * 16 := alignUp_of_lt (by omega)
  have rounded := alignUp_mod size
  unfold expandPages
  generalize alignUp size = a at *
  rw [frameLimit_eq, sizeofHeapBlock_eq, heapPageSize_eq, u64_of_lt (n := a + 24) (by omega), alignUp_eq]
  unfold u64
  omega

/-- A run that is empty or longer than memory is not found. -/
theorem alloc_refused {p : Pmm.State} {count : Nat} (none : count = 0 ∨ frameLimit < count) :
    (pmmAllocFrames p count).1 = 0 := by
  by_contra granted
  obtain ⟨start, positive, -, run, -⟩ := alloc_granted granted
  have := run.upper
  omega

/-- Without a free frame there is no run. -/
theorem alloc_exhausted {p : Pmm.State} (none : freeSet p = ∅) (count : Nat) : (pmmAllocFrames p count).1 = 0 := by
  by_contra granted
  obtain ⟨start, positive, -, run, -⟩ := alloc_granted granted
  have member := run.free.mem_freeSet run.upper le_rfl (by omega)
  rw [none] at member
  exact Finset.notMem_empty _ member

/-- With a free frame a page is found. -/
theorem alloc_page {p : Pmm.State} (some' : freeSet p ≠ ∅) (zero : 0 ∉ freeSet p) : (pmmAllocFrames p 1).1 ≠ 0 := by
  intro failed
  rcases pmmAllocFrames_cases p 1 with ⟨-, none | none⟩ | ⟨start, -, first, eq⟩
  · cases none
  · obtain ⟨f, member⟩ := Finset.nonempty_iff_ne_empty.2 some'
    rw [mem_freeSet, pmmMaxFrames_eq] at member
    apply none f
    · rw [frameLimit_eq]
      omega
    · intro i hi
      rw [show f + i = f by omega]
      exact member.2
  · have member := first.free.mem_freeSet first.upper (f := start) le_rfl (by omega)
    rw [eq] at failed
    dsimp only at failed
    rw [show start = 0 by omega] at member
    exact zero member

/-- The last sizes are rounded to `2 ^ 64 - 16` or to `0`, and `heap_expand` asks for a page. -/
theorem alignUp_last {size : Nat} (wraps : 2 ^ 64 - 31 ≤ size) (small : size < 2 ^ 64) :
    (alignUp size = if size < 2 ^ 64 - 15 then 2 ^ 64 - 16 else 0) ∧ expandPages (alignUp size) = 1 := by
  have rounded : alignUp size = if size < 2 ^ 64 - 15 then 2 ^ 64 - 16 else 0 := by
    rw [alignUp_eq]
    unfold u64
    split <;> omega
  constructor
  · exact rounded
  · rw [rounded]
    split <;> decide

theorem Pages.cover_lt {regions : List Seg} (h : Pages regions) {a : Nat} (cover : Cover regions a) : a < 2 ^ 30 := by
  obtain ⟨r, hr, -, hi⟩ := cover
  have := h.bound r hr
  omega

section

variable {avail : Finset Nat} {w : World} {bs : List Block} {size : Nat}

theorem HeapInv.pages_grown (inv : HeapInv avail w bs) : Pages (grown w.heap size ++ w.regions) := by
  unfold grown
  split
  · exact inv.frames.pages
  · dsimp only
    split
    · exact inv.frames.pages
    · rename_i some'
      exact (inv.frames.granted some').1

/-- No memory is as large as what was asked for. -/
theorem HeapInv.insufficient (inv : HeapInv avail w bs) (large : 2 ^ 30 < size) {p : Nat} {h : Machine}
    (run : kmalloc w.heap size = some (p, h)) (some' : p ≠ 0) : ¬ Sufficient w size := by
  intro enough
  obtain ⟨p', h', run', granted⟩ := enough
  rw [run] at run'
  cases run'
  have last := (granted some').2 (p + size - 1) (by omega) (by omega)
  have := inv.pages_grown.cover_lt last
  omega

theorem HeapInv.missing_large (inv : HeapInv avail w bs) (large : 2 ^ 30 < size) (below : size < 2 ^ 64 - 15) :
    bs.find? (fits (alignUp size)) = none := by
  apply List.find?_eq_none.2
  intro b hb hit
  have fin := inv.well.layout.fin_le hb
  have need : alignUp size = (size + 15) / 16 * 16 := alignUp_of_lt (by omega)
  unfold fits at hit
  rw [Bool.and_eq_true, decide_eq_true_eq] at hit
  unfold Block.fin at fin
  omega

/-- Requests of more than 1 GiB that do not wrap are refused, and nothing changes. -/
theorem HeapInv.refused (zero : 0 ∉ avail) (inv : HeapInv avail w bs) (large : 2 ^ 30 < size) (sound : NoWrap w size) :
    kmalloc w.heap size = some (0, w.heap) ∧ grown w.heap size = [] := by
  rcases sound with below | ⟨none, below | used⟩
  · exact inv.request_failed zero (inv.missing_large large (by omega)) (alloc_refused (expandPages_large large below))
  · exact inv.request_failed zero (inv.missing_large large below) (alloc_exhausted none _)
  · apply inv.request_failed zero ?_ (alloc_exhausted none _)
    rw [inv.well.blockList_eq] at used
    apply List.find?_eq_none.2
    intro b hb
    simp [fits, used b hb]

/-! ## Requests that are granted -/

/-- What the invariant says of an allocation just made. -/
theorem HeapInv.grant {p : Nat} {h : Machine} (inv : HeapInv avail (w.granted size p h) bs) (some' : p ≠ 0) :
    size ≤ blockSize h.mem (sub64 p sizeofHeapBlock) ∧
      ∀ a, p ≤ a → a < p + size → Cover (grown w.heap size ++ w.regions) a := by
  have live : (p, size) ∈ (w.granted size p h).live := by
    rw [World.granted, if_neg some']
    exact List.mem_cons_self
  constructor
  · obtain ⟨b, hb, -, addr, fit⟩ := inv.granted _ live
    have fin := inv.well.layout.fin_le hb
    obtain ⟨pre, post, rfl⟩ := List.append_of_mem hb
    obtain ⟨-, header, -, -⟩ := links_middle.1 inv.well.links
    have block : sub64 p sizeofHeapBlock = b.addr := by
      unfold Block.fin at fin
      dsimp only at addr
      rw [sizeofHeapBlock_eq, addr, sub64_of_le (by omega) (by omega)]
      omega
    rw [block]
    exact fit.trans header.ge
  · intro a lo hi
    exact inv.payload_cover ⟨_, live, lo, hi⟩

/-- A request for which the heap grows, whether or not the region is absorbed: the header that
`heap_expand` wrote at the region still has its size when the block is split. -/
theorem kmalloc_region {s : Machine} {regions : List Seg} (rep : Represents s regions bs)
    (frames : Frames avail s.pmm regions) (nonzero : size ≠ 0)
    (search : findFree s.mem (alignUp size) walkFuel s.heapHead = some 0)
    (some' : (pmmAllocFrames s.pmm (expandPages (alignUp size))).1 ≠ 0) :
    ∃ region room h, (pmmAllocFrames s.pmm (expandPages (alignUp size))).1 = region ∧
      kmalloc s size = some (region + 24, h) ∧
      region + expandPages (alignUp size) * 4096 ≤ 2 ^ 30 ∧ expandPages (alignUp size) * 4096 - 24 ≤ room ∧
      (alignUp size ≤ expandPages (alignUp size) * 4096 - 24 →
        blockSize h.mem region = grantedSize ⟨region, room, true⟩ (alignUp size)) := by
  have call := kmalloc_expand nonzero search
  obtain ⟨start, positive, -⟩ := alloc_granted some'
  obtain ⟨pages, apart, -⟩ := frames.granted some'
  have got : pmmAllocFrames s.pmm (expandPages (alignUp size)) =
    ((pmmAllocFrames s.pmm (expandPages (alignUp size))).1, _) := rfl
  obtain ⟨m, head, expand, -, -, -, room⟩ := heapExpand_spec rep got some' positive pages apart
  rw [expand] at call
  dsimp only at call
  rw [if_neg some'] at call
  clear got expand
  generalize (pmmAllocFrames s.pmm (expandPages (alignUp size))).1 = region at *
  have inside : region + expandPages (alignUp size) * 4096 ≤ 2 ^ 30 := pages.bound _ List.mem_cons_self
  refine ⟨region, blockSize m region, _, rfl, call.trans (congrArg some (Prod.ext ?_ rfl)), inside,
    room.1, fun fit => ?_⟩
  · show u64 (region + sizeofHeapBlock) = region + 24
    rw [sizeofHeapBlock_eq, u64_of_lt (by omega)]
  · exact @takeMem_size m ⟨region, blockSize m region, true⟩ (alignUp size) rfl room.2 (fit.trans room.1)
      (alignUp_mod size)

theorem HeapInv.kmalloc_expanded (inv : HeapInv avail w bs) (nonzero : size ≠ 0)
    (missing : bs.find? (fits (alignUp size)) = none)
    (some' : (pmmAllocFrames w.heap.pmm (expandPages (alignUp size))).1 ≠ 0) :
    ∃ region room h, (pmmAllocFrames w.heap.pmm (expandPages (alignUp size))).1 = region ∧
      kmalloc w.heap size = some (region + 24, h) ∧
      grown w.heap size = [regionSeg region (expandPages (alignUp size))] ∧
      region + expandPages (alignUp size) * 4096 ≤ 2 ^ 30 ∧
      expandPages (alignUp size) * 4096 - 24 ≤ room ∧
      (alignUp size ≤ expandPages (alignUp size) * 4096 - 24 →
        blockSize h.mem region = grantedSize ⟨region, room, true⟩ (alignUp size)) := by
  have search := inv.well.missing missing
  have grows := grown_expand nonzero search
  rw [if_neg some'] at grows
  obtain ⟨region, room, h, here, run, rest⟩ := kmalloc_region inv.well.toRepresents inv.frames nonzero search some'
  exact ⟨region, room, h, here, run, here ▸ grows, rest⟩

/-- **Up to 1 GiB** a request gets what it asks for. -/
theorem HeapInv.sufficient (zero : 0 ∉ avail) (inv : HeapInv avail w bs) (small : size ≤ 2 ^ 30) :
    Sufficient w size := by
  by_cases empty : size = 0
  · exact ⟨0, w.heap, by rw [kmalloc, if_pos empty], fun ne => absurd rfl ne⟩
  · cases found : bs.find? (fits (alignUp size)) with
    | some b =>
      obtain ⟨pre, post, rfl, free, fit, before⟩ := find_split found
      obtain ⟨h, run, world, inv'⟩ := inv.request_found empty small free fit before
      rw [← world] at inv'
      exact ⟨_, h, run, inv'.grant⟩
    | none =>
      by_cases failed : (pmmAllocFrames w.heap.pmm (expandPages (alignUp size))).1 = 0
      · exact ⟨0, w.heap, (inv.request_failed zero found failed).1, fun ne => absurd rfl ne⟩
      · obtain ⟨region, room, h, -, run, grows, inside, enough, header⟩ := inv.kmalloc_expanded empty found failed
        have covers : size ≤ alignUp size ∧ alignUp size ≤ 2 ^ 30 := by
          rw [alignUp_of_lt (by omega)]
          omega
        obtain ⟨-, pages⟩ := expandPages_spec covers.2
        refine ⟨region + 24, h, run, fun _ => ⟨?_, fun a lo hi => ?_⟩⟩
        · rw [sizeofHeapBlock_eq, sub64_of_le (by omega) (by omega), Nat.add_sub_cancel, header (by omega)]
          unfold grantedSize
          dsimp only
          split <;> omega
        · rw [grows, List.singleton_append, cover_cons]
          left
          unfold Seg.Has regionSeg
          dsimp only
          omega

theorem HeapInv.zero_used (zero : 0 ∉ avail) (inv : HeapInv avail w bs) : 0 ∉ freeSet w.heap.pmm :=
  fun member => zero ((inv.frames.free 0).1 member).1

/-- A request of any size for which there is a block or a run of frames is granted something. -/
theorem HeapInv.not_null (inv : HeapInv avail w bs) (nonzero : size ≠ 0)
    (served : bs.find? (fits (alignUp size)) = none → (pmmAllocFrames w.heap.pmm (expandPages (alignUp size))).1 ≠ 0) :
    ∃ p h, kmalloc w.heap size = some (p, h) ∧ p ≠ 0 := by
  cases found : bs.find? (fits (alignUp size)) with
  | some b =>
    obtain ⟨pre, post, rfl, free, fit, before⟩ := find_split found
    obtain ⟨h, run, -⟩ := kmalloc_found inv.well nonzero free fit before
    exact ⟨b.addr + 24, h, run, Nat.succ_ne_zero _⟩
  | none =>
    obtain ⟨region, room, h, -, run, -⟩ := inv.kmalloc_expanded nonzero found (served found)
    exact ⟨region + 24, h, run, Nat.succ_ne_zero _⟩

/-- A size that wraps is granted when there is a block to grant. -/
theorem HeapInv.wraps (zero : 0 ∉ avail) (inv : HeapInv avail w bs) (small : size < 2 ^ 64) (wraps : ¬ NoWrap w size) :
    ∃ p h, kmalloc w.heap size = some (p, h) ∧ p ≠ 0 := by
  unfold NoWrap at wraps
  obtain ⟨last, some'⟩ := not_or.1 wraps
  obtain ⟨rounded, page⟩ := alignUp_last (Nat.not_lt.1 last) small
  apply inv.not_null (by omega)
  intro missing
  rw [page]
  apply alloc_page ?_ (inv.zero_used zero)
  intro none
  apply some' ⟨none, ?_⟩
  by_cases below : size < 2 ^ 64 - 15
  · exact .inl below
  · right
    rw [if_neg below] at rounded
    rw [inv.well.blockList_eq]
    intro b hb
    have miss := List.find?_eq_none.1 missing b hb
    rw [rounded] at miss
    simpa [fits] using miss

/-- **Exactly the sizes that do not wrap** get what they ask for. -/
theorem HeapInv.sufficient_iff (zero : 0 ∉ avail) (inv : HeapInv avail w bs) (small : size < 2 ^ 64) :
    Sufficient w size ↔ NoWrap w size := by
  by_cases large : 2 ^ 30 < size
  · constructor
    · intro enough
      by_contra wraps
      obtain ⟨p, h, run, some'⟩ := inv.wraps zero small wraps
      exact inv.insufficient large run some' enough
    · intro sound
      exact ⟨0, w.heap, (inv.refused zero large sound).1, fun ne => absurd rfl ne⟩
  · constructor
    · exact fun _ => .inl (by omega)
    · exact fun _ => inv.sufficient zero (by omega)

/-! ## Runs -/

theorem HeapInv.sound_request (zero : 0 ∉ avail) (inv : HeapInv avail w bs) (sound : NoWrap w size)
    (keeps : KeepsRegion w (.kmalloc size)) :
    ∃ p h bs', kmalloc w.heap size = some (p, h) ∧ HeapInv avail (w.granted size p h) bs' := by
  by_cases large : 2 ^ 30 < size
  · obtain ⟨run, stay⟩ := inv.refused zero large sound
    exact ⟨0, w.heap, bs, run, (World.granted_null stay).symm ▸ inv⟩
  · have fits : size ≤ 2 ^ 30 := by omega
    obtain ⟨p, h, bs', run, inv', -⟩ := inv.request zero fits keeps
    exact ⟨p, h, bs', run, inv'⟩

/-- **The step lemma**, for calls with any arguments. -/
theorem HeapInv.sound_step (zero : 0 ∉ avail) (inv : HeapInv avail w bs) {c : Call} {w' : World} (sound : Sound w c)
    (step : RequestStep w c w') : ∃ bs', HeapInv avail w' bs' := by
  obtain ⟨noWrap, keeps⟩ := sound
  cases step with
  | @kmalloc size _ _ _ run =>
    obtain ⟨p, h, bs', run', inv'⟩ := @HeapInv.sound_request avail w bs size zero inv noWrap keeps
    rw [run'] at run
    cases run
    exact ⟨bs', inv'⟩
  | @kcalloc count size _ _ _ _ run =>
    obtain ⟨p, h, bs', run', inv'⟩ := @HeapInv.sound_request avail w bs (u64 (count * size)) zero inv noWrap keeps
    rw [kcalloc_eq, run'] at run
    cases run
    exact ⟨bs', inv'.cleared⟩
  | kfree live run =>
    obtain ⟨bs', inv', -⟩ := inv.release live run
    exact ⟨bs', inv'⟩
  | store same => exact ⟨bs, inv.store same⟩

end

theorem heapInv_sound {p : Pmm.State} {boot : Boot} {calls : List Call} {w : World}
    (run : ((requestSystem p boot).restrict Sound).Run calls w) : ∃ bs, HeapInv (freeSet (pmmInit p boot)) w bs := by
  apply run.invariant
  · exact fun w init => ⟨[], heapInv_start init⟩
  · intro w c w' inv step
    obtain ⟨bs, inv⟩ := inv
    exact inv.sound_step (zero_not_free p boot) step.1 step.2

/-- **What a request gets.** In every state that calls without a wrapping size reach, a
request of any size gets what it asks for exactly when its size does not wrap. -/
theorem requests_sufficient (p : Pmm.State) (boot : Boot) (calls : List Call) (w : World)
    (run : ((requestSystem p boot).restrict Sound).Run calls w) (size : Nat) (small : size < 2 ^ 64) :
    Sufficient w size ↔ NoWrap w size := by
  obtain ⟨bs, inv⟩ := heapInv_sound run
  exact inv.sufficient_iff (zero_not_free p boot) small

theorem sound_nothing {w : World} {c : Call} (nothing : c.asked = 0) : Sound w c := by
  unfold Sound
  rw [nothing]
  exact ⟨.inl (by decide), keepsRegion_still (grown_zero _)⟩

/-- The calls of such a run are sound requests. -/
theorem Reaches.sound {p : Pmm.State} {boot : Boot} {calls : List Call} {live : List (Nat × Nat)} {regions : List Seg}
    {bs : List Block} (h : Reaches KeepsRegion p boot calls live regions bs)
    (plain : ∀ c ∈ calls, ∀ count size, c ≠ .kcalloc count size) :
    ∃ s, ((requestSystem p boot).restrict Sound).Run calls ⟨s, live, regions⟩ ∧
      HeapInv (freeSet (pmmInit p boot)) ⟨s, live, regions⟩ bs := by
  obtain ⟨s, run, inv⟩ := h
  have step : ∀ w c w', ((∀ count size, c ≠ .kcalloc count size) ∧ KeepsRegion w c ∧ HeapStep w c w') →
      Sound w c ∧ RequestStep w c w' := fun w c w' step => by
    obtain ⟨plain, keeps, step⟩ := step
    cases step with
    | kmalloc small run =>
      refine ⟨⟨.inl ?_, keeps⟩, .kmalloc (by omega) run⟩
      dsimp only [Call.asked]
      omega
    | kcalloc => exact absurd rfl (plain _ _)
    | kfree live run => exact ⟨sound_nothing rfl, .kfree live run⟩
    | store same => exact ⟨sound_nothing rfl, .store same⟩
  obtain ⟨w, run', rfl⟩ := (run.restricted plain).simulated (T := (requestSystem p boot).restrict Sound) (R := Eq)
    (fun w init => by exact ⟨w, init, rfl⟩) fun w c w' t same taken => by
      subst same
      exact ⟨w', step w c w' taken, rfl⟩
  exact ⟨s, run', inv⟩

/-- A request that the freed block serves whole, one that grows the heap and one that is refused. -/
theorem requests_sufficient_recycled : ∃ w, ((requestSystem bss smallBoot).restrict Sound).Run
      [.kmalloc 16, .kmalloc 4032, .kmalloc 16, .kfree 0x100040] w ∧
    w.live = [(0x101018, 16), (0x100018, 16)] ∧ Sufficient w 4032 ∧ Sufficient w 5000 ∧ Sufficient w (2 ^ 64 - 32) := by
  obtain ⟨s, run, -⟩ := Reaches.sound (p := bss) keepsRegion_recycled (by simp)
  have enough : ∀ size, size < 2 ^ 64 - 31 → Sufficient _ size := fun size small =>
    (requests_sufficient bss smallBoot _ _ run size (by omega)).2 (.inl small)
  exact ⟨_, run, rfl, enough _ (by decide), enough _ (by decide), enough _ (by decide)⟩

/-- The heap as `heap_init` leaves it on that map. -/
theorem smallBoot_start : ∃ w, ((requestSystem bss smallBoot).restrict Sound).Run [] w ∧
    w.regions = [] ∧ HeapInv (freeSet (pmmInit bss smallBoot)) w [] := by
  have init : (heapSystem bss smallBoot).Init _ := ⟨⟨fun _ => 0, 0, 0, 0, bss⟩, rfl⟩
  exact ⟨_, .start init, rfl, heapInv_start init⟩

/-- The first page that the frame allocator hands out on that map. -/
theorem smallBoot_page {w : World} {bs : List Block} (inv : HeapInv (freeSet (pmmInit bss smallBoot)) w bs)
    (none : w.regions = []) : (pmmAllocFrames w.heap.pmm 1).1 = 256 * 4096 := by
  apply inv.frames.next (by decide) (by decide)
  · intro i hi
    rw [none, cover_nil]
    exact ⟨smallBoot_free.2 (by omega), id⟩
  · intro f below member
    have := smallBoot_free.1 member
    omega

/-- On a fresh heap `kmalloc(2 ^ 64 - 1)` returns the payload of a block of no bytes. -/
theorem wrapped_request_granted : ∃ w, (requestSystem bss smallBoot).Run [] w ∧
    (∃ h, kmalloc w.heap (2 ^ 64 - 1) = some (0x100018, h) ∧ blockSize h.mem 0x100000 = 0) ∧
    ¬ Sufficient w (2 ^ 64 - 1) := by
  obtain ⟨w, run, none, inv⟩ := smallBoot_start
  have rounded : alignUp (2 ^ 64 - 1) = 0 := by decide
  have page : expandPages 0 = 1 := by decide
  have base : (pmmAllocFrames w.heap.pmm (expandPages (alignUp (2 ^ 64 - 1)))).1 = 256 * 4096 := by
    rw [rounded, page]
    exact smallBoot_page inv none
  obtain ⟨region, room, h, here, call, -, -, enough, header⟩ :=
    @HeapInv.kmalloc_expanded _ w _ (2 ^ 64 - 1) inv (by decide) rfl (by rw [base]; decide)
  rw [base] at here
  subst here
  rw [rounded, page] at enough header
  refine ⟨w, run.unrestrict, ⟨h, call, ?_⟩, inv.insufficient (by decide) call (by decide)⟩
  rw [header (Nat.zero_le _)]
  unfold grantedSize
  dsimp only
  rw [if_neg (by omega)]

end SimpleKernel.Heap
