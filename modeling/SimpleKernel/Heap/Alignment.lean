import SimpleKernel.Heap.Requests

/-!
# Alignment of what the heap returns

A payload lies `sizeof(heap_block_t)`, 24 bytes, past its header, so it is aligned to 16
exactly when the header is at 8 modulo 16, and the first header of a region is at a page. The
first pointer that the heap ever returns is the payload of such a header: whatever is called,
the pointers returned are all aligned only while none is returned
(`aligned_iff_nothing_granted`).
-/

namespace SimpleKernel.Heap
set_option autoImplicit false
open Lib Pmm

/-- A call with any arguments: `kfree` may be given any pointer, and a client may store anywhere. -/
inductive WildStep : Machine → Call → Machine → Prop
  | kmalloc {s h : Machine} {size p : Nat} : kmalloc s size = some (p, h) → WildStep s (.kmalloc size) h
  | kcalloc {s h : Machine} {count size p : Nat} : kcalloc s count size = some (p, h) →
      WildStep s (.kcalloc count size) h
  | kfree {s h : Machine} {ptr : Nat} : kfree s ptr = some h → WildStep s (.kfree ptr) h
  | store {s : Machine} (m : Mem) : WildStep s .store { s with mem := m }

/-- The heap after `pmm_init` and `heap_init`, under any calls. -/
def wildSystem (p : Pmm.State) (boot : Boot) : Lts Machine Call where
  Init s := ∃ s₀, s = { heapInit s₀ with pmm := pmmInit p boot }
  Step := WildStep

/-- The pointer that the call returns. -/
def Call.returned (s : Machine) : Call → Option Nat
  | .kmalloc size => (Heap.kmalloc s size).map Prod.fst
  | .kcalloc count size => (Heap.kcalloc s count size).map Prod.fst
  | .kfree _ => none
  | .store => none

/-- If the call returns a pointer it is a multiple of `HEAP_ALIGNMENT`, null included. -/
def ReturnsAligned (s : Machine) (c : Call) : Prop := ∀ ptr, c.returned s = some ptr → ptr % heapAlignment = 0

/-- The call asks for no memory, or for more consecutive frames than `pmm_init` left free. -/
def Ungranted (p : Pmm.State) (boot : Boot) (c : Call) : Prop :=
  c.asked = 0 ∨ expandPages (alignUp c.asked) = 0 ∨ ∀ start, start + expandPages (alignUp c.asked) ≤ frameLimit →
    ¬ FreeRun (pmmInit p boot) (expandPages (alignUp c.asked)) start

/-- Nothing has been granted: the list is empty and the frames are as `pmm_init` left them. -/
structure Untouched (init : Pmm.State) (s : Machine) : Prop where
  empty : s.heapHead = 0
  frames : s.pmm = init

section

variable {p : Pmm.State} {boot : Boot} {s h : Machine} {c : Call} {calls : List Call} {size ptr : Nat}

/-- The payload of the first header of a region. -/
theorem first_payload_misaligned (start : Nat) : (start * 4096 + 24) % heapAlignment ≠ 0 := by
  unfold heapAlignment
  omega

/-! ## The first request -/

theorem findFree_empty (empty : s.heapHead = 0) (need : Nat) : findFree s.mem need walkFuel s.heapHead = some 0 := by
  obtain ⟨fuel, eq⟩ : ∃ n, walkFuel = n + 1 := ⟨2 ^ 64 - 1, by decide⟩
  rw [empty, eq, findFree]
  exact if_neg (not_not.2 rfl)

theorem represents_empty (empty : s.heapHead = 0) : Represents s [] [] :=
  ⟨empty, ⟨by simp, by simp, by simp⟩, .nil fun a => by simp⟩

/-- The first pointer is 24 bytes into a region. -/
theorem kmalloc_first (empty : s.heapHead = 0) (nonzero : size ≠ 0)
    (some' : (pmmAllocFrames s.pmm (expandPages (alignUp size))).1 ≠ 0) :
    ∃ start h, (pmmAllocFrames s.pmm (expandPages (alignUp size))).1 = start * 4096 ∧
      kmalloc s size = some (start * 4096 + 24, h) := by
  have rep := represents_empty empty
  have frames : Frames (freeSet s.pmm) s.pmm [] :=
    ⟨rep.layout.pages, fun f => by simp, fun a cover => absurd cover (by simp)⟩
  obtain ⟨region, -, h, here, run, -⟩ := kmalloc_region rep frames nonzero (findFree_empty empty (alignUp size)) some'
  obtain ⟨start, -, -, -, eq⟩ := alloc_granted some'
  have base : region = start * 4096 := by rw [← here, eq]
  exact ⟨start, h, here.trans base, base ▸ run⟩

/-- A request that the frame allocator turns down changes nothing. -/
theorem kmalloc_turned_down (empty : s.heapHead = 0) (zero : 0 ∉ freeSet s.pmm)
    (null : size = 0 ∨ (pmmAllocFrames s.pmm (expandPages (alignUp size))).1 = 0) : kmalloc s size = some (0, s) := by
  by_cases nothing : size = 0
  · rw [kmalloc, if_pos nothing]
  · have failed := null.resolve_left nothing
    rw [kmalloc_expand nothing (findFree_empty empty _), heapExpand_failed failed, alloc_failed zero failed]
    rfl

theorem kfree_untouched (empty : s.heapHead = 0) (run : kfree s ptr = some h) : h.heapHead = 0 ∧ h.pmm = s.pmm := by
  rw [kfree] at run
  by_cases null : ptr = 0
  · rw [if_pos null] at run
    cases run
    exact ⟨empty, rfl⟩
  · rw [if_neg null] at run
    dsimp only at run
    by_cases used : blockFree s.mem (sub64 ptr sizeofHeapBlock) = false
    · rw [if_pos used, heapCoalesce, Option.map_eq_some_iff] at run
      obtain ⟨m, -, rfl⟩ := run
      exact ⟨empty, rfl⟩
    · rw [if_neg used] at run
      cases run
      exact ⟨empty, rfl⟩

/-- The answer of the frame allocator on what `pmm_init` left. -/
theorem ungranted_iff : Ungranted p boot c ↔
    c.asked = 0 ∨ (pmmAllocFrames (pmmInit p boot) (expandPages (alignUp c.asked))).1 = 0 :=
  or_congr Iff.rfl ((counted_pmmInit p boot).first_fit (zero_not_free p boot) _).null.symm

/-! ## One call -/

/-- `kmalloc` on an untouched heap. -/
theorem Untouched.kmalloc (inv : Untouched (pmmInit p boot) s) (size : Nat) :
    (Ungranted p boot (.kmalloc size) ∧ kmalloc s size = some (0, s)) ∨
      (¬ Ungranted p boot (.kmalloc size) ∧ ∃ start h, Heap.kmalloc s size = some (start * 4096 + 24, h)) := by
  by_cases null : Ungranted p boot (.kmalloc size)
  · refine .inl ⟨null, kmalloc_turned_down inv.empty ?_ ?_⟩
    · rw [inv.frames]
      exact zero_not_free p boot
    · rw [inv.frames]
      exact ungranted_iff.1 null
  · have granted := mt ungranted_iff.2 null
    rw [not_or, ← inv.frames] at granted
    obtain ⟨start, h, -, call⟩ := kmalloc_first inv.empty granted.1 granted.2
    exact .inr ⟨null, start, h, call⟩

theorem Untouched.step (inv : Untouched (pmmInit p boot) s) (step : WildStep s c h) (aligned : ReturnsAligned s c) :
    Ungranted p boot c ∧ Untouched (pmmInit p boot) h := by
  cases step with
  | @kmalloc _ size ptr run =>
    rcases inv.kmalloc size with ⟨null, call⟩ | ⟨-, start, h', call⟩
    · cases call.symm.trans run
      exact ⟨null, inv⟩
    · exact absurd (aligned _ (congrArg (Option.map Prod.fst) call)) (first_payload_misaligned start)
  | @kcalloc _ count size ptr run =>
    rcases inv.kmalloc (u64 (count * size)) with ⟨null, call⟩ | ⟨-, start, h', call⟩
    · rw [kcalloc_eq, call] at run
      cases run
      exact ⟨null, inv⟩
    · have call' := kcalloc_eq s count size
      rw [call] at call'
      exact absurd (aligned _ (congrArg (Option.map Prod.fst) call')) (first_payload_misaligned start)
  | kfree run =>
    obtain ⟨empty, frames⟩ := kfree_untouched inv.empty run
    exact ⟨.inl rfl, empty, frames.trans inv.frames⟩
  | store m => exact ⟨.inl rfl, inv.empty, inv.frames⟩

/-- A call that is not granted returns nothing or the null pointer. -/
theorem Untouched.returnsAligned (inv : Untouched (pmmInit p boot) s) (null : Ungranted p boot c) :
    ReturnsAligned s c := by
  have nil : ∀ size, Ungranted p boot (.kmalloc size) → Heap.kmalloc s size = some (0, s) := fun size null =>
    (inv.kmalloc size).elim And.right fun granted => absurd null granted.1
  intro ptr returns
  cases c with
  | kmalloc size =>
    rw [Call.returned, nil size null] at returns
    cases returns
    rfl
  | kcalloc count size =>
    rw [Call.returned, kcalloc_eq, nil _ null] at returns
    cases returns
    rfl
  | kfree ptr => cases returns
  | store => cases returns

/-! ## Runs -/

theorem untouched_start (init : (wildSystem p boot).Init s) : Untouched (pmmInit p boot) s := by
  obtain ⟨s₀, rfl⟩ := init
  exact ⟨rfl, rfl⟩

/-- While every pointer is aligned nothing is granted. -/
theorem untouched_of_aligned (run : ((wildSystem p boot).restrict ReturnsAligned).Run calls s) :
    Untouched (pmmInit p boot) s ∧ ∀ c ∈ calls, Ungranted p boot c := by
  induction run with
  | start init => exact ⟨untouched_start init, by simp⟩
  | snoc _ step ih =>
    obtain ⟨inv, earlier⟩ := ih
    obtain ⟨null, inv'⟩ := inv.step step.2 step.1
    refine ⟨inv', fun c member => ?_⟩
    rcases List.mem_append.1 member with old | last
    · exact earlier c old
    · rw [List.mem_singleton.1 last]
      exact null

/-- While nothing is granted every pointer is aligned. -/
theorem aligned_of_ungranted (run : (wildSystem p boot).Run calls s) (null : ∀ c ∈ calls, Ungranted p boot c) :
    Untouched (pmmInit p boot) s ∧ ((wildSystem p boot).restrict ReturnsAligned).Run calls s := by
  induction run with
  | start init => exact ⟨untouched_start init, .start init⟩
  | snoc _ step ih =>
    obtain ⟨inv, before⟩ := ih fun c member => null c (List.mem_append_left _ member)
    have ok := inv.returnsAligned (null _ List.mem_concat_self)
    exact ⟨(inv.step step ok).2, before.snoc ⟨ok, step⟩⟩

end

theorem wildSystem_starts (p : Pmm.State) (boot : Boot) :
    ∃ s, (wildSystem p boot).Init s ∧ s.heapHead = 0 ∧ s.pmm = pmmInit p boot :=
  ⟨_, ⟨⟨fun _ => 0, 0, 0, 0, p⟩, rfl⟩, rfl, rfl⟩

/-- **When every pointer is aligned.** The runs in which every pointer returned is null or a multiple
of 16 are the runs none of whose requests is granted. -/
theorem aligned_iff_nothing_granted (p : Pmm.State) (boot : Boot) (calls : List Call) (s : Machine) :
    ((wildSystem p boot).restrict ReturnsAligned).Run calls s ↔
      (wildSystem p boot).Run calls s ∧ ∀ c ∈ calls, Ungranted p boot c := by
  constructor
  · intro run
    exact ⟨run.unrestrict, (untouched_of_aligned run).2⟩
  · intro both
    exact (aligned_of_ungranted both.1 both.2).2

/-- The first allocation on that map. -/
theorem first_pointer_misaligned : ∃ s h, (wildSystem bss smallBoot).Run [] s ∧ kmalloc s 16 = some (0x100018, h) ∧
    ¬ ReturnsAligned s (.kmalloc 16) := by
  have page : expandPages (alignUp 16) = 1 := by decide
  have first : FirstRun (pmmInit bss smallBoot) 1 0 frameLimit 256 := by
    refine .of_used (by decide) (by decide) (fun i below => smallBoot_free.2 (by omega)) fun f below member => ?_
    have := smallBoot_free.1 member
    omega
  have region : (pmmAllocFrames (pmmInit bss smallBoot) (expandPages (alignUp 16))).1 = 256 * 4096 := by
    rw [page, pmmAllocFrames_eq Nat.one_pos first]
  obtain ⟨s, init, empty, pmm⟩ := wildSystem_starts bss smallBoot
  rw [← pmm] at region
  have granted : (pmmAllocFrames s.pmm (expandPages (alignUp 16))).1 ≠ 0 := by omega
  obtain ⟨start, h, base, call⟩ := kmalloc_first empty (by decide) granted
  have frame : start * 4096 = 256 * 4096 := base.symm.trans region
  rw [frame] at call
  refine ⟨s, h, .start init, call, fun aligned => ?_⟩
  exact first_payload_misaligned 256 (aligned _ (congrArg (Option.map Prod.fst) call))

end SimpleKernel.Heap
