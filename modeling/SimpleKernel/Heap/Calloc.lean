import SimpleKernel.Heap.Requests

/-!
# What `kcalloc` clears

`kcalloc` multiplies in `size_t` and asks `kmalloc` for the product modulo `2 ^ 64`. While the
product does not wrap the block has it and all of it is cleared, whatever the block held before.
A product that wraps is a smaller request: it is harmless only where that one is refused
(`kcalloc_cleared_iff`, `wrapped_product_granted`).
-/

namespace SimpleKernel.Heap
set_option autoImplicit false
open Lib Pmm Kstring

/-- `kcalloc(count, size)` returns, and a pointer that is not null has a block of at least
`count * size` bytes behind it and that many zero bytes in frames of the heap before it. -/
def Cleared (w : World) (count size : Nat) : Prop :=
  ∃ p h, kcalloc w.heap count size = some (p, h) ∧
    (p ≠ 0 → count * size ≤ blockSize h.mem (sub64 p sizeofHeapBlock) ∧
      ∀ a, p ≤ a → a < p + count * size → h.mem a = 0 ∧ Cover (grown w.heap (u64 (count * size)) ++ w.regions) a)

/-- A request for `size` bytes is turned down: for none, or with no free block that has them on the
list and no run of frames that has them. -/
def Refused (w : World) (size : Nat) : Prop :=
  size = 0 ∨ (∀ b ∈ blockList w.heap, b.free = true → b.size < alignUp size) ∧
    (expandPages (alignUp size) = 0 ∨ ∀ start, start + expandPages (alignUp size) ≤ frameLimit →
      ¬ FreeRun w.heap.pmm (expandPages (alignUp size)) start)

section

variable {avail : Finset Nat} {w : World} {bs : List Block} {count size : Nat}

/-! ## Requests that are turned down -/

theorem HeapInv.missing_iff (inv : HeapInv avail w bs) :
    bs.find? (fits (alignUp size)) = none ↔ ∀ b ∈ blockList w.heap, b.free = true → b.size < alignUp size := by
  rw [inv.well.blockList_eq, List.find?_eq_none]
  refine forall₂_congr fun b _ => ?_
  rw [fits, Bool.and_eq_true, decide_eq_true_eq, not_and, Nat.not_le]

theorem HeapInv.turned_down (zero : 0 ∉ avail) (inv : HeapInv avail w bs) (refused : Refused w size) :
    kmalloc w.heap size = some (0, w.heap) := by
  rcases refused with nothing | ⟨missing, noRun⟩
  · rw [kmalloc, if_pos nothing]
  · exact (inv.request_failed zero (inv.missing_iff.2 missing) ((alloc_null_iff (inv.zero_used zero) _).2 noRun)).1

theorem HeapInv.not_refused (zero : 0 ∉ avail) (inv : HeapInv avail w bs) (granted : ¬ Refused w size) :
    ∃ p h, kmalloc w.heap size = some (p, h) ∧ p ≠ 0 := by
  unfold Refused at granted
  rw [not_or, not_and_or, ← inv.missing_iff, ← alloc_null_iff (inv.zero_used zero)] at granted
  obtain ⟨nonzero, some'⟩ := granted
  apply inv.not_null nonzero
  intro missing
  exact some'.resolve_left (not_not.2 missing)

/-! ## Clearing -/

/-- Clearing the payload leaves the header before it alone. -/
theorem blockSize_cleared {h : Machine} {p total : Nat} (room : 24 ≤ p) (small : p < 2 ^ 64) :
    blockSize (cleared total p h).mem (sub64 p sizeofHeapBlock) = blockSize h.mem (sub64 p sizeofHeapBlock) := by
  have header : sub64 p sizeofHeapBlock = p - 24 := sub64_of_le room small
  have same : SameOutside (fun a => p ≤ a ∧ a < p + total) h.mem (cleared total p h).mem := fun a out => by
    rw [cleared, if_pos (by omega)]
    dsimp only
    rw [kmemset_eq_fill, fill_out out]
  rw [header]
  refine (header_congr same fun a ha => ?_).1
  unfold headerBytes at ha
  omega

theorem cleared_zero {h : Machine} {p total a : Nat} (some' : p ≠ 0) (lo : p ≤ a) (hi : a < p + total) :
    (cleared total p h).mem a = 0 := by
  rw [cleared, if_pos some']
  dsimp only
  rw [kmemset_eq_fill, fill_in ⟨lo, hi⟩]

/-- A product that `kmalloc` serves in full is cleared in full. -/
theorem HeapInv.cleared_of_sufficient (inv : HeapInv avail w bs) (exact' : count * size < 2 ^ 64)
    (enough : Sufficient w (count * size)) : Cleared w count size := by
  obtain ⟨p, h, run, granted⟩ := enough
  have call := kcalloc_eq w.heap count size
  rw [u64_of_lt exact', run] at call
  refine ⟨p, Heap.cleared (count * size) p h, call, fun some' => ?_⟩
  obtain ⟨block, inside⟩ := granted some'
  have positive : count * size ≠ 0 := by
    intro none
    rw [none, kmalloc, if_pos rfl] at run
    cases run
    exact some' rfl
  have pages : Pages (grown w.heap (count * size) ++ w.regions) := inv.pages_grown
  obtain ⟨r, hr, lo, hi⟩ := inside p (Nat.le_refl p) (by omega)
  obtain ⟨k, multiple⟩ := (pages.aligned r hr).1
  have base := pages.positive r hr
  have bound := pages.bound r hr
  refine ⟨?_, fun a lo hi => ⟨cleared_zero some' lo hi, ?_⟩⟩
  · rw [blockSize_cleared (by omega) (by omega)]
    exact block
  · rw [u64_of_lt exact']
    exact inside a lo hi

/-- **When the whole product is granted and cleared.** -/
theorem HeapInv.cleared_iff (zero : 0 ∉ avail) (inv : HeapInv avail w bs) :
    Cleared w count size ↔ count * size < 2 ^ 64 - 31 ∨ Refused w (u64 (count * size)) := by
  constructor
  · intro all
    by_contra wraps
    obtain ⟨large, granted⟩ := not_or.1 wraps
    obtain ⟨p, h, run, some'⟩ := inv.not_refused zero granted
    have call := kcalloc_eq w.heap count size
    rw [run] at call
    obtain ⟨p', h', call', zeroed⟩ := all
    cases call.symm.trans call'
    -- no frame is as far from `p` as the last byte asked for
    obtain ⟨-, far⟩ := (zeroed some').2 (p + 2 ^ 30) (by omega) (by omega)
    have := inv.pages_grown.cover_lt far
    omega
  · intro cond
    rcases cond with fits | refused
    · refine inv.cleared_of_sufficient (by omega) ?_
      exact (inv.sufficient_iff zero (by omega)).2 (.inl fits)
    · have call := kcalloc_eq w.heap count size
      rw [inv.turned_down zero refused] at call
      exact ⟨0, _, call, fun some' => absurd rfl some'⟩

end

/-- **What `kcalloc` clears.** In every state that calls without a wrapping request reach, of any
64-bit factors. -/
theorem kcalloc_cleared_iff (p : Pmm.State) (boot : Boot) (calls : List Call) (w : World)
    (run : ((requestSystem p boot).restrict Sound).Run calls w) (count size : Nat) :
    Cleared w count size ↔ count * size < 2 ^ 64 - 31 ∨ Refused w (u64 (count * size)) := by
  obtain ⟨bs, inv⟩ := heapInv_sound run
  exact inv.cleared_iff (zero_not_free p boot)

/-- A block that its owner fills with `0xAB` and frees. -/
theorem dirty_block_freed : ∃ s, ((requestSystem bss smallBoot).restrict Sound).Run
      [.kmalloc 16, .kmalloc 4032, .kmalloc 16, .store, .kfree 0x100040]
      ⟨s, [(0x101018, 16), (0x100018, 16)], [⟨0x101000, 0x102000⟩, ⟨0x100000, 0x101000⟩]⟩ ∧
    HeapInv (freeSet (pmmInit bss smallBoot))
      ⟨s, [(0x101018, 16), (0x100018, 16)], [⟨0x101000, 0x102000⟩, ⟨0x100000, 0x101000⟩]⟩
      [⟨0x100000, 16, false⟩, ⟨0x100028, 4032, true⟩, ⟨0x101000, 16, false⟩, ⟨0x101028, 4032, true⟩] ∧
    ∀ a, 0x100040 ≤ a → a < 0x101000 → s.mem a = 0xAB := by
  obtain ⟨s, run, inv⟩ := Reaches.sound (p := bss) keepsRegion_second_page (by simp)
  obtain ⟨m, hm⟩ : ∃ m : Mem, ∀ a, m a = if 0x100040 ≤ a ∧ a < 0x101000 then 0xAB else s.mem a := ⟨_, fun _ => rfl⟩
  have same : SameOutside (Payload [(0x101018, 16), (0x100040, 4032), (0x100018, 16)]) s.mem m := fun a out => by
    rw [hm, if_neg fun inside => out ⟨(0x100040, 4032), by simp, inside.1, inside.2⟩]
  have stored := inv.store same
  obtain ⟨s', call, well, -, pmm, total, keeps, -⟩ :=
    @kfree_live _ _ [⟨0x100000, 16, false⟩] _ ⟨0x100028, 4032, false⟩ stored.well rfl
  have freed := @HeapInv.give _ _ [⟨0x100000, 16, false⟩] _ ⟨0x100028, 4032, false⟩ stored _ well pmm total
  refine ⟨s', ?_, freed, fun a lo hi => ?_⟩
  · have filled := run.snoc ⟨sound_nothing rfl, .store same⟩
    exact filled.snoc ⟨sound_nothing rfl, @RequestStep.kfree _ (0x100040, 4032) s' (by simp) call⟩
  · -- the headers are written, not the payload between them
    refine (keeps a fun hit => ?_).trans ?_
    · simp only [kfreeBytes, linkBytes, List.mem_append, List.mem_cons, List.not_mem_nil, or_false] at hit
      rcases hit with hit | ⟨c, hc, hit⟩
      · omega
      · rcases hc with rfl | rfl | rfl | rfl
        all_goals dsimp only at hit; omega
    · dsimp only
      rw [hm, if_pos ⟨lo, hi⟩]

/-- It serves the next request, cleared. -/
theorem kcalloc_cleared_recycled : ∃ w, ((requestSystem bss smallBoot).restrict Sound).Run
      [.kmalloc 16, .kmalloc 4032, .kmalloc 16, .store, .kfree 0x100040] w ∧
    (∀ a, 0x100040 ≤ a → a < 0x101000 → w.heap.mem a = 0xAB) ∧ (∃ h, kcalloc w.heap 63 64 = some (0x100040, h)) ∧
    Cleared w 63 64 ∧ Cleared w (2 ^ 32) (2 ^ 32) := by
  obtain ⟨s, run, inv, dirty⟩ := dirty_block_freed
  obtain ⟨h, served, -⟩ := @HeapInv.request_found _ _ [⟨0x100000, 16, false⟩] _ ⟨0x100028, 4032, true⟩ inv 4032
    (by decide) (by decide) rfl (by decide) (by decide)
  have call := kcalloc_eq s 63 64
  rw [show u64 (63 * 64) = 4032 by decide, served] at call
  refine ⟨_, run, dirty, ⟨_, call⟩, ?_, ?_⟩
  · exact (kcalloc_cleared_iff bss smallBoot _ _ run 63 64).2 (.inl (by decide))
  · exact (kcalloc_cleared_iff bss smallBoot _ _ run (2 ^ 32) (2 ^ 32)).2 (.inr (.inl (by decide)))

/-- On a fresh heap `kcalloc(2 ^ 60 + 1, 16)` returns a block of 16 bytes. -/
theorem wrapped_product_granted : ∃ w, (requestSystem bss smallBoot).Run [] w ∧
    (∃ h, kcalloc w.heap (2 ^ 60 + 1) 16 = some (0x100018, h) ∧ blockSize h.mem 0x100000 = 16) ∧
    ¬ Cleared w (2 ^ 60 + 1) 16 := by
  obtain ⟨w, run, none, inv⟩ := smallBoot_start
  have total : u64 ((2 ^ 60 + 1) * 16) = 16 := by decide
  have page : expandPages (alignUp 16) = 1 := by decide
  have base := smallBoot_page inv none
  rw [← page] at base
  obtain ⟨region, room, h, here, kmalloc, -, -, enough, header⟩ :=
    @HeapInv.kmalloc_expanded _ w _ 16 inv (by decide) rfl (by rw [base]; decide)
  rw [base] at here
  subst here
  have call := kcalloc_eq w.heap (2 ^ 60 + 1) 16
  rw [total, kmalloc] at call
  refine ⟨w, run.unrestrict, ⟨_, call, ?_⟩, fun all => ?_⟩
  · have size := @blockSize_cleared h (256 * 4096 + 24) 16 (by decide) (by decide)
    refine size.trans ((header (by decide)).trans ?_)
    rw [page] at enough
    unfold grantedSize
    dsimp only
    rw [if_neg]
    · decide
    · have : alignUp 16 = 16 := by decide
      omega
  · obtain ⟨p, h', call', cleared⟩ := all
    rw [call] at call'
    cases call'
    dsimp only at cleared
    obtain ⟨-, far⟩ := (cleared (by decide)).2 (256 * 4096 + 24 + 2 ^ 30) (by decide) (by decide)
    have := inv.pages_grown.cover_lt far
    omega

end SimpleKernel.Heap
