import SimpleKernel.Pmm.Ledger

/-!
# Allocations and the firmware map

`pmm_init` frees the usable entries and never looks at the others, so what it hands out
lies in usable entries (`granted_in_usable`); an entry of another type is safe exactly
where no usable entry overlaps it.
-/

namespace SimpleKernel.Pmm
set_option autoImplicit false
open Lib

/-- The address belongs to the entry. -/
def MemoryMapEntry.Has (e : MemoryMapEntry) (a : Nat) : Prop := e.base ≤ a ∧ a < e.base + e.length

/-- No usable entry starts in the last page, where rounding its base up would wrap. -/
def UsableRounds (boot : Boot) : Prop :=
  ∀ i, i < boot.info.memoryMapEntries → (boot.entries i).type = 1 → (boot.entries i).base + 4095 < 2 ^ 64

theorem FreedBy.inside {e : MemoryMapEntry} {f : Nat} (freed : FreedBy e f) (rounds : e.base + 4095 < 2 ^ 64) :
    Inside e f := by
  obtain ⟨-, lo, hi⟩ := freed
  have small : u64 (e.base + e.length) ≤ e.base + e.length := u64_le _
  rw [pageAlignUp_of_lt rounds] at lo
  rw [pageAlignDown_of_lt (u64_lt _)] at hi
  unfold Inside
  omega

theorem inUsable_of_free {p : State} {boot : Boot} (h : UsableRounds boot) {f : Nat}
    (free : f ∈ freeSet (pmmInit p boot)) : InUsable boot f := by
  obtain ⟨-, ⟨i, hi, freed⟩, -⟩ := mem_freeSet_pmmInit.1 free
  exact ⟨i, hi, freed.1, freed.inside (h i hi freed.1)⟩

/-- Every frame of a block handed out during a run was free after `pmm_init`. -/
theorem granted_free {p : State} {boot : Boot} {cs : List Call} {s : Ledger} (run : (frameSystem p boot).Run cs s)
    {count f : Nat} (block : (pmmAllocFrames s.pmm count).1 ≠ 0)
    (member : f ∈ blockFrames (pmmAllocFrames s.pmm count).1 count) : f ∈ freeSet (pmmInit p boot) :=
  ((ledger_run run).granted block).heldAvail f ⟨_, List.mem_cons_self, member⟩

/-- **Allocations stay in usable memory.** Every page of a block handed out lies wholly
inside one usable entry, so the block has no byte of an entry of another type that no
usable entry overlaps. -/
theorem granted_in_usable (p : State) (boot : Boot) (h : UsableRounds boot) (cs : List Call) (s : Ledger)
    (run : (frameSystem p boot).Run cs s) (count : Nat) (block : (pmmAllocFrames s.pmm count).1 ≠ 0) (a : Nat)
    (lo : (pmmAllocFrames s.pmm count).1 ≤ a) (hi : a < (pmmAllocFrames s.pmm count).1 + count * pmmPageSize) :
    InUsable boot (a / pmmPageSize) ∧
    ∀ i, i < boot.info.memoryMapEntries → (boot.entries i).type ≠ 1 →
      (∀ j, j < boot.info.memoryMapEntries → (boot.entries j).type = 1 →
        ∀ x, (boot.entries i).Has x → ¬ (boot.entries j).Has x) → ¬ (boot.entries i).Has a := by
  rw [pmmPageSize_eq] at *
  have aligned := ((ledger p boot cs s run).2.2.2.1 count block).1
  have member : a / 4096 ∈ blockFrames (pmmAllocFrames s.pmm count).1 count := by
    rw [blockFrames, Finset.mem_Ico]
    omega
  have usable := inUsable_of_free h (granted_free run block member)
  refine ⟨usable, fun i hi type apart has => ?_⟩
  obtain ⟨j, hj, one, inside⟩ := usable
  refine apart j hj one a has ?_
  unfold Inside at inside
  unfold MemoryMapEntry.Has
  omega

/-- 16 usable pages at 1 MiB with two reserved pages declared among them. -/
def overlapBoot : Boot where
  addr := 0x5000
  info := { memoryMapEntries := 2, memoryMapAddr := 0x5400, kernelPhysStart := 0x10000, kernelPhysEnd := 0x20000 }
  entries i := if i = 0 then ⟨0x100000, 0x10000, 1⟩ else ⟨0x104000, 0x2000, 2⟩

theorem overlapBoot_noWrap : NoWrap overlapBoot := by
  refine ⟨fun i _ => ?_, by decide, by decide, by decide⟩
  unfold overlapBoot
  dsimp only
  split <;> decide

theorem overlapBoot_alloc : pmmAllocFrames (pmmInit bss overlapBoot) 16 =
    (256 * 4096, setRun (pmmInit bss overlapBoot) 256 16) := by
  refine first_alloc overlapBoot_noWrap (by decide) ?_ (fun i hi => ⟨⟨0, by decide, rfl, ?_⟩, ?_⟩)
    fun f => not_allocatable_low
  · rw [frameLimit_eq]
    omega
  · unfold Inside overlapBoot
    simp only [if_true]
    omega
  · unfold Kept Outward sizeofBootInfo sizeofMemoryMapEntry overlapBoot
    dsimp only
    omega

theorem granted_in_usable_overlap :
    InUsable overlapBoot (0x100000 / pmmPageSize) ∧ ∀ i, i < 2 → (overlapBoot.entries i).type ≠ 1 →
      (∀ j, j < 2 → (overlapBoot.entries j).type = 1 →
        ∀ x, (overlapBoot.entries i).Has x → ¬ (overlapBoot.entries j).Has x) →
      ¬ (overlapBoot.entries i).Has 0x100000 := by
  have alloc : (pmmAllocFrames (pmmInit bss overlapBoot) 16).1 = 256 * 4096 := by rw [overlapBoot_alloc]
  refine granted_in_usable bss overlapBoot (fun i hi _ => (overlapBoot_noWrap.entries i hi).2) []
    ⟨pmmInit bss overlapBoot, []⟩ (frameSystem_start bss overlapBoot) 16 ?_ 0x100000 ?_ ?_
  · dsimp only
    omega
  · dsimp only
    omega
  · rw [pmmPageSize_eq]
    dsimp only
    omega

/-- The pages of the second entry, which is not usable, are handed out with the first. -/
theorem reserved_pages_granted : NoWrap overlapBoot ∧ ∃ a,
    (pmmAllocFrames (pmmInit bss overlapBoot) 16).1 ≠ 0 ∧
    (pmmAllocFrames (pmmInit bss overlapBoot) 16).1 ≤ a ∧
    a < (pmmAllocFrames (pmmInit bss overlapBoot) 16).1 + 16 * pmmPageSize ∧
    1 < overlapBoot.info.memoryMapEntries ∧ (overlapBoot.entries 1).type ≠ 1 ∧ (overlapBoot.entries 1).Has a := by
  have alloc : (pmmAllocFrames (pmmInit bss overlapBoot) 16).1 = 256 * 4096 := by rw [overlapBoot_alloc]
  rw [alloc, pmmPageSize_eq]
  exact ⟨overlapBoot_noWrap, 0x104000, by omega, by omega, by omega, by decide, by decide, ⟨by decide, by decide⟩⟩

end SimpleKernel.Pmm
