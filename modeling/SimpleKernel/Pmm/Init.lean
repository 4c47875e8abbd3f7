import SimpleKernel.Pmm.Alloc

/-!
# `pmm_init`

What `pmm_init` leaves free, first with the 64-bit rounding of the code at whatever
values the boot structure holds (`mem_freeSet_pmmInit`), then in exact integers when no
range wraps (`pmmInit_frames`, `pmmInit_count`). Frame `0` is never free, so a null
pointer is never a frame (`zero_not_free`).
-/

namespace SimpleKernel.Pmm
set_option autoImplicit false
open Lib Kstring

/-- The frame meets the pages of `[lo, hi)` rounded outward. -/
def Outward (lo hi f : Nat) : Prop := lo / 4096 * 4096 ≤ f * 4096 ∧ f * 4096 < (hi + 4095) / 4096 * 4096

/-- The frame lies wholly inside the entry. -/
def Inside (e : MemoryMapEntry) (f : Nat) : Prop := e.base ≤ f * 4096 ∧ (f + 1) * 4096 ≤ e.base + e.length

/-- The frame lies wholly inside one usable entry of the map. -/
def InUsable (boot : Boot) (f : Nat) : Prop :=
  ∃ i, i < boot.info.memoryMapEntries ∧ (boot.entries i).type = 1 ∧ Inside (boot.entries i) f

/-- The frame meets a range that `pmm_init` keeps: the first MiB, the kernel image, the
boot structure or the map array. -/
def Kept (boot : Boot) (f : Nat) : Prop :=
  Outward 0 0x100000 f ∨ Outward boot.info.kernelPhysStart boot.info.kernelPhysEnd f ∨
  Outward boot.addr (boot.addr + sizeofBootInfo) f ∨
  Outward boot.info.memoryMapAddr (boot.info.memoryMapAddr + sizeofMemoryMapEntry * boot.info.memoryMapEntries) f

/-- What `pmm_init` is for: the frames that may be handed out. -/
def Allocatable (boot : Boot) (f : Nat) : Prop := InUsable boot f ∧ ¬ Kept boot f

instance (lo hi f : Nat) : Decidable (Outward lo hi f) := inferInstanceAs (Decidable (_ ∧ _))
instance (e : MemoryMapEntry) (f : Nat) : Decidable (Inside e f) := inferInstanceAs (Decidable (_ ∧ _))
instance (boot : Boot) (f : Nat) : Decidable (InUsable boot f) := inferInstanceAs (Decidable (∃ i, i < _ ∧ _ ∧ _))
instance (boot : Boot) (f : Nat) : Decidable (Kept boot f) := inferInstanceAs (Decidable (_ ∨ _ ∨ _ ∨ _))
instance (boot : Boot) : DecidablePred (Allocatable boot) := fun _ => inferInstanceAs (Decidable (_ ∧ _))

/-- No range of the map or of the boot structure wraps, page rounding included. -/
structure NoWrap (boot : Boot) : Prop where
  entries : ∀ i, i < boot.info.memoryMapEntries →
    (boot.entries i).base + (boot.entries i).length < 2 ^ 64 ∧ (boot.entries i).base + 4095 < 2 ^ 64
  kernel : boot.info.kernelPhysStart ≤ boot.info.kernelPhysEnd ∧ boot.info.kernelPhysEnd + 4095 < 2 ^ 64
  info : boot.addr + sizeofBootInfo + 4095 < 2 ^ 64
  map : boot.info.memoryMapAddr + sizeofMemoryMapEntry * boot.info.memoryMapEntries + 4095 < 2 ^ 64

/-! ## The free set after `pmm_init`, at 64 bits -/

/-- The state after the memset: every frame used, none counted. -/
def allUsed (p : State) : State :=
  { frameBitmap := kmemset p.frameBitmap 0 0xFF#8 (pmmMaxFrames / 8), totalFrames := frameLimit, freeFrames := 0 }

theorem freeSet_allUsed (p : State) : freeSet (allUsed p) = ∅ := by
  refine Finset.eq_empty_of_forall_notMem fun f member => ?_
  obtain ⟨small, clear⟩ := mem_freeSet.1 member
  rw [pmmMaxFrames_eq] at small
  rw [bitTest_eq, allUsed, kmemset_eq_fill] at clear
  dsimp only at clear
  rw [fill_in (by rw [pmmMaxFrames_eq]; omega)] at clear
  have low : f % 8 < 8 := Nat.mod_lt _ (by decide)
  have ones : ∀ k, k < 8 → (0xFF#8).getLsbD k = true := by decide
  rw [ones _ low] at clear
  cases clear

theorem bitTest_allUsed (p : State) {f : Nat} (small : f < pmmMaxFrames) : bitTest (allUsed p) f = true := by
  rw [← not_mem_freeSet small, freeSet_allUsed]
  exact Finset.notMem_empty f

theorem counted_allUsed (p : State) : Counted (allUsed p) := by
  refine ⟨?_, rfl⟩
  rw [freeSet_allUsed]
  rfl

/-- The code's rounding of a usable entry. -/
def FreedBy (e : MemoryMapEntry) (f : Nat) : Prop :=
  e.type = 1 ∧ pageAlignUp e.base ≤ f * 4096 ∧ f * 4096 < pageAlignDown (u64 (e.base + e.length))

/-- The code's rounding of a kept range. -/
def KeptBy (base length f : Nat) : Prop :=
  pageAlignDown base ≤ f * 4096 ∧ f * 4096 < pageAlignUp (u64 (base + length))

theorem freeUsable_spec {p : State} {boot : Boot} (h : Counted p) :
    Counted (freeUsable p boot) ∧ ∀ f, f ∈ freeSet (freeUsable p boot) ↔
      f ∈ freeSet p ∨ (f < pmmMaxFrames ∧ ∃ i, i < boot.info.memoryMapEntries ∧ FreedBy (boot.entries i) f) := by
  unfold freeUsable
  induction boot.info.memoryMapEntries with
  | zero => exact ⟨h, fun f => by simp⟩
  | succ n ih =>
    obtain ⟨counted, free⟩ := ih
    rw [List.range_succ, List.foldl_append, List.foldl_cons, List.foldl_nil]
    by_cases usable : (boot.entries n).type = 1
    · rw [if_pos usable]
      refine ⟨counted.freeRange _ _, fun f => ?_⟩
      rw [mem_freeSet_freeRange, free]
      constructor
      · rintro ((old | ⟨small, i, hi, freed⟩) | ⟨small, freed⟩)
        · exact .inl old
        · exact .inr ⟨small, i, by omega, freed⟩
        · exact .inr ⟨small, n, by omega, usable, freed⟩
      · rintro (old | ⟨small, i, hi, freed⟩)
        · exact .inl (.inl old)
        · by_cases last : i = n
          · exact .inr ⟨small, last ▸ freed.2⟩
          · exact .inl (.inr ⟨small, i, by omega, freed⟩)
    · rw [if_neg usable]
      refine ⟨counted, fun f => ?_⟩
      rw [free]
      refine or_congr Iff.rfl (and_congr Iff.rfl ⟨?_, ?_⟩)
      · rintro ⟨i, hi, freed⟩
        exact ⟨i, by omega, freed⟩
      · rintro ⟨i, hi, freed⟩
        by_cases last : i = n
        · exact absurd (last ▸ freed.1) usable
        · exact ⟨i, by omega, freed⟩

theorem pmmInit_eq (p : State) (boot : Boot) : pmmInit p boot =
    reserveRange (reserveRange (reserveRange (reserveRange (reserveRange (freeUsable (allUsed p) boot) 0 0x100000)
      boot.info.kernelPhysStart (sub64 boot.info.kernelPhysEnd boot.info.kernelPhysStart))
      boot.addr sizeofBootInfo)
      boot.info.memoryMapAddr (u64 (sizeofMemoryMapEntry * boot.info.memoryMapEntries))) 0x1000 0x4000 := rfl

theorem counted_pmmInit (p : State) (boot : Boot) : Counted (pmmInit p boot) := by
  rw [pmmInit_eq]
  exact (((((freeUsable_spec (counted_allUsed p)).1.reserveRange _ _).reserveRange _ _).reserveRange _ _).reserveRange _
    _).reserveRange _ _

/-- **`pmm_init` at 64 bits.** -/
theorem mem_freeSet_pmmInit {p : State} {boot : Boot} {f : Nat} :
    f ∈ freeSet (pmmInit p boot) ↔
      f < pmmMaxFrames ∧ (∃ i, i < boot.info.memoryMapEntries ∧ FreedBy (boot.entries i) f) ∧
      ¬ KeptBy 0 0x100000 f ∧
      ¬ KeptBy boot.info.kernelPhysStart (sub64 boot.info.kernelPhysEnd boot.info.kernelPhysStart) f ∧
      ¬ KeptBy boot.addr sizeofBootInfo f ∧
      ¬ KeptBy boot.info.memoryMapAddr (u64 (sizeofMemoryMapEntry * boot.info.memoryMapEntries)) f ∧
      ¬ KeptBy 0x1000 0x4000 f := by
  have freed := (@freeUsable_spec _ boot (counted_allUsed p)).2 f
  rw [freeSet_allUsed] at freed
  simp only [Finset.notMem_empty, false_or] at freed
  rw [pmmInit_eq]
  simp only [mem_freeSet_reserveRange, freed, and_assoc]
  rfl

theorem keptBy_first_mib {f : Nat} : KeptBy 0 0x100000 f ↔ f < 256 := by
  rw [KeptBy, pageAlignDown_eq, pageAlignUp_eq]
  simp only [u64]
  omega

/-- The first page is in the first MiB: the null pointer is never a frame. -/
theorem zero_not_free (p : State) (boot : Boot) : 0 ∉ freeSet (pmmInit p boot) := by
  intro free
  exact (mem_freeSet_pmmInit.1 free).2.2.1 (keptBy_first_mib.2 (by decide))

/-! ## Exact integers -/

theorem freedBy_iff {e : MemoryMapEntry} {f : Nat} (fits : e.base + e.length < 2 ^ 64)
    (rounds : e.base + 4095 < 2 ^ 64) : FreedBy e f ↔ e.type = 1 ∧ Inside e f := by
  rw [FreedBy, Inside, pageAlignUp_of_lt rounds, u64_of_lt fits, pageAlignDown_of_lt fits]
  refine and_congr Iff.rfl (and_congr ?_ ?_) <;> omega

theorem keptBy_iff {base length f : Nat} (fits : base + length + 4095 < 2 ^ 64) :
    KeptBy base length f ↔ Outward base (base + length) f := by
  rw [KeptBy, Outward, u64_of_lt (by omega), pageAlignUp_of_lt fits, pageAlignDown_of_lt (by omega)]

/-- The last call of `pmm_init` keeps pages that the first MiB already covers. -/
theorem outward_low_pages {f : Nat} (h : Outward 0x1000 (0x1000 + 0x4000) f) : Outward 0 0x100000 f := by
  unfold Outward at *
  omega

theorem mem_freeSet_pmmInit_exact {p : State} {boot : Boot} (h : NoWrap boot) {f : Nat} :
    f ∈ freeSet (pmmInit p boot) ↔ f < pmmMaxFrames ∧ Allocatable boot f := by
  have kernel := h.kernel
  have map := h.map
  have usable : (∃ i, i < boot.info.memoryMapEntries ∧ FreedBy (boot.entries i) f) ↔ InUsable boot f := by
    refine exists_congr fun i => and_congr_right fun hi => ?_
    exact freedBy_iff (h.entries i hi).1 (h.entries i hi).2
  rw [mem_freeSet_pmmInit, usable, keptBy_iff (by decide), sub64_of_le kernel.1 (by omega), keptBy_iff (by omega),
    keptBy_iff h.info, u64_of_lt (by omega), keptBy_iff map, keptBy_iff (by decide),
    Nat.add_sub_cancel' kernel.1, Nat.zero_add]
  unfold Allocatable Kept
  simp only [not_or]
  constructor
  · rintro ⟨small, inside, mib, image, info, array, -⟩
    exact ⟨small, inside, mib, image, info, array⟩
  · rintro ⟨small, inside, mib, image, info, array⟩
    exact ⟨small, inside, mib, image, info, array, fun low => mib (outward_low_pages low)⟩

/-- **`pmm_init` marks exactly the allocatable frames and counts them.** -/
theorem pmmInit_exact (p : State) (boot : Boot) (h : NoWrap boot) :
    (∀ f, f < pmmMaxFrames → (bitTest (pmmInit p boot) f = false ↔ Allocatable boot f)) ∧
    (pmmInit p boot).freeFrames = ((Finset.range pmmMaxFrames).filter (Allocatable boot)).card := by
  constructor
  · intro f small
    have free := mem_freeSet_pmmInit_exact (p := p) h (f := f)
    rw [mem_freeSet] at free
    simpa only [small, true_and] using free
  · rw [(counted_pmmInit p boot).free]
    refine congrArg Finset.card (Finset.ext fun f => ?_)
    rw [mem_freeSet_pmmInit_exact h, Finset.mem_filter, Finset.mem_range]

/-- The first allocation after `pmm_init`, from the map alone. -/
theorem first_alloc {p : State} {boot : Boot} (h : NoWrap boot) {count start : Nat} (positive : 0 < count)
    (upper : start + count ≤ frameLimit) (free : ∀ i, i < count → Allocatable boot (start + i))
    (used : ∀ f, f < start → ¬ Allocatable boot f) :
    pmmAllocFrames (pmmInit p boot) count = (start * 4096, setRun (pmmInit p boot) start count) := by
  refine pmmAllocFrames_eq positive (.of_used positive upper (fun i hi => ?_) fun f below member => ?_)
  · rw [frameLimit_eq] at upper
    exact (mem_freeSet_pmmInit_exact h).2 ⟨by rw [pmmMaxFrames_eq]; omega, free i hi⟩
  · exact used f below ((mem_freeSet_pmmInit_exact h).1 member).2

/-- Nothing below the first MiB is allocatable. -/
theorem not_allocatable_low {boot : Boot} {f : Nat} (low : f < 256) : ¬ Allocatable boot f := by
  intro free
  refine free.2 (.inl ?_)
  unfold Outward
  omega

/-- The map of the unit tests: `0x9F000` bytes of low memory and 63 MiB above the first. -/
def unitTestBoot : Boot where
  addr := 0x5000
  info := { memoryMapEntries := 2, memoryMapAddr := 0x5400, kernelPhysStart := 0x00100000,
            kernelPhysEnd := 0x00120000 }
  entries i := if i = 0 then ⟨0, 0x0009F000, 1⟩ else ⟨0x00100000, 0x03F00000, 1⟩

theorem unitTestBoot_noWrap : NoWrap unitTestBoot := by
  refine ⟨fun i _ => ?_, by decide, by decide, by decide⟩
  unfold unitTestBoot
  dsimp only
  split <;> decide

theorem pmmInit_exact_unit_test :
    (∀ f, f < pmmMaxFrames → (bitTest (pmmInit ⟨fun _ => 0, 0, 0⟩ unitTestBoot) f = false ↔
      Allocatable unitTestBoot f)) ∧
    (pmmInit ⟨fun _ => 0, 0, 0⟩ unitTestBoot).freeFrames =
      ((Finset.range pmmMaxFrames).filter (Allocatable unitTestBoot)).card :=
  pmmInit_exact _ _ unitTestBoot_noWrap

end SimpleKernel.Pmm
