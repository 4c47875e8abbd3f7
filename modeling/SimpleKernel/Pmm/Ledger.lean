import SimpleKernel.Lib.Lts
import SimpleKernel.Pmm.Init

/-!
# The ownership ledger of the frame allocator

`frameSystem` is the allocator under any interleaving of allocations and of frees of
frames that are held. Its states carry the frames of every live allocation;
`LedgerInv` says that these frames and those still free make up what `pmm_init` left
free, and one step lemma for each call keeps it.
-/

namespace SimpleKernel.Pmm
set_option autoImplicit false
open Lib

/-- The calls of a run. A free names the frames `[start, start + count)`. -/
inductive Call where
  | alloc (count : Nat)
  | free (start count : Nat)

/-- The allocator's variables and the frames that each live allocation still holds. -/
structure Ledger where
  pmm : State
  live : List (Finset Nat)

/-- Some live allocation holds the frame. -/
def Held (live : List (Finset Nat)) (f : Nat) : Prop := ∃ A ∈ live, f ∈ A

/-- The frames of the block that a call of `pmm_alloc_frames` returned. -/
def blockFrames (ptr count : Nat) : Finset Nat := Finset.Ico (ptr / 4096) (ptr / 4096 + count)

/-- One call. Only frames that are held may be freed, in any pieces. -/
inductive CallStep : Ledger → Call → Ledger → Prop
  | failed {s : Ledger} {count : Nat} : (pmmAllocFrames s.pmm count).1 = 0 →
      CallStep s (.alloc count) ⟨(pmmAllocFrames s.pmm count).2, s.live⟩
  | granted {s : Ledger} {count : Nat} : (pmmAllocFrames s.pmm count).1 ≠ 0 →
      CallStep s (.alloc count) ⟨(pmmAllocFrames s.pmm count).2,
        blockFrames (pmmAllocFrames s.pmm count).1 count :: s.live⟩
  | freed {s : Ledger} {start count : Nat} : (∀ f, start ≤ f → f < start + count → Held s.live f) →
      CallStep s (.free start count) ⟨pmmFreeFrames s.pmm (start * pmmPageSize) count,
        s.live.map (· \ Finset.Ico start (start + count))⟩

/-- The allocator after `pmm_init`, under any calls. -/
def frameSystem (p : State) (boot : Boot) : Lts Ledger Call where
  Init s := s = ⟨pmmInit p boot, []⟩
  Step := CallStep

/-- Free and held frames make up the frames `avail`, each frame held once. -/
structure LedgerInv (avail : Finset Nat) (s : Ledger) : Prop where
  counted : Counted s.pmm
  heldAvail : ∀ f, Held s.live f → f ∈ avail
  free : ∀ f, f ∈ freeSet s.pmm ↔ f ∈ avail ∧ ¬ Held s.live f
  disjoint : s.live.Pairwise Disjoint

theorem held_cons {A : Finset Nat} {live : List (Finset Nat)} {f : Nat} :
    Held (A :: live) f ↔ f ∈ A ∨ Held live f := by
  simp [Held]

theorem held_map_sdiff {B : Finset Nat} {live : List (Finset Nat)} {f : Nat} :
    Held (live.map (· \ B)) f ↔ Held live f ∧ f ∉ B := by
  simp only [Held, List.mem_map]
  constructor
  · rintro ⟨_, ⟨A, hA, rfl⟩, hf⟩
    rw [Finset.mem_sdiff] at hf
    exact ⟨⟨A, hA, hf.1⟩, hf.2⟩
  · rintro ⟨⟨A, hA, hf⟩, out⟩
    exact ⟨_, ⟨A, hA, rfl⟩, Finset.mem_sdiff.2 ⟨hf, out⟩⟩

/-- What an allocation that returns a block does, when frame `0` is not free. -/
theorem alloc_granted {p : State} {count : Nat} (granted : (pmmAllocFrames p count).1 ≠ 0) :
    ∃ start, 0 < count ∧ 0 < start ∧ FirstRun p count 0 frameLimit start ∧
      pmmAllocFrames p count = (start * 4096, setRun p start count) := by
  rcases pmmAllocFrames_cases p count with ⟨eq, -⟩ | ⟨start, positive, first, eq⟩
  · rw [eq] at granted
    exact absurd rfl granted
  · rw [eq] at granted
    refine ⟨start, positive, ?_, first, eq⟩
    dsimp only at granted
    omega

/-- A call that returns null leaves the state alone, when frame `0` is not free. -/
theorem alloc_failed {p : State} {count : Nat} (zero : 0 ∉ freeSet p)
    (failed : (pmmAllocFrames p count).1 = 0) : (pmmAllocFrames p count).2 = p := by
  rcases pmmAllocFrames_cases p count with ⟨eq, -⟩ | ⟨start, positive, first, eq⟩
  · rw [eq]
  · exfalso
    rw [eq] at failed
    dsimp only at failed
    have member := first.free.mem_freeSet first.upper (f := start) le_rfl (by omega)
    rw [show start = 0 by omega] at member
    exact zero member

theorem LedgerInv.start {p : State} {boot : Boot} : LedgerInv (freeSet (pmmInit p boot)) ⟨pmmInit p boot, []⟩ where
  counted := counted_pmmInit p boot
  heldAvail := by simp [Held]
  free := by simp [Held]
  disjoint := .nil

theorem LedgerInv.zero {avail : Finset Nat} {s : Ledger} (h : LedgerInv avail s) (zero : 0 ∉ avail) :
    0 ∉ freeSet s.pmm := fun free => zero ((h.free 0).1 free).1

theorem LedgerInv.granted {avail : Finset Nat} {s : Ledger} {count : Nat} (h : LedgerInv avail s)
    (granted : (pmmAllocFrames s.pmm count).1 ≠ 0) :
    LedgerInv avail ⟨(pmmAllocFrames s.pmm count).2, blockFrames (pmmAllocFrames s.pmm count).1 count :: s.live⟩ := by
  obtain ⟨start, positive, -, first, eq⟩ := alloc_granted granted
  have block : blockFrames (pmmAllocFrames s.pmm count).1 count = Finset.Ico start (start + count) := by
    rw [eq, blockFrames, Nat.mul_div_cancel _ (by decide)]
  have sub := first.free.subset first.upper
  have fresh : ∀ f ∈ Finset.Ico start (start + count), f ∈ avail ∧ ¬ Held s.live f :=
    fun f hf => (h.free f).1 (sub hf)
  rw [block, eq]
  refine ⟨h.counted.setRun first.free first.upper, fun f held => ?_, fun f => ?_, ?_⟩
  · rcases held_cons.1 held with new | old
    · exact (fresh f new).1
    · exact h.heldAvail f old
  · rw [freeSet_setRun, Finset.mem_sdiff, h.free, held_cons]
    constructor
    · rintro ⟨⟨inside, unheld⟩, out⟩
      exact ⟨inside, fun held => held.elim out unheld⟩
    · rintro ⟨inside, unheld⟩
      exact ⟨⟨inside, fun held => unheld (.inr held)⟩, fun new => unheld (.inl new)⟩
  · refine List.pairwise_cons.2 ⟨fun A hA => ?_, h.disjoint⟩
    exact Finset.disjoint_left.2 fun f new old => (fresh f new).2 ⟨A, hA, old⟩

theorem LedgerInv.freed {avail : Finset Nat} {s : Ledger} {start count : Nat} (h : LedgerInv avail s)
    (zero : 0 ∉ avail) (small : ∀ f ∈ avail, f < pmmMaxFrames)
    (held : ∀ f, start ≤ f → f < start + count → Held s.live f) :
    LedgerInv avail ⟨pmmFreeFrames s.pmm (start * pmmPageSize) count,
      s.live.map (· \ Finset.Ico start (start + count))⟩ := by
  by_cases none : count = 0
  · have same : pmmFreeFrames s.pmm (start * pmmPageSize) count = s.pmm := by
      rw [pmmFreeFrames, if_pos (.inr none)]
    have keep : s.live.map (· \ Finset.Ico start (start + count)) = s.live := by simp [none]
    rw [same, keep]
    exact h
  · have inside : ∀ f, start ≤ f → f < start + count → f ∈ avail :=
      fun f lo hi => h.heldAvail f (held f lo hi)
    have last := small _ (inside (start + count - 1) (by omega) (by omega))
    have positive : 0 < start := Nat.pos_of_ne_zero fun first => zero (first ▸ inside start le_rfl (by omega))
    have fits : start + count ≤ frameLimit := by rw [pmmMaxFrames_eq] at last; rw [frameLimit_eq]; omega
    have set : ∀ i, i < count → bitTest s.pmm (start + i) = true := fun i hi => by
      have used : start + i ∉ freeSet s.pmm := fun free =>
        ((h.free _).1 free).2 (held _ (by omega) (by omega))
      exact (not_mem_freeSet (small _ (inside _ (by omega) (by omega)))).1 used
    obtain ⟨counted, free⟩ := pmmFreeFrames_spec h.counted fits positive set
    refine ⟨counted, fun f hf => h.heldAvail f (held_map_sdiff.1 hf).1, fun f => ?_, ?_⟩
    · rw [pmmPageSize_eq, free, Finset.mem_union, h.free, held_map_sdiff, Finset.mem_Ico]
      constructor
      · rintro (⟨ok, unheld⟩ | range)
        · exact ⟨ok, fun still => unheld still.1⟩
        · exact ⟨inside f range.1 range.2, fun still => still.2 range⟩
      · rintro ⟨ok, unheld⟩
        by_cases range : start ≤ f ∧ f < start + count
        · exact .inr range
        · exact .inl ⟨ok, fun old => unheld ⟨old, range⟩⟩
    · refine List.pairwise_map.2 (h.disjoint.imp fun apart => ?_)
      exact Finset.disjoint_of_subset_left Finset.sdiff_subset
        (Finset.disjoint_of_subset_right Finset.sdiff_subset apart)

/-- **The step lemma**: every call keeps the ledger. -/
theorem LedgerInv.step {p : State} {boot : Boot} {s s' : Ledger} {c : Call}
    (h : LedgerInv (freeSet (pmmInit p boot)) s) (step : CallStep s c s') :
    LedgerInv (freeSet (pmmInit p boot)) s' := by
  have zero := zero_not_free p boot
  cases step with
  | failed null =>
    rw [alloc_failed (h.zero zero) null]
    exact h
  | granted block => exact h.granted block
  | freed held => exact h.freed zero (fun f hf => (mem_freeSet.1 hf).1) held

/-- **The run lemma.** -/
theorem ledger_run {p : State} {boot : Boot} {cs : List Call} {s : Ledger}
    (run : (frameSystem p boot).Run cs s) : LedgerInv (freeSet (pmmInit p boot)) s :=
  run.invariant (by rintro s rfl; exact .start) fun _ _ _ h step => h.step step

/-- The frames that `pmm_init` leaves used. -/
def initUsed (p : State) (boot : Boot) : Finset Nat :=
  (Finset.range pmmMaxFrames).filter fun f => bitTest (pmmInit p boot) f = true

theorem initUsed_iff {p : State} {boot : Boot} {f : Nat} (small : f < pmmMaxFrames) :
    f ∈ initUsed p boot ↔ f ∉ freeSet (pmmInit p boot) := by
  rw [not_mem_freeSet small]
  simp [initUsed, small]

theorem LedgerInv.small {p : State} {boot : Boot} {s : Ledger} (h : LedgerInv (freeSet (pmmInit p boot)) s) {f : Nat}
    (held : Held s.live f) : f < pmmMaxFrames := (mem_freeSet.1 (h.heldAvail f held)).1

/-- The set bits are the frames used from the start and the frames held. -/
theorem LedgerInv.set_iff {p : State} {boot : Boot} {s : Ledger} (h : LedgerInv (freeSet (pmmInit p boot)) s)
    {f : Nat} (small : f < pmmMaxFrames) : bitTest s.pmm f = true ↔ f ∈ initUsed p boot ∨ Held s.live f := by
  rw [← not_mem_freeSet small, h.free, initUsed_iff small, Classical.not_and_iff_not_or_not, Classical.not_not]

/-- With nothing held the free set is the initial one. -/
theorem LedgerInv.free_eq {p : State} {boot : Boot} {s : Ledger} (h : LedgerInv (freeSet (pmmInit p boot)) s)
    (none : ∀ A ∈ s.live, A = ∅) : freeSet s.pmm = freeSet (pmmInit p boot) := by
  ext f
  rw [h.free]
  refine and_iff_left fun ⟨A, hA, hf⟩ => ?_
  rw [none A hA] at hf
  cases hf

/-- **The ownership ledger.** At every point of every run the set bits are the disjoint
union of the frames used after `pmm_init` and the frames of the live allocations, every
block is aligned and below 1 GiB, and once all frames are back the bitmap and the
counter are those of `pmm_init`. -/
theorem ledger (p : State) (boot : Boot) (cs : List Call) (s : Ledger) (run : (frameSystem p boot).Run cs s) :
    (∀ f, f < pmmMaxFrames → (bitTest s.pmm f = true ↔ f ∈ initUsed p boot ∨ Held s.live f)) ∧
    s.live.Pairwise Disjoint ∧ (∀ A ∈ s.live, Disjoint A (initUsed p boot)) ∧
    (∀ count, (pmmAllocFrames s.pmm count).1 ≠ 0 →
      (pmmAllocFrames s.pmm count).1 % 4096 = 0 ∧ (pmmAllocFrames s.pmm count).1 + count * 4096 ≤ 2 ^ 30) ∧
    ((∀ A ∈ s.live, A = ∅) →
      (∀ i, i < pmmMaxFrames / 8 → s.pmm.frameBitmap i = (pmmInit p boot).frameBitmap i) ∧
      s.pmm.freeFrames = (pmmInit p boot).freeFrames) := by
  have inv := ledger_run run
  refine ⟨fun f small => inv.set_iff small, inv.disjoint, fun A hA => ?_, fun count block => ?_, fun none => ?_⟩
  · refine Finset.disjoint_left.2 fun f hf used => ?_
    have held : Held s.live f := ⟨A, hA, hf⟩
    exact (initUsed_iff (inv.small held)).1 used (inv.heldAvail f held)
  · obtain ⟨start, -, -, first, eq⟩ := alloc_granted block
    have upper := first.upper
    rw [frameLimit_eq] at upper
    rw [eq]
    dsimp only
    omega
  · have free := inv.free_eq none
    refine ⟨fun i inside => frameBitmap_ext (fun f small => ?_) inside, ?_⟩
    · have same := Finset.ext_iff.1 free f
      simp only [mem_freeSet, small, true_and] at same
      exact Bool.eq_iff_iff.2 (by rw [← Bool.not_eq_false, ← Bool.not_eq_false, same])
    · rw [inv.counted.free, (counted_pmmInit p boot).free, free]

theorem unitTestBoot_first_free {f : Nat} : f < 288 → ¬ Allocatable unitTestBoot f := by
  intro below
  by_cases low : f < 256
  · exact not_allocatable_low low
  · intro free
    refine free.2 (.inr (.inl ?_))
    unfold Outward unitTestBoot
    dsimp only
    omega

theorem unitTestBoot_free {f : Nat} (lo : 288 ≤ f) (hi : f < 16384) : Allocatable unitTestBoot f := by
  refine ⟨⟨1, by decide, rfl, ?_⟩, ?_⟩
  · unfold Inside unitTestBoot
    simp only [one_ne_zero, if_false]
    omega
  · unfold Kept Outward sizeofBootInfo sizeofMemoryMapEntry unitTestBoot
    dsimp only
    omega

theorem frameSystem_start (p : State) (boot : Boot) : (frameSystem p boot).Run [] ⟨pmmInit p boot, []⟩ := .start rfl

/-- The allocator before `pmm_init`, all zeros. -/
def bss : State := ⟨fun _ => 0, 0, 0⟩

theorem unitTestBoot_alloc : pmmAllocFrames (pmmInit bss unitTestBoot) 2 =
    (288 * 4096, setRun (pmmInit bss unitTestBoot) 288 2) := by
  refine first_alloc unitTestBoot_noWrap (by decide) ?_ (fun i hi => ?_) fun f => unitTestBoot_first_free
  · rw [frameLimit_eq]
    omega
  · exact unitTestBoot_free (by omega) (by omega)

theorem CallStep.of_eq {p q : State} {live : List (Finset Nat)} {count ptr : Nat}
    (alloc : pmmAllocFrames p count = (ptr, q)) (block : ptr ≠ 0) :
    CallStep ⟨p, live⟩ (.alloc count) ⟨q, blockFrames ptr count :: live⟩ := by
  have step := @CallStep.granted ⟨p, live⟩ count
  rw [alloc] at step
  exact step block

/-- Two frames from the unit tests' map, one of them given back. -/
theorem unitTestBoot_freed : ∃ s, (frameSystem bss unitTestBoot).Run [.alloc 2, .free 288 1] s ∧
    ∀ f, Held s.live f ↔ f = 289 := by
  have two := (frameSystem_start bss unitTestBoot).snoc (CallStep.of_eq unitTestBoot_alloc (by omega))
  have block : ∀ f, Held [blockFrames (288 * 4096) 2] f ↔ 288 ≤ f ∧ f < 290 := fun f => by
    simp [Held, blockFrames]
  have one := two.snoc (@CallStep.freed _ 288 1 fun f lo hi => (block f).2 (by omega))
  refine ⟨_, one, fun f => ?_⟩
  rw [held_map_sdiff, block, Finset.mem_Ico]
  omega

theorem ledger_unit_test : ∃ s, (frameSystem bss unitTestBoot).Run [.alloc 2, .free 288 1] s ∧
    ∀ f, f < pmmMaxFrames → (bitTest s.pmm f = true ↔ f ∈ initUsed bss unitTestBoot ∨ Held s.live f) := by
  obtain ⟨s, run, -⟩ := unitTestBoot_freed
  exact ⟨s, run, (ledger _ _ _ _ run).1⟩

/-! ## First fit -/

/-- A call takes the lowest run of free frames below the limit, and fails without a change where
there is none. -/
structure FirstFit (p : State) (count : Nat) : Prop where
  null : (pmmAllocFrames p count).1 = 0 ↔
    count = 0 ∨ ∀ start, start + count ≤ frameLimit → ¬ FreeRun p count start
  unchanged : (pmmAllocFrames p count).1 = 0 → (pmmAllocFrames p count).2 = p
  granted : (pmmAllocFrames p count).1 ≠ 0 → ∃ start, FirstRun p count 0 frameLimit start ∧
    (pmmAllocFrames p count).1 = start * 4096 ∧
    (∀ f, bitTest (pmmAllocFrames p count).2 f = true ↔ bitTest p f = true ∨ start ≤ f ∧ f < start + count) ∧
    (pmmAllocFrames p count).2.freeFrames + count = p.freeFrames

theorem bitTest_bitSets {p : State} {start count f : Nat} :
    bitTest (bitSets p start count) f = true ↔ bitTest p f = true ∨ start ≤ f ∧ f < start + count := by
  induction count with
  | zero =>
    have empty : ¬ (start ≤ f ∧ f < start + 0) := by omega
    show bitTest p f = true ↔ _
    rw [or_iff_left empty]
  | succ count ih =>
    rw [bitSets_succ, bitTest_bitSet, Bool.or_eq_true, decide_eq_true_iff, ih, or_left_comm]
    apply or_congr_right
    omega

theorem bitTest_counters (p : State) (total free f : Nat) :
    bitTest { p with totalFrames := total, freeFrames := free } f = bitTest p f := rfl

theorem bitTest_setRun {p : State} {start count f : Nat} :
    bitTest (setRun p start count) f = true ↔ bitTest p f = true ∨ start ≤ f ∧ f < start + count := by
  unfold setRun
  rw [bitTest_counters]
  exact bitTest_bitSets

/-- The frames of a free run are counted, so that the counter does not wrap. -/
theorem Counted.setRun_freeFrames {p : State} (h : Counted p) {start count : Nat} (run : FreeRun p count start)
    (fits : start + count ≤ frameLimit) : (Pmm.setRun p start count).freeFrames + count = p.freeFrames := by
  have size := Finset.card_le_card (run.subset fits)
  have bound := card_freeSet_le p
  rw [Nat.card_Ico, Nat.add_sub_cancel_left] at size
  rw [← h.free] at size bound
  rw [pmmMaxFrames_eq] at bound
  rw [Pmm.setRun_freeFrames, sub64_of_le size (by omega), Nat.sub_add_cancel size]

/-- A call fails exactly when there is no run; one that starts at frame `0` could not be told from a failure. -/
theorem alloc_null_iff {p : State} (zero : 0 ∉ freeSet p) (count : Nat) : (pmmAllocFrames p count).1 = 0 ↔
    count = 0 ∨ ∀ start, start + count ≤ frameLimit → ¬ FreeRun p count start := by
  rcases pmmAllocFrames_cases p count with ⟨eq, none⟩ | ⟨start, positive, first, eq⟩
  · rw [eq]
    exact iff_of_true rfl none
  · have member := first.free.mem_freeSet first.upper (Nat.le_refl start) (by omega)
    have nonzero : start ≠ 0 := by
      rintro rfl
      exact zero member
    rw [eq]
    refine iff_of_false (by dsimp only; omega) ?_
    rintro (none | none)
    · omega
    · exact none start first.upper first.free

theorem Counted.first_fit {p : State} (h : Counted p) (zero : 0 ∉ freeSet p) (count : Nat) : FirstFit p count := by
  refine ⟨alloc_null_iff zero count, alloc_failed zero, fun granted => ?_⟩
  rcases pmmAllocFrames_cases p count with ⟨eq, -⟩ | ⟨start, -, first, eq⟩
  · rw [eq] at granted
    exact absurd rfl granted
  · rw [eq]
    exact ⟨start, first, rfl, fun f => bitTest_setRun, h.setRun_freeFrames first.free first.upper⟩

/-- **Exact first fit** in every state that calls of the allocator lead to. -/
theorem alloc_first_fit {p : State} {boot : Boot} {cs : List Call} {s : Ledger} (run : (frameSystem p boot).Run cs s)
    (count : Nat) : FirstFit s.pmm count := by
  have inv := ledger_run run
  exact inv.counted.first_fit (inv.zero (zero_not_free p boot)) count

/-- The frame given back is taken again; a run of two begins after the frame still held. -/
theorem alloc_first_fit_unit_test : ∃ s, (frameSystem bss unitTestBoot).Run [.alloc 2, .free 288 1] s ∧
    FirstFit s.pmm 1 ∧ (pmmAllocFrames s.pmm 1).1 = 288 * 4096 ∧
    FirstFit s.pmm 2 ∧ (pmmAllocFrames s.pmm 2).1 = 290 * 4096 := by
  obtain ⟨s, run, held⟩ := unitTestBoot_freed
  have free : ∀ f, f ∈ freeSet s.pmm ↔ (f < pmmMaxFrames ∧ Allocatable unitTestBoot f) ∧ f ≠ 289 := fun f => by
    rw [(ledger_run run).free, mem_freeSet_pmmInit_exact unitTestBoot_noWrap, held]
  have clear : ∀ f, 288 ≤ f → f < 16384 → f ≠ 289 → f ∈ freeSet s.pmm := fun f lo hi ne => by
    refine (free f).2 ⟨⟨?_, unitTestBoot_free lo hi⟩, ne⟩
    rw [pmmMaxFrames_eq]
    omega
  have below : ∀ f, f < 288 → f ∉ freeSet s.pmm := fun f below member =>
    unitTestBoot_first_free below ((free f).1 member).1.2
  have one : FirstRun s.pmm 1 0 frameLimit 288 := by
    refine .of_used (by decide) (by rw [frameLimit_eq]; omega) (fun i hi => ?_) below
    exact clear _ (by omega) (by omega) (by omega)
  have two : FirstRun s.pmm 2 0 frameLimit 290 := by
    refine ⟨by omega, by rw [frameLimit_eq]; omega, fun i hi => ?_, fun start _ before fits => ?_⟩
    · exact (mem_freeSet.1 (clear (290 + i) (by omega) (by omega) (by omega))).2
    · have taken : ∀ i, i < 2 → start + i ∈ freeSet s.pmm := fun i hi =>
        fits.mem_freeSet (by rw [frameLimit_eq]; omega) (by omega) (by omega)
      have first := taken 0 (by omega)
      have second := taken 1 (by omega)
      have ge : ¬ start + 0 < 288 := fun low => below _ low first
      have ne := ((free _).1 first).2
      have ne' := ((free _).1 second).2
      omega
  refine ⟨s, run, alloc_first_fit run 1, ?_, alloc_first_fit run 2, ?_⟩
  · rw [pmmAllocFrames_eq (by decide) one]
  · rw [pmmAllocFrames_eq (by decide) two]

end SimpleKernel.Pmm
