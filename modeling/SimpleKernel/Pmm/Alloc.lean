import SimpleKernel.Pmm.Frames

/-!
# `pmm_alloc_frames` and `pmm_free_frames` on the free set

The scan of `pmm_alloc_frames` finds the lowest run of free frames or shows that there
is none (`allocScan_spec`). `pmmAllocFrames_cases` says all that a call can do, and
`pmmFreeFrames_spec` what a free of frames that are all set does.
-/

namespace SimpleKernel.Pmm
set_option autoImplicit false
open Lib

/-- The `count` frames from `start` on are free. -/
def FreeRun (p : State) (count start : Nat) : Prop := ∀ i, i < count → bitTest p (start + i) = false

/-- `start` is the lowest start in `[lo, hi - count]` of a run of `count` free frames. -/
structure FirstRun (p : State) (count lo hi start : Nat) : Prop where
  lower : lo ≤ start
  upper : start + count ≤ hi
  free : FreeRun p count start
  first : ∀ s, lo ≤ s → s < start → ¬ FreeRun p count s

theorem FreeRun.snoc {p : State} {n start : Nat} (h : FreeRun p n start)
    (clear : bitTest p (start + n) = false) : FreeRun p (n + 1) start := by
  intro i hi
  by_cases last : i = n
  · rw [last]; exact clear
  · exact h i (by omega)

/-- A set bit breaks every run across it. -/
theorem FreeRun.not_across {p : State} {count start f : Nat} (set : bitTest p f = true)
    (lo : start ≤ f) (hi : f < start + count) : ¬ FreeRun p count start := by
  intro run
  have clear := run (f - start) (by omega)
  rw [Nat.add_sub_cancel' lo, set] at clear
  cases clear

/-- **The scan.** At frame `start + len`, with a free run of `len < count` frames from
`start` on and nothing that fits below `start`, the scan returns the first run from
`start` on, or there is none. -/
theorem allocScan_spec (p : State) (count left : Nat) : ∀ start len runStart, len < count →
    FreeRun p len start → (0 < len → runStart = start) →
    match allocScan p count left (start + len) runStart len with
    | some s => FirstRun p count start (start + len + left) s
    | none => ∀ s, start ≤ s → s + count ≤ start + len + left → ¬ FreeRun p count s := by
  induction left with
  | zero =>
    intro start len runStart short run _ s lower upper
    exact absurd upper (by omega)
  | succ left ih =>
    intro start len runStart short run begun
    rw [allocScan]
    by_cases set : bitTest p (start + len) = true
    · -- the frame is used: no run can start at or below it
      have skip : ∀ s, start ≤ s → s < start + len + 1 → ¬ FreeRun p count s :=
        fun s lo hi => FreeRun.not_across set (by omega) (by omega)
      have rest := ih (start + len + 1) 0 runStart (by omega) (fun i hi => absurd hi (by omega))
        (fun h => absurd h (by omega))
      rw [if_pos set]
      simp only [Nat.add_zero] at rest
      split at rest
      · rename_i s _
        refine ⟨by have := rest.lower; omega, by have := rest.upper; omega, rest.free, fun t lo hi => ?_⟩
        by_cases low : t < start + len + 1
        · exact skip t lo low
        · exact rest.first t (by omega) hi
      · intro s lo hi
        by_cases low : s < start + len + 1
        · exact skip s lo low
        · exact rest s (by omega) (by omega)
    · have clear : bitTest p (start + len) = false := by simpa using set
      have begin : (if len = 0 then start + len else runStart) = start := by
        split
        · omega
        · exact begun (by omega)
      rw [if_neg set]
      simp only [begin]
      by_cases full : len + 1 = count
      · rw [if_pos full]
        exact ⟨le_rfl, by omega, full ▸ run.snoc clear, fun s lo hi => absurd hi (by omega)⟩
      · rw [if_neg full]
        have rest := ih start (len + 1) start (by omega) (run.snoc clear) (fun _ => rfl)
        rw [← Nat.add_assoc] at rest
        rwa [show start + len + (left + 1) = start + len + 1 + left by omega]

/-- The state after a run of `count` frames from `start` on has been taken. -/
def setRun (p : State) (start count : Nat) : State :=
  { bitSets p start count with freeFrames := sub64 p.freeFrames count }

/-- **Everything a call of `pmm_alloc_frames` can do**: fail without a change when no
run fits, or take the first run. -/
theorem pmmAllocFrames_cases (p : State) (count : Nat) :
    (pmmAllocFrames p count = (0, p) ∧
      (count = 0 ∨ ∀ s, s + count ≤ frameLimit → ¬ FreeRun p count s)) ∨
    (∃ start, 0 < count ∧ FirstRun p count 0 frameLimit start ∧
      pmmAllocFrames p count = (start * 4096, setRun p start count)) := by
  unfold pmmAllocFrames
  by_cases bad : count = 0 ∨ count > frameLimit
  · rw [if_pos bad]
    refine .inl ⟨rfl, bad.imp_right fun large s fits => ?_⟩
    omega
  · rw [if_neg bad]
    have scan := allocScan_spec p count frameLimit 0 0 0 (by omega) (fun i hi => absurd hi (by omega))
      (fun h => absurd h (by omega))
    simp only [Nat.zero_add] at scan
    split at scan
    · rename_i start found
      right
      refine ⟨start, by omega, scan, ?_⟩
      have upper := scan.upper
      rw [frameLimit_eq] at upper
      rw [found]
      simp only [setRun, pmmPageSize_eq]
      rw [u64_of_lt (by omega)]
    · rename_i found
      rw [found]
      exact .inl ⟨rfl, .inr fun s fits => scan s (Nat.zero_le _) fits⟩

/-- The call at the lowest run that fits. -/
theorem pmmAllocFrames_eq {p : State} {count start : Nat} (positive : 0 < count)
    (first : FirstRun p count 0 frameLimit start) :
    pmmAllocFrames p count = (start * 4096, setRun p start count) := by
  rcases pmmAllocFrames_cases p count with ⟨-, none | none⟩ | ⟨other, -, first', eq⟩
  · omega
  · exact absurd first.free (none start first.upper)
  · have same : other = start := by
      rcases Nat.lt_trichotomy other start with lt | same | lt
      · exact absurd first'.free (first.first other (Nat.zero_le _) lt)
      · exact same
      · exact absurd first.free (first'.first start (Nat.zero_le _) lt)
    rw [eq, same]

/-- No run starts at a frame that is not free. -/
theorem FirstRun.of_used {p : State} {count start : Nat} (positive : 0 < count) (upper : start + count ≤ frameLimit)
    (free : ∀ i, i < count → start + i ∈ freeSet p) (used : ∀ f, f < start → f ∉ freeSet p) :
    FirstRun p count 0 frameLimit start := by
  rw [frameLimit_eq] at upper
  refine ⟨Nat.zero_le _, upper, fun i hi => (mem_freeSet.1 (free i hi)).2, fun s _ below run => used s below ?_⟩
  exact mem_freeSet.2 ⟨by rw [pmmMaxFrames_eq]; omega, by simpa using run 0 positive⟩

theorem FreeRun.mem_freeSet {p : State} {count start : Nat} (run : FreeRun p count start)
    (fits : start + count ≤ frameLimit) {f : Nat} (lo : start ≤ f) (hi : f < start + count) :
    f ∈ freeSet p := by
  rw [frameLimit_eq] at fits
  refine Pmm.mem_freeSet.2 ⟨?_, ?_⟩
  · rw [pmmMaxFrames_eq]
    omega
  · have clear := run (f - start) (by omega)
    rwa [Nat.add_sub_cancel' lo] at clear

theorem bitSets_succ (p : State) (start count : Nat) :
    bitSets p start (count + 1) = bitSet (bitSets p start count) (start + count) := by
  rw [bitSets, List.range_succ, List.foldl_append]
  rfl

theorem freeSet_bitSets (p : State) (start count : Nat) :
    freeSet (bitSets p start count) = freeSet p \ Finset.Ico start (start + count) := by
  induction count with
  | zero => simp [bitSets]
  | succ count ih =>
    rw [bitSets_succ, freeSet_bitSet, ih]
    ext f
    simp only [Finset.mem_erase, Finset.mem_sdiff, Finset.mem_Ico]
    constructor
    · rintro ⟨ne, member, out⟩
      exact ⟨member, by omega⟩
    · rintro ⟨member, out⟩
      exact ⟨by omega, member, by omega⟩

theorem bitSets_totalFrames (p : State) (start count : Nat) :
    (bitSets p start count).totalFrames = p.totalFrames := by
  induction count with
  | zero => rfl
  | succ count ih => rw [bitSets_succ]; exact ih

theorem freeSet_setRun (p : State) (start count : Nat) :
    freeSet (setRun p start count) = freeSet p \ Finset.Ico start (start + count) :=
  (freeSet_counters _ _ _).trans (freeSet_bitSets p start count)

theorem setRun_freeFrames (p : State) (start count : Nat) :
    (setRun p start count).freeFrames = sub64 p.freeFrames count := by
  simp only [setRun]

theorem setRun_totalFrames (p : State) (start count : Nat) : (setRun p start count).totalFrames = p.totalFrames := by
  simp only [setRun, bitSets_totalFrames]

theorem FreeRun.subset {p : State} {count start : Nat} (run : FreeRun p count start)
    (fits : start + count ≤ frameLimit) : Finset.Ico start (start + count) ⊆ freeSet p := by
  intro f hf
  rw [Finset.mem_Ico] at hf
  exact run.mem_freeSet fits hf.1 hf.2

theorem Counted.setRun {p : State} (h : Counted p) {start count : Nat} (run : FreeRun p count start)
    (fits : start + count ≤ frameLimit) : Counted (setRun p start count) := by
  have sub := run.subset fits
  have card := Finset.card_sdiff_of_subset sub
  have le := Finset.card_le_card sub
  have bound := card_freeSet_le p
  rw [pmmMaxFrames_eq] at bound
  rw [Nat.card_Ico, Nat.add_sub_cancel_left] at card le
  refine ⟨?_, (setRun_totalFrames p start count).trans h.total⟩
  rw [setRun_freeFrames, freeSet_setRun, card, h.free, sub64_of_le le (by omega)]

/-- **A free of frames that are all set** clears exactly these. -/
theorem freeLoop_spec {p : State} {start count : Nat} (h : Counted p) (fits : start + count ≤ frameLimit)
    (set : ∀ i, i < count → bitTest p (start + i) = true) :
    Counted (freeLoop p start count) ∧
      freeSet (freeLoop p start count) = freeSet p ∪ Finset.Ico start (start + count) := by
  induction count generalizing p start with
  | zero => simpa [freeLoop] using h
  | succ count ih =>
    have here : bitTest p start = true := by simpa using set 0 (by omega)
    have small : start < pmmMaxFrames := by rw [frameLimit] at fits; omega
    rw [freeLoop, if_neg (by simp [here]; omega)]
    have step : freeFrame p start = { bitClear p start with freeFrames := u64 (p.freeFrames + 1) } := by
      rw [freeFrame, if_pos here]
    rw [← step]
    have rest : ∀ i, i < count → bitTest (freeFrame p start) (start + 1 + i) = true := fun i hi => by
      have bit := set (i + 1) (by omega)
      rw [step]
      refine (bitTest_bitClear p start _).trans ?_
      rw [show start + 1 + i = start + (i + 1) by omega, bit]
      simp
    obtain ⟨counted, free⟩ := ih (h.freeFrame small) (by omega) rest
    refine ⟨counted, ?_⟩
    rw [free, freeSet_freeFrame small]
    ext f
    simp only [Finset.mem_union, Finset.mem_insert, Finset.mem_Ico]
    constructor
    · rintro ((rfl | member) | range)
      · exact .inr (by omega)
      · exact .inl member
      · exact .inr (by omega)
    · rintro (member | range)
      · exact .inl (.inr member)
      · by_cases first : f = start
        · exact .inl (.inl first)
        · exact .inr (by omega)

/-- `pmm_free_frames` of set frames, none of them frame `0`. -/
theorem pmmFreeFrames_spec {p : State} {start count : Nat} (h : Counted p) (fits : start + count ≤ frameLimit)
    (positive : 0 < start) (set : ∀ i, i < count → bitTest p (start + i) = true) :
    Counted (pmmFreeFrames p (start * 4096) count) ∧
      freeSet (pmmFreeFrames p (start * 4096) count) = freeSet p ∪ Finset.Ico start (start + count) := by
  unfold pmmFreeFrames
  by_cases none : count = 0
  · rw [if_pos (.inr none), none]
    simpa using h
  · rw [if_neg (by omega), pmmPageSize_eq, Nat.mul_div_cancel _ (by decide), if_neg (by omega)]
    exact freeLoop_spec h fits set

end SimpleKernel.Pmm
