import Mathlib.Data.List.Infix
import SimpleKernel.Pmm.Counters

/-!
# Frame `0` and the null pointer

`pmm_alloc_frames` fails with the address of frame `0`, so it fails without a change exactly
while that frame is not free (`failsUnchanged_iff`). `pmm_init` reserves it, and of all calls
only a free of an address in the first page clears its bit: the null check of `pmm_free_frames`
looks at the address and not at the frame. `failed_alloc_unchanged_iff` is the condition for a
whole sequence of calls.
-/

namespace SimpleKernel.Pmm
set_option autoImplicit false
open Lib

/-- A call that returns the null pointer leaves the bitmap and `free_frames` alone. -/
def FailsUnchanged (p : State) : Prop := ∀ count, (pmmAllocFrames p count).1 = 0 →
  (pmmAllocFrames p count).2.frameBitmap = p.frameBitmap ∧ (pmmAllocFrames p count).2.freeFrames = p.freeFrames

/-- The call is not a free of an address in the first page. -/
def AnyCall.OffFirstPage : AnyCall → Prop
  | .alloc _ => True
  | .free framePtr count => framePtr = 0 ∨ pmmPageSize ≤ framePtr ∨ count = 0

section

variable {p : State} {boot : Boot} {c : AnyCall} {cs : List AnyCall} {f current left : Nat}

/-! ## A call -/

theorem failsUnchanged_iff : FailsUnchanged p ↔ 0 ∉ freeSet p := by
  constructor
  · intro safe free
    have clear : bitTest p 0 = false := (mem_freeSet.1 free).2
    have first : FirstRun p 1 0 frameLimit 0 := by
      refine ⟨le_rfl, by decide, fun i hi => ?_, fun s _ below => absurd below (Nat.not_lt_zero s)⟩
      rw [show 0 + i = 0 by omega]
      exact clear
    have call := pmmAllocFrames_eq Nat.one_pos first
    have bitmap := (safe 1 (by rw [call])).1
    rw [call] at bitmap
    dsimp only at bitmap
    have same : freeSet (setRun p 0 1) = freeSet p := freeSet_congr fun f => by rw [bitTest, bitTest, bitmap]
    rw [← same, freeSet_setRun] at free
    simp at free
  · intro zero count failed
    rw [alloc_failed zero failed]
    exact ⟨rfl, rfl⟩

/-- The loop of `pmm_free_frames` leaves the frames below its first one alone. -/
theorem bitTest_freeLoop_below (below : f < current) : bitTest (freeLoop p current left) f = bitTest p f := by
  induction left generalizing p current with
  | zero => rfl
  | succ left ih =>
    rw [freeLoop]
    split
    · rfl
    · rw [ih (Nat.lt_succ_of_lt below)]
      refine (bitTest_bitClear p current f).trans ?_
      simp [Nat.ne_of_gt below]

/-- A free that reaches frame `0` clears it. -/
theorem bitTest_freeLoop_zero (used : bitTest p 0 = true) : bitTest (freeLoop p 0 (left + 1)) 0 = false := by
  rw [freeLoop, if_neg (by simp [used, frameLimit_eq]), bitTest_freeLoop_below Nat.one_pos]
  exact (bitTest_bitClear p 0 0).trans (by simp)

theorem used_of_zero (zero : 0 ∉ freeSet p) : bitTest p 0 = true := (not_mem_freeSet (by decide)).1 zero

theorem zero_free_pmmFreeFrames (zero : 0 ∉ freeSet p) (framePtr count : Nat) :
    0 ∉ freeSet (pmmFreeFrames p framePtr count) ↔ (AnyCall.free framePtr count).OffFirstPage := by
  have used := used_of_zero zero
  rw [not_mem_freeSet (by decide), AnyCall.OffFirstPage, pmmPageSize_eq, pmmFreeFrames]
  by_cases nothing : framePtr = 0 ∨ count = 0
  · rw [if_pos nothing]
    exact iff_of_true used (by omega)
  · rw [if_neg nothing, pmmPageSize_eq]
    by_cases first : framePtr < 4096
    · have page : framePtr / 4096 = 0 := by omega
      obtain ⟨left, rfl⟩ : ∃ n, count = n + 1 := ⟨count - 1, by omega⟩
      rw [page, if_neg (by rw [frameLimit_eq]; omega), bitTest_freeLoop_zero used]
      exact iff_of_false Bool.false_ne_true (by omega)
    · refine iff_of_true ?_ (by omega)
      split
      · exact used
      · rw [bitTest_freeLoop_below (by omega)]
        exact used

/-- **What one call does to frame `0`.** -/
theorem AnyCall.zero_free_iff {q : State} (zero : 0 ∉ freeSet p) (step : c.run p = some q) :
    0 ∉ freeSet q ↔ c.OffFirstPage := by
  cases c with
  | alloc count =>
    rw [AnyCall.run, pmmAllocFrames_checked] at step
    cases step
    refine iff_of_true ?_ trivial
    rcases pmmAllocFrames_cases p count with ⟨eq, -⟩ | ⟨start, -, -, eq⟩
    · rw [eq]
      exact zero
    · rw [eq, freeSet_setRun, Finset.mem_sdiff]
      exact fun free => zero free.1
  | free framePtr count =>
    rw [AnyCall.run, pmmFreeFrames_checked] at step
    cases step
    exact zero_free_pmmFreeFrames zero framePtr count

/-! ## Sequences of calls -/

theorem anyUse_start (p : State) (boot : Boot) : (anyUse p boot).Run [] (pmmInit p boot) :=
  .start (pmmInit_checked boot)

theorem anyUse_next {q : State} (run : (anyUse p boot).Run cs q) (c : AnyCall) :
    ∃ q', c.run q = some q' ∧ (anyUse p boot).Run (cs ++ [c]) q' := by
  obtain ⟨q', step⟩ : ∃ q', c.run q = some q' := by
    cases c with
    | alloc count => exact ⟨_, congrArg (Option.map Prod.snd) (pmmAllocFrames_checked count)⟩
    | free framePtr count => exact ⟨_, pmmFreeFrames_checked framePtr count⟩
  exact ⟨q', step, run.snoc step⟩

/-- Every sequence of calls runs to its end. -/
theorem anyUse_total (p : State) (boot : Boot) (cs : List AnyCall) : ∃ q, (anyUse p boot).Run cs q := by
  induction cs using List.reverseRecOn with
  | nil => exact ⟨_, anyUse_start p boot⟩
  | append_singleton cs c ih =>
    obtain ⟨q, run⟩ := ih
    obtain ⟨q', -, next⟩ := anyUse_next run c
    exact ⟨q', next⟩

/-- Frame `0` stays reserved under calls off the first page. -/
theorem zero_reserved {q : State} (run : (anyUse p boot).Run cs q) (off : ∀ c ∈ cs, c.OffFirstPage) :
    0 ∉ freeSet q := by
  apply (run.restricted off).invariant
  · intro q init
    cases Option.some.inj (init.symm.trans (pmmInit_checked boot))
    exact zero_not_free p boot
  · intro q c q' zero step
    exact (AnyCall.zero_free_iff zero step.2).2 step.1

end

/-- **When a failed allocation changes nothing.** -/
theorem failed_alloc_unchanged_iff (p : State) (boot : Boot) (cs : List AnyCall) :
    (∀ pre q, pre <+: cs → (anyUse p boot).Run pre q → FailsUnchanged q) ↔ ∀ c ∈ cs, c.OffFirstPage := by
  constructor
  · induction cs using List.reverseRecOn with
    | nil => simp
    | append_singleton cs c ih =>
      intro safe
      obtain ⟨q, run⟩ := anyUse_total p boot cs
      obtain ⟨q', step, next⟩ := anyUse_next run c
      have before := failsUnchanged_iff.1 (safe cs q (List.prefix_append cs [c]) run)
      have after := failsUnchanged_iff.1 (safe _ q' List.prefix_rfl next)
      have earlier := ih fun pre q inside => safe pre q (inside.trans (List.prefix_append cs [c]))
      intro d member
      rcases List.mem_append.1 member with old | last
      · exact earlier d old
      · rw [List.mem_singleton.1 last]
        exact (AnyCall.zero_free_iff before step).1 after
  · intro off pre q inside run
    exact failsUnchanged_iff.2 (zero_reserved run fun c member => off c (inside.subset member))

/-- A free of address `0x800` clears frame `0`. -/
theorem first_page_clear : ∃ q, (anyUse bss unitTestBoot).Run [.free 0x800 1] q ∧ 0 ∈ freeSet q := by
  obtain ⟨q, step, run⟩ := anyUse_next (anyUse_start bss unitTestBoot) (.free 0x800 1)
  refine ⟨q, run, ?_⟩
  by_contra zero
  have off := (AnyCall.zero_free_iff (zero_not_free bss unitTestBoot) step).1 zero
  rw [AnyCall.OffFirstPage, pmmPageSize_eq] at off
  omega

/-- After that free the next allocation takes frame `0` and returns the null pointer. -/
theorem first_page_freed : ∃ q, (anyUse bss unitTestBoot).Run [.free 0x800 1] q ∧ 0 ∈ freeSet q ∧
    ¬ FailsUnchanged q := by
  obtain ⟨q, run, free⟩ := first_page_clear
  exact ⟨q, run, free, fun safe => failsUnchanged_iff.1 safe free⟩

end SimpleKernel.Pmm
