import SimpleKernel.Pmm.Init

/-!
# The range arithmetic of `pmm.c`

`free_range` rounds its base up and `reserve_range` the end of its range, both in 64 bits
and without a check. `ranges_exact_iff` says for every bitmap and every base and length
when the frames touched are those of the range over the integers: when the rounding does
not wrap, or the bits at stake have their value already.
-/

namespace SimpleKernel.Pmm
set_option autoImplicit false
open Lib Kstring

/-- The frame has a byte of `[base, base + length)`. -/
def Meets (base length f : Nat) : Prop := ∃ a, f * 4096 ≤ a ∧ a < (f + 1) * 4096 ∧ base ≤ a ∧ a < base + length

/-- `free_range` clears bits of frames wholly inside the range only. -/
def FreesInside (p : State) (base length : Nat) : Prop :=
  ∀ f, f < pmmMaxFrames → bitTest p f = true → bitTest (freeRange p base length) f = false →
    base ≤ f * 4096 ∧ (f + 1) * 4096 ≤ base + length

/-- `reserve_range` leaves no frame of the range free. -/
def ReservesAll (p : State) (base length : Nat) : Prop :=
  ∀ f, f < pmmMaxFrames → Meets base length f → bitTest (reserveRange p base length) f = true

/-- Rounding the base up does not wrap, or the frames below the end are free already. -/
def BaseRounds (p : State) (base length : Nat) : Prop :=
  base + 4095 < 2 ^ 64 ∨ ∀ f, f < pmmMaxFrames → (f + 1) * 4096 ≤ u64 (base + length) → bitTest p f = false

/-- Rounding the end up does not wrap, or the frames from the base on are used already, but for
one that a range round the whole address space comes back to. -/
def EndRounds (p : State) (base length : Nat) : Prop :=
  base + length + 4095 < 2 ^ 64 ∨ ∀ f, f < pmmMaxFrames → base < (f + 1) * 4096 →
    bitTest p f = true ∨ (2 ^ 64 ≤ base + length ∧ f * 4096 < u64 (base + length))

section

variable {p : State} {base length f : Nat}

theorem bitTest_freeRange (small : f < pmmMaxFrames) : bitTest (freeRange p base length) f = false ↔
    bitTest p f = false ∨ (pageAlignUp base ≤ f * 4096 ∧ f * 4096 < pageAlignDown (u64 (base + length))) := by
  have member := @mem_freeSet_freeRange p base length f
  simpa only [mem_freeSet, small, true_and] using member

theorem bitTest_reserveRange (small : f < pmmMaxFrames) : bitTest (reserveRange p base length) f = true ↔
    bitTest p f = true ∨ (pageAlignDown base ≤ f * 4096 ∧ f * 4096 < pageAlignUp (u64 (base + length))) := by
  have member := @mem_freeSet_reserveRange p base length f
  simp only [mem_freeSet, small, true_and] at member
  rw [← Bool.not_eq_false, member, ← Bool.not_eq_false]
  tauto

theorem u64_wraps {a b : Nat} (ha : a < 2 ^ 64) (hb : b < 2 ^ 64) (wraps : 2 ^ 64 ≤ a + b) :
    u64 (a + b) = a + b - 2 ^ 64 := by
  unfold u64
  omega

/-! ## `free_range` -/

theorem freesInside_of_rounds (hb : base < 2 ^ 64) (hl : length < 2 ^ 64) (rounds : base + 4095 < 2 ^ 64) :
    FreesInside p base length := by
  intro f small used freed
  rw [bitTest_freeRange small, used] at freed
  obtain ⟨lo, hi⟩ := freed.resolve_left (by decide)
  rw [pageAlignUp_of_lt rounds] at lo
  rw [pageAlignDown_of_lt (u64_lt _)] at hi
  by_cases wraps : 2 ^ 64 ≤ base + length
  · -- the end is below the base
    rw [u64_wraps hb hl wraps] at hi
    omega
  · rw [u64_of_lt (by omega)] at hi
    omega

/-- The wrapped base is address `0`. -/
theorem freesInside_wrapped (hb : base < 2 ^ 64) (wraps : 2 ^ 64 ≤ base + 4095) :
    FreesInside p base length ↔ ∀ f, f < pmmMaxFrames → (f + 1) * 4096 ≤ u64 (base + length) → bitTest p f = false := by
  have zero : pageAlignUp base = 0 := by
    rw [pageAlignUp_eq]
    unfold u64
    omega
  constructor
  · intro inside f small below
    by_contra used
    rw [Bool.not_eq_false] at used
    have freed := inside f small used
    rw [bitTest_freeRange small, zero, pageAlignDown_of_lt (u64_lt _)] at freed
    rw [pmmMaxFrames_eq] at small
    have := (freed (.inr ⟨Nat.zero_le _, by omega⟩)).1
    omega
  · intro clear f small used freed
    rw [bitTest_freeRange small, zero, pageAlignDown_of_lt (u64_lt _), used] at freed
    obtain ⟨-, below⟩ := freed.resolve_left (by decide)
    have free := clear f small (by omega)
    rw [used] at free
    cases free

/-! ## `reserve_range` -/

theorem reservesAll_of_rounds (rounds : base + length + 4095 < 2 ^ 64) : ReservesAll p base length := by
  intro f small meets
  obtain ⟨a, lo, hi, above, below⟩ := meets
  rw [bitTest_reserveRange small, u64_of_lt (by omega), pageAlignUp_of_lt rounds, pageAlignDown_of_lt (by omega)]
  omega

/-- A range that passes `2 ^ 64` meets every frame from its base on. -/
theorem meets_wrapped (small : f < pmmMaxFrames) (wraps : 2 ^ 64 ≤ base + length + 4095) :
    Meets base length f ↔ base < (f + 1) * 4096 := by
  rw [pmmMaxFrames_eq] at small
  constructor
  · intro meets
    obtain ⟨a, lo, hi, above, below⟩ := meets
    omega
  · intro below
    by_cases inside : base ≤ f * 4096
    · exact ⟨f * 4096, by omega⟩
    · exact ⟨base, by omega⟩

/-- The frames from the base on that it does reserve. -/
theorem reserved_wrapped (hb : base < 2 ^ 64) (hl : length < 2 ^ 64) (wraps : 2 ^ 64 ≤ base + length + 4095)
    (small : f < pmmMaxFrames) (below : base < (f + 1) * 4096) :
    (pageAlignDown base ≤ f * 4096 ∧ f * 4096 < pageAlignUp (u64 (base + length))) ↔
      2 ^ 64 ≤ base + length ∧ f * 4096 < u64 (base + length) := by
  rw [pmmMaxFrames_eq] at small
  rw [pageAlignDown_of_lt hb]
  by_cases carried : 2 ^ 64 ≤ base + length
  · rw [u64_wraps hb hl carried, pageAlignUp_of_lt (by omega)]
    omega
  · rw [u64_of_lt (by omega), pageAlignUp_eq]
    unfold u64
    omega

theorem reservesAll_wrapped (hb : base < 2 ^ 64) (hl : length < 2 ^ 64) (wraps : 2 ^ 64 ≤ base + length + 4095) :
    ReservesAll p base length ↔ ∀ f, f < pmmMaxFrames → base < (f + 1) * 4096 →
      bitTest p f = true ∨ (2 ^ 64 ≤ base + length ∧ f * 4096 < u64 (base + length)) := by
  refine forall_congr' fun f => forall_congr' fun small => ?_
  rw [meets_wrapped small wraps]
  refine forall_congr' fun below => ?_
  rw [bitTest_reserveRange small, reserved_wrapped hb hl wraps small below]

end

/-- **When the ranges are exact.** -/
theorem ranges_exact_iff (p : State) (base length : Nat) (hb : base < 2 ^ 64) (hl : length < 2 ^ 64) :
    (FreesInside p base length ↔ BaseRounds p base length) ∧ (ReservesAll p base length ↔ EndRounds p base length) := by
  constructor
  · by_cases rounds : base + 4095 < 2 ^ 64
    · exact ⟨fun _ => .inl rounds, fun _ => freesInside_of_rounds hb hl rounds⟩
    · rw [BaseRounds, freesInside_wrapped hb (Nat.not_lt.1 rounds)]
      exact (or_iff_right rounds).symm
  · by_cases rounds : base + length + 4095 < 2 ^ 64
    · exact ⟨fun _ => .inl rounds, fun _ => reservesAll_of_rounds rounds⟩
    · rw [EndRounds, reservesAll_wrapped hb hl (Nat.not_lt.1 rounds)]
      exact (or_iff_right rounds).symm

/-- The memory above 1 MiB of the unit tests' map, on a bitmap that is all set. -/
theorem ranges_exact_unit_test :
    FreesInside (allUsed ⟨fun _ => 0, 0, 0⟩) 0x100000 0x3F00000 ∧
      ReservesAll (allUsed ⟨fun _ => 0, 0, 0⟩) 0x100000 0x3F00000 := by
  obtain ⟨frees, reserves⟩ := ranges_exact_iff (allUsed ⟨fun _ => 0, 0, 0⟩) 0x100000 0x3F00000 (by decide) (by decide)
  exact ⟨frees.2 (.inl (by decide)), reserves.2 (.inl (by decide))⟩

/-- An empty entry at the last address frees frame `0`; a range over all addresses but the last
reserves nothing. -/
theorem ranges_wrap :
    (bitTest (freeRange (allUsed ⟨fun _ => 0, 0, 0⟩) (2 ^ 64 - 1) 0) 0 = false ∧
      ¬ FreesInside (allUsed ⟨fun _ => 0, 0, 0⟩) (2 ^ 64 - 1) 0) ∧
    (bitTest (reserveRange ⟨fun _ => 0, 0, 0⟩ 0 (2 ^ 64 - 1)) 0 = false ∧
      ¬ ReservesAll ⟨fun _ => 0, 0, 0⟩ 0 (2 ^ 64 - 1)) := by
  have first : 0 < pmmMaxFrames := by decide
  have freed : bitTest (freeRange (allUsed ⟨fun _ => 0, 0, 0⟩) (2 ^ 64 - 1) 0) 0 = false :=
    (bitTest_freeRange first).2 (.inr (by decide))
  have skipped : bitTest (reserveRange ⟨fun _ => 0, 0, 0⟩ 0 (2 ^ 64 - 1)) 0 = false := by
    rw [← Bool.not_eq_true, bitTest_reserveRange first]
    decide
  refine ⟨⟨freed, fun inside => ?_⟩, skipped, fun reserves => ?_⟩
  · have lower := (inside 0 first (bitTest_allUsed _ first) freed).1
    omega
  · have used := reserves 0 first ⟨0, by decide⟩
    rw [skipped] at used
    cases used

end SimpleKernel.Pmm
