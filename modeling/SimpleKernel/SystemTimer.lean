import Mathlib.Logic.Function.Iterate
import Mathlib.Order.Monotone.Basic
import Mathlib.Order.Lattice.Nat
import SimpleKernel.Lib.Word

/-!
# `system.c`: the tick counter and `system_sleep_ms`

`timer_ticks` is a 64-bit counter that the timer interrupt increments. A schedule says how
many interrupts come before each poll of the loop of `system_sleep_ms`: `ticks 0` between
the call and the first poll, `ticks 1` while the processor is halted after it, and so on.
The deadline is a sum in 64 bits. `neverEarly_iff` says for which counters, delays and
schedules the loop waits long enough.
-/

namespace SimpleKernel.SystemTimer
set_option autoImplicit false
open Lib

def systemTimerTick (timerTicks : Nat) : Nat := u64 (timerTicks + 1)

def systemGetUptimeMs (timerTicks : Nat) : Nat := timerTicks

/-- `while (system_get_uptime_ms() < deadline) cpu_hlt()`, from the poll number `poll` on: the
number of polls made and the counter. -/
def sleepLoop (ticks : Nat → Nat) (deadline : Nat) : Nat → Nat → Nat → Option (Nat × Nat)
  | 0, _, _ => none
  | fuel + 1, poll, timerTicks =>
    let timerTicks := systemTimerTick^[ticks poll] timerTicks
    if systemGetUptimeMs timerTicks < deadline then sleepLoop ticks deadline fuel (poll + 1) timerTicks
    else some (poll + 1, timerTicks)

def systemSleepMs (ticks : Nat → Nat) (fuel timerTicks delayMs : Nat) : Option (Nat × Nat) :=
  let deadline := u64 (systemGetUptimeMs timerTicks + delayMs)
  sleepLoop ticks deadline fuel 0 timerTicks

/-- The ticks counted up to the poll number `polls - 1`. -/
def counted (ticks : Nat → Nat) : Nat → Nat
  | 0 => 0
  | polls + 1 => counted ticks polls + ticks polls

/-- If the call returns, at least `delay` ticks have been counted since. -/
def NeverEarly (ticks : Nat → Nat) (timerTicks delay : Nat) : Prop :=
  ∀ fuel polls now, systemSleepMs ticks fuel timerTicks delay = some (polls, now) → delay ≤ counted ticks polls

section

variable {ticks : Nat → Nat} {deadline fuel poll polls timerTicks delay now : Nat}

theorem counted_mono (ticks : Nat → Nat) : Monotone (counted ticks) :=
  monotone_nat_of_le_succ fun polls => Nat.le_add_right (counted ticks polls) (ticks polls)

theorem iterate_systemTimerTick (n t : Nat) : systemTimerTick^[n] (u64 t) = u64 (t + n) := by
  induction n generalizing t with
  | zero => rfl
  | succ n ih =>
    have once : systemTimerTick (u64 t) = u64 (t + 1) := by
      unfold systemTimerTick u64
      omega
    rw [Function.iterate_succ_apply, once, ih, Nat.add_right_comm, Nat.add_assoc]

/-- The counter at a poll. -/
theorem timer_at_poll (ticks : Nat → Nat) (start poll : Nat) :
    systemTimerTick^[ticks poll] (u64 (start + counted ticks poll)) = u64 (start + counted ticks (poll + 1)) := by
  rw [iterate_systemTimerTick, Nat.add_assoc]
  rfl

/-- The loop ends at a poll that finds the deadline passed. -/
theorem sleepLoop_wakes {start : Nat}
    (loop : sleepLoop ticks deadline fuel poll (u64 (start + counted ticks poll)) = some (polls, now)) :
    poll < polls ∧ deadline ≤ u64 (start + counted ticks polls) := by
  induction fuel generalizing poll with
  | zero => cases loop
  | succ fuel ih =>
    rw [sleepLoop, timer_at_poll] at loop
    by_cases wait : systemGetUptimeMs (u64 (start + counted ticks (poll + 1))) < deadline
    · rw [if_pos wait] at loop
      obtain ⟨later, passed⟩ := ih loop
      exact ⟨by omega, passed⟩
    · rw [if_neg wait] at loop
      cases loop
      exact ⟨Nat.lt_succ_self poll, Nat.not_lt.1 wait⟩

theorem systemSleepMs_wakes (small : timerTicks < 2 ^ 64)
    (call : systemSleepMs ticks fuel timerTicks delay = some (polls, now)) :
    0 < polls ∧ u64 (timerTicks + delay) ≤ u64 (timerTicks + counted ticks polls) := by
  unfold systemSleepMs systemGetUptimeMs at call
  have start : u64 (timerTicks + counted ticks 0) = timerTicks := by
    rw [show counted ticks 0 = 0 from rfl, Nat.add_zero, u64_of_lt small]
  apply sleepLoop_wakes
  rw [start]
  exact call

/-- A deadline that has passed by the first poll ends the loop there. -/
theorem systemSleepMs_first (small : timerTicks < 2 ^ 64)
    (passed : u64 (timerTicks + delay) ≤ u64 (timerTicks + ticks 0)) :
    systemSleepMs ticks (fuel + 1) timerTicks delay = some (1, u64 (timerTicks + ticks 0)) := by
  have first := timer_at_poll ticks timerTicks 0
  simp only [counted, Nat.add_zero, Nat.zero_add, u64_of_lt small] at first
  rw [systemSleepMs, sleepLoop, first]
  exact if_neg (Nat.not_lt.2 passed)

/-- **When `system_sleep_ms` does not wake early**: the deadline does not wrap, or the counter has
wrapped as well by the first poll. -/
theorem neverEarly_iff (small : timerTicks < 2 ^ 64) (word : delay < 2 ^ 64) : NeverEarly ticks timerTicks delay ↔
    timerTicks + delay < 2 ^ 64 ∨ 2 ^ 64 ≤ timerTicks + ticks 0 := by
  constructor
  · intro honest
    by_contra wraps
    obtain ⟨carried, under⟩ := not_or.1 wraps
    have early := @systemSleepMs_first ticks 0 timerTicks delay small (by unfold u64; omega)
    have enough := honest 1 1 _ early
    simp only [counted, Nat.zero_add] at enough
    omega
  · intro safe fuel polls now call
    obtain ⟨some', passed⟩ := systemSleepMs_wakes small call
    have more := counted_mono ticks (Nat.succ_le_of_lt some')
    simp only [counted, Nat.zero_add] at more
    have le := u64_le (timerTicks + counted ticks polls)
    by_cases fits : timerTicks + delay < 2 ^ 64
    · rw [u64_of_lt fits] at passed
      omega
    · -- both sums have wrapped
      have carried := safe.resolve_left fits
      unfold u64 at passed
      omega

end

end SimpleKernel.SystemTimer
