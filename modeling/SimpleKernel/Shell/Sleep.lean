import SimpleKernel.Kstring.Numbers
import SimpleKernel.Shell.Model
import SimpleKernel.SystemTimer

/-!
# The `sleep` command

`cmd_sleep` waits for as many milliseconds as its first argument says. The argument is read
modulo `2 ^ 64` and the deadline is a sum modulo `2 ^ 64`; the command waits long enough on
every schedule exactly when the sum of the counter and the number typed stays below `2 ^ 64`
(`sleep_never_early_iff`).
-/

namespace SimpleKernel.Shell
set_option autoImplicit false
open Lib Kstring SystemTimer

def asciiText (s : String) : List (BitVec 8) := s.toList.map fun c => BitVec.ofNat 8 c.toNat

/-- `kprint_u64`; `buffer` and `tmp` are what its array and the one of `convert_u64` hold before. -/
def kprintU64 (buffer tmp : Mem) (value : Nat) : Option Output :=
  let text := ku64ToDec buffer tmp 0 32 value
  (scan 32 text (fun c => c != 0) 32 0).map fun n => .kprint ((List.range n).map text)

/-- `argc > 0 && !ku64_parse(args[0], &delay_ms)` is that the first component is `0`; the second is
`delay_ms`. -/
def sleepDelay (size : Nat) (m : Mem) (args : List Nat) : Option (Nat × Option Nat) :=
  match args with
  | [] => some (1, some 100)
  | arg :: _ => ku64Parse size m (some arg) (some 100)

/-- What the command prints, and what `system_sleep_ms` came back with if it was called. -/
def cmdSleep (ticks : Nat → Nat) (fuel timerTicks : Nat) (buffer tmp : Mem) (size : Nat) (m : Mem) (args : List Nat) :
    Option (List Output × Option (Nat × Nat)) := do
  let (accepted, delay) ← sleepDelay size m args
  if accepted = 0 then some ([.kprint (asciiText "Usage: sleep [ms]\n")], none)
  else do
    let delayMs := delay.getD 100
    let number ← kprintU64 buffer tmp delayMs
    let awake ← systemSleepMs ticks fuel timerTicks delayMs
    some ([.kprint (asciiText "Sleeping for "), number, .kprint (asciiText " ms...\n"), .kprint (asciiText "Awake\n")],
      some awake)

/-- Whenever the command wakes, at least `n` ticks have been counted. -/
def AwakeAfter (ticks : Nat → Nat) (timerTicks size : Nat) (m : Mem) (args : List Nat) (n : Nat) : Prop :=
  ∀ fuel buffer tmp out polls now,
    cmdSleep ticks fuel timerTicks buffer tmp size m args = some (out, some (polls, now)) → n ≤ counted ticks polls

section

variable {ticks : Nat → Nat} {fuel timerTicks size a n value : Nat} {m buffer tmp : Mem} {s : List (BitVec 8)}
  {rest : List Nat}

theorem decimal_length (small : value < 2 ^ 64) : (decimal.numeral value).length ≤ 20 := by
  unfold Alphabet.numeral
  split
  · decide
  · exact decimal.digits_length_le (Nat.lt_trans small (by decide))

/-- `kprint_u64` prints the decimal numeral. -/
theorem kprintU64_eq (small : value < 2 ^ 64) :
    kprintU64 buffer tmp value = some (.kprint (decimal.numeral value)) := by
  have length := decimal_length small
  have string : StrAt (ku64ToDec buffer tmp 0 32 value) 0 ((decimal.numeral value).take (32 - 1)) :=
    (convertU64_spec (by decide) rfl (by decide) (Nat.lt_trans small (by decide)) (by decide)).string
  rw [List.take_of_length_le (by omega)] at string
  have stop : scan 32 (ku64ToDec buffer tmp 0 32 value) (fun c => c != 0) 32 0 =
      some (0 + (decimal.numeral value).length) :=
    scan_string string (by omega) (by omega)
  rw [kprintU64, stop, Option.map_some, Nat.zero_add]
  refine congrArg (some ∘ Output.kprint) (List.ext_getElem (by simp) fun i hi hi' => ?_)
  have byte := string.bytes i hi'
  rw [Nat.zero_add] at byte
  simp [byte]

/-- On a text that `ku64_parse` accepts the command sleeps for its value modulo `2 ^ 64`. -/
theorem cmdSleep_typed (text : StrAt m a s) (inside : a + s.length < size) (some' : s ≠ [])
    (typed : decimal.read s = some n) :
    cmdSleep ticks fuel timerTicks buffer tmp size m (a :: rest) =
      (systemSleepMs ticks fuel timerTicks (u64 n)).map fun awake =>
        ([.kprint (asciiText "Sleeping for "), .kprint (decimal.numeral (u64 n)), .kprint (asciiText " ms...\n"),
          .kprint (asciiText "Awake\n")], some awake) := by
  have parsed := ku64Parse_eq text inside 100
  rw [if_neg some', typed] at parsed
  unfold cmdSleep sleepDelay
  dsimp only
  rw [parsed]
  simp only [Option.bind_eq_bind, Option.bind_some, one_ne_zero, if_false, Option.getD_some, kprintU64_eq (u64_lt n)]
  cases systemSleepMs ticks fuel timerTicks (u64 n) with
  | none => rfl
  | some awake => rfl

/-- The command waits for the number of ticks that `system_sleep_ms` is told, at least. -/
theorem awakeAfter_of_neverEarly (text : StrAt m a s) (inside : a + s.length < size) (some' : s ≠ [])
    (typed : decimal.read s = some n) (honest : NeverEarly ticks timerTicks (u64 n)) :
    AwakeAfter ticks timerTicks size m (a :: rest) (u64 n) := by
  intro fuel buffer tmp out polls now run
  rw [cmdSleep_typed text inside some' typed, Option.map_eq_some_iff] at run
  obtain ⟨awake, call, eq⟩ := run
  cases eq
  exact honest fuel polls now call

/-- A schedule on which a number that is too large wakes the command early: as many ticks at once as
the parsed number says if the deadline fits, and none if it wraps. -/
def earlySchedule (timerTicks n : Nat) : Nat → Nat := fun _ => if timerTicks + u64 n < 2 ^ 64 then u64 n else 0

theorem earlySchedule_wakes (small : timerTicks < 2 ^ 64) (carried : 2 ^ 64 ≤ timerTicks + n) :
    (∃ now, systemSleepMs (earlySchedule timerTicks n) 1 timerTicks (u64 n) = some (1, now)) ∧
      counted (earlySchedule timerTicks n) 1 < n := by
  have word := u64_lt n
  have le := u64_le n
  have one : counted (earlySchedule timerTicks n) 1 = earlySchedule timerTicks n 0 := Nat.zero_add _
  rw [one]
  by_cases fits : timerTicks + u64 n < 2 ^ 64
  · have first : earlySchedule timerTicks n 0 = u64 n := if_pos fits
    rw [first]
    refine ⟨⟨_, systemSleepMs_first small ?_⟩, by omega⟩
    rw [first]
  · have first : earlySchedule timerTicks n 0 = 0 := if_neg fits
    rw [first]
    refine ⟨⟨_, systemSleepMs_first small ?_⟩, by omega⟩
    rw [first, Nat.add_zero, u64_of_lt small]
    generalize u64 n = d at *
    unfold u64
    omega

theorem awakeAfter_iff (small : timerTicks < 2 ^ 64) (text : StrAt m a s) (inside : a + s.length < size)
    (some' : s ≠ []) (typed : decimal.read s = some n) :
    (∀ ticks, AwakeAfter ticks timerTicks size m (a :: rest) n) ↔ timerTicks + n < 2 ^ 64 := by
  constructor
  · intro honest
    by_contra carried
    obtain ⟨⟨now, call⟩, early⟩ := earlySchedule_wakes small (Nat.not_lt.1 carried)
    have run := @cmdSleep_typed (earlySchedule timerTicks n) 1 timerTicks size a n m (fun _ => 0)
      (fun _ => 0) s rest text inside some' typed
    rw [call] at run
    have enough := honest _ _ _ _ _ _ _ run
    omega
  · intro fits ticks
    have word : u64 n = n := u64_of_lt (by omega)
    have awake := @awakeAfter_of_neverEarly ticks timerTicks size a n m s rest text inside some' typed
    rw [word] at awake
    exact awake ((neverEarly_iff small (by omega)).2 (.inl fits))

end

/-- **When a sleep is long enough.** `system_sleep_ms` on a schedule, and the `sleep` command on all
schedules for a number that `ku64_parse` accepts. -/
theorem sleep_never_early_iff (timerTicks : Nat) (small : timerTicks < 2 ^ 64) :
    (∀ ticks delay, delay < 2 ^ 64 →
      (NeverEarly ticks timerTicks delay ↔ timerTicks + delay < 2 ^ 64 ∨ 2 ^ 64 ≤ timerTicks + ticks 0)) ∧
    (∀ size m a rest s n, StrAt m a s → a + s.length < size → s ≠ [] → decimal.read s = some n →
      ((∀ ticks, AwakeAfter ticks timerTicks size m (a :: rest) n) ↔ timerTicks + n < 2 ^ 64)) :=
  ⟨fun _ _ word => neverEarly_iff small word,
    fun _ _ _ _ _ _ text inside some' typed => awakeAfter_iff small text inside some' typed⟩

/-- An hour after the start, `sleep 4096` and a sleep of 100 ms. -/
theorem sleep_never_early_hour : NeverEarly (fun _ => 1) 3600000 100 ∧
    ∀ ticks, AwakeAfter ticks 3600000 5 (literal text4096) [0] 4096 := by
  obtain ⟨call, command⟩ := sleep_never_early_iff 3600000 (by decide)
  refine ⟨(call _ 100 (by decide)).2 (.inl (by decide)), ?_⟩
  exact (command 5 _ 0 [] text4096 4096 (strAt_getD (by decide)) (by decide) (by decide) (by decide)).2 (by decide)

/-- `18446744073709551615`, the largest number that fits. -/
def textMax64 : List (BitVec 8) :=
  [0x31, 0x38, 0x34, 0x34, 0x36, 0x37, 0x34, 0x34, 0x30, 0x37,
    0x33, 0x37, 0x30, 0x39, 0x35, 0x35, 0x31, 0x36, 0x31, 0x35]

/-- One tick after the start it does not wait at all. -/
theorem longest_sleep_returns : systemSleepMs (fun _ => 0) 1 1 (2 ^ 64 - 1) = some (1, 1) ∧
    ¬ NeverEarly (fun _ => 0) 1 (2 ^ 64 - 1) ∧
    (∃ out, cmdSleep (fun _ => 0) 1 1 (fun _ => 0) (fun _ => 0) 21 (literal textMax64) [0] = some (out, some (1, 1))) ∧
    ¬ AwakeAfter (fun _ => 0) 1 21 (literal textMax64) [0] (2 ^ 64 - 1) := by
  have call : systemSleepMs (fun _ => 0) 1 1 (2 ^ 64 - 1) = some (1, 1) := by decide
  have typed : decimal.read textMax64 = some (2 ^ 64 - 1) := by decide
  have word : u64 (2 ^ 64 - 1) = 2 ^ 64 - 1 := by decide
  have run := @cmdSleep_typed (fun _ => 0) 1 1 21 0 _ (literal textMax64) (fun _ => 0) (fun _ => 0) textMax64 []
    (strAt_getD (by decide)) (by decide) (by decide) typed
  rw [word, call, Option.map_some] at run
  refine ⟨call, fun honest => ?_, ⟨_, run⟩, fun honest => ?_⟩
  · exact absurd (honest 1 1 1 call) (by decide)
  · exact absurd (honest 1 _ _ _ 1 1 run) (by decide)

end SimpleKernel.Shell
