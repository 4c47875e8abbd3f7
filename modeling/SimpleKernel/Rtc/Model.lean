import Mathlib.Tactic.Common

/-!
# `rtc.c`: the CMOS clock

A device is the contents of its registers at every data read: the reads are numbered,
and between two of them the contents may change in any way. Every function takes the
number of the next read and returns the number after its last one. The two polling
loops of `rtc_read_time` run on fuel; `none` is a loop that has not ended.
-/

namespace SimpleKernel.Rtc
set_option autoImplicit false

/-- The value of register `reg` when it is read by the `k`-th data read. -/
abbrev Cmos := Nat → BitVec 8 → BitVec 8

/-- `rtc_time_t`. -/
structure RtcTime where
  second : BitVec 8
  minute : BitVec 8
  hour : BitVec 8
  day : BitVec 8
  month : BitVec 8
  year : BitVec 16
  deriving DecidableEq, Repr

/-- `outb(CMOS_INDEX_PORT, reg)`, then `inb(CMOS_DATA_PORT)`. -/
def cmosRead (cmos : Cmos) (clock : Nat) (reg : BitVec 8) : BitVec 8 × Nat := (cmos clock reg, clock + 1)

def rtcUpdating (cmos : Cmos) (clock : Nat) : Bool × Nat :=
  let (status, clock) := cmosRead cmos clock 0x0A
  (status &&& 0x80 != 0, clock)

def bcdToBin (value : BitVec 8) : BitVec 8 := (value &&& 0x0F) + value / 16 * 10

/-- The time registers and status B, in the order of the source. -/
def rtcSample (cmos : Cmos) (clock : Nat) : RtcTime × BitVec 8 × Nat :=
  let (second, clock) := cmosRead cmos clock 0x00
  let (minute, clock) := cmosRead cmos clock 0x02
  let (hour, clock) := cmosRead cmos clock 0x04
  let (day, clock) := cmosRead cmos clock 0x07
  let (month, clock) := cmosRead cmos clock 0x08
  let (year, clock) := cmosRead cmos clock 0x09
  let (statusB, clock) := cmosRead cmos clock 0x0B
  ({ second, minute, hour, day, month, year := year.setWidth 16 }, statusB, clock)

/-- `while (rtc_updating()) {}`. -/
def waitIdle (cmos : Cmos) : Nat → Nat → Option Nat
  | 0, _ => none
  | fuel + 1, clock =>
    let (updating, clock) := rtcUpdating cmos clock
    if updating then waitIdle cmos fuel clock else some clock

/-- What the `do` loop leaves: the last sample, status B, the next read, and the read at
which each sample of the loop began. -/
structure Settled where
  second : RtcTime
  statusB : BitVec 8
  clock : Nat
  starts : List Nat
  deriving DecidableEq, Repr

/-- The `do` loop of `rtc_read_time`, which compares with a sample taken before it. -/
def settle (cmos : Cmos) (wait : Nat) (first : RtcTime) : Nat → Nat → Option Settled
  | 0, _ => none
  | fuel + 1, clock =>
    match waitIdle cmos wait clock with
    | none => none
    | some start =>
      let (second, statusB, clock) := rtcSample cmos start
      if first ≠ second then
        (settle cmos wait first fuel clock).map fun r => { r with starts := start :: r.starts }
      else some ⟨second, statusB, clock, [start]⟩

/-- The registers decoded as status B says. -/
def decode (statusB : BitVec 8) (time : RtcTime) : RtcTime :=
  let time :=
    if statusB &&& 0x04 = 0 then
      { second := bcdToBin time.second
        minute := bcdToBin time.minute
        hour := (time.hour &&& 0x80) ||| bcdToBin (time.hour &&& 0x7F)
        day := bcdToBin time.day
        month := bcdToBin time.month
        year := (bcdToBin (time.year.setWidth 8)).setWidth 16 }
    else time
  let time :=
    if statusB &&& 0x02 = 0 ∧ time.hour &&& 0x80 ≠ 0 then { time with hour := ((time.hour &&& 0x7F) + 12) % 24 }
    else { time with hour := time.hour &&& 0x7F }
  { time with year := 2000 + time.year }

/-- A finished call: its result, `*time`, the next read, and the read at which each
sample began. -/
structure Reading where
  result : Nat
  time : Option RtcTime
  clock : Nat
  starts : List Nat
  deriving DecidableEq, Repr

/-- `time` is what the pointer points to, `none` for the null pointer. -/
def rtcReadTime (cmos : Cmos) (fuel : Nat) (time : Option RtcTime) (clock : Nat) : Option Reading :=
  match time with
  | none => some ⟨0, none, clock, []⟩
  | some _ =>
    match waitIdle cmos fuel clock with
    | none => none
    | some start =>
      let (first, _, clock) := rtcSample cmos start
      (settle cmos fuel first fuel clock).map fun r =>
        ⟨1, some (decode r.statusB r.second), r.clock, start :: r.starts⟩

/-- The registers of the unit tests, which never change. -/
def unitTestCmos : Cmos := fun _ reg =>
  if reg = 0x00 then 0x56 else if reg = 0x02 then 0x34 else if reg = 0x04 then 0x12
  else if reg = 0x07 then 0x15 else if reg = 0x08 then 0x03 else if reg = 0x09 then 0x26 else 0

example : (rtcReadTime unitTestCmos 1 (some ⟨0, 0, 0, 0, 0, 0⟩) 0).map Reading.time =
    some (some ⟨56, 34, 12, 15, 3, 2026⟩) := by decide

end SimpleKernel.Rtc
