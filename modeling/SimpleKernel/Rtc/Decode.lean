import SimpleKernel.Rtc.Settle

/-!
# What `rtc_read_time` decodes

The hardware keeps a time in one of four formats, which two bits of status B select
(`encodeTime`). Where the registers hold a time, the call returns it, except at the two
hours that 12-hour clocks call 12: midnight comes back as noon and noon as midnight
(`decode_encodeTime`).
-/

namespace SimpleKernel.Rtc
set_option autoImplicit false

/-! ## The four formats -/

/-- The data mode and the 24-hour bit of status B. -/
structure Format where
  binary : Bool
  h24 : Bool
  deriving DecidableEq

/-- A time of the years 2000 to 2099. -/
structure CalendarTime where
  second : Nat
  minute : Nat
  hour : Nat
  day : Nat
  month : Nat
  year : Nat
  second_lt : second < 60
  minute_lt : minute < 60
  hour_lt : hour < 24
  day_le : 1 ≤ day ∧ day ≤ 31
  month_le : 1 ≤ month ∧ month ≤ 12
  year_le : 2000 ≤ year ∧ year ≤ 2099

def CalendarTime.toRtcTime (t : CalendarTime) : RtcTime where
  second := BitVec.ofNat 8 t.second
  minute := BitVec.ofNat 8 t.minute
  hour := BitVec.ofNat 8 t.hour
  day := BitVec.ofNat 8 t.day
  month := BitVec.ofNat 8 t.month
  year := BitVec.ofNat 16 t.year

/-- A number in a register: in binary, or one digit in each half of the byte. -/
def encodeByte (f : Format) (v : Nat) : BitVec 8 := BitVec.ofNat 8 (if f.binary then v else v / 10 * 16 + v % 10)

/-- The hour of a 12-hour clock, from 1 to 12. -/
def hour12 (hour : Nat) : Nat := if hour % 12 = 0 then 12 else hour % 12

/-- The hour register; in 12-hour mode bit 7 is set from noon on. -/
def encodeHour (f : Format) (hour : Nat) : BitVec 8 :=
  if f.h24 then encodeByte f hour else encodeByte f (hour12 hour) ||| if 12 ≤ hour then 0x80 else 0

/-- The registers that hold the time, as `rtc_sample` reads them. -/
def encodeTime (f : Format) (t : CalendarTime) : RtcTime where
  second := encodeByte f t.second
  minute := encodeByte f t.minute
  hour := encodeHour f t.hour
  day := encodeByte f t.day
  month := encodeByte f t.month
  year := (encodeByte f (t.year - 2000)).setWidth 16

/-- The two bits of status B. -/
def InFormat (f : Format) (statusB : BitVec 8) : Prop :=
  (statusB &&& 0x04 = 0 ↔ f.binary = false) ∧ (statusB &&& 0x02 = 0 ↔ f.h24 = false)

/-! ## Decoding -/

/-- What becomes of a byte that is not the hour. -/
def decodeByte (f : Format) (v : BitVec 8) : BitVec 8 := if f.binary then v else bcdToBin v

/-- What becomes of the hour register. -/
def decodeHour (f : Format) (v : BitVec 8) : BitVec 8 :=
  let v := if f.binary then v else (v &&& 0x80) ||| bcdToBin (v &&& 0x7F)
  if f.h24 = false ∧ v &&& 0x80 ≠ 0 then ((v &&& 0x7F) + 12) % 24 else v &&& 0x7F

theorem decode_eq {f : Format} {statusB : BitVec 8} (format : InFormat f statusB) (time : RtcTime) (year : BitVec 8)
    (wide : time.year = year.setWidth 16) : decode statusB time =
      { second := decodeByte f time.second
        minute := decodeByte f time.minute
        hour := decodeHour f time.hour
        day := decodeByte f time.day
        month := decodeByte f time.month
        year := 2000 + (decodeByte f year).setWidth 16 } := by
  obtain ⟨second, minute, hour, day, month, year'⟩ := time
  subst wide
  obtain ⟨binary, h24⟩ := f
  obtain ⟨data, hours⟩ := format
  unfold decode decodeHour decodeByte
  simp only [data, hours]
  have narrow : (year.setWidth 16).setWidth 8 = year := by simp
  cases binary with
  | false =>
    simp only [narrow, if_true, Bool.false_eq_true, if_false]
    split <;> rfl
  | true =>
    simp only [Bool.true_eq_false, if_true, if_false]
    split <;> rfl

theorem decodeByte_encodeByte (f : Format) {v : Nat} (small : v < 100) :
    decodeByte f (encodeByte f v) = BitVec.ofNat 8 v := by
  have digits : ∀ v, v < 100 → bcdToBin (BitVec.ofNat 8 (v / 10 * 16 + v % 10)) = BitVec.ofNat 8 v := by decide
  unfold decodeByte encodeByte
  cases f.binary with
  | false => exact digits v small
  | true => rfl

/-- The hour that the call makes of an hour. -/
def hourRead (f : Format) (hour : Nat) : Nat := if f.h24 = true ∨ (hour ≠ 0 ∧ hour ≠ 12) then hour else 12 - hour

theorem decodeHour_encodeHour (f : Format) {hour : Nat} (small : hour < 24) :
    decodeHour f (encodeHour f hour) = BitVec.ofNat 8 (hourRead f hour) := by
  obtain ⟨binary, h24⟩ := f
  have all : ∀ hour, hour < 24 → decodeHour ⟨binary, h24⟩ (encodeHour ⟨binary, h24⟩ hour) =
      BitVec.ofNat 8 (hourRead ⟨binary, h24⟩ hour) := by
    cases binary <;> cases h24 <;> decide
  exact all hour small

/-- **What decoding makes of a time**: all fields but the hour are right. -/
theorem decode_encodeTime {f : Format} {statusB : BitVec 8} (format : InFormat f statusB) (t : CalendarTime) :
    decode statusB (encodeTime f t) = { t.toRtcTime with hour := BitVec.ofNat 8 (hourRead f t.hour) } := by
  have year : 2000 + (BitVec.ofNat 8 (t.year - 2000)).setWidth 16 = BitVec.ofNat 16 t.year := by
    have century : ∀ y, y < 100 → 2000 + (BitVec.ofNat 8 y).setWidth 16 = BitVec.ofNat 16 (2000 + y) := by decide
    have bounds := t.year_le
    rw [century (t.year - 2000) (by omega), Nat.add_sub_cancel' bounds.1]
  have second := t.second_lt
  have minute := t.minute_lt
  have day := t.day_le
  have month := t.month_le
  have last := t.year_le
  rw [decode_eq format _ (encodeByte f (t.year - 2000)) rfl]
  unfold encodeTime CalendarTime.toRtcTime
  dsimp only
  rw [decodeByte_encodeByte f (by omega), decodeByte_encodeByte f (by omega), decodeByte_encodeByte f (by omega),
    decodeByte_encodeByte f (by omega), decodeByte_encodeByte f (by omega), decodeHour_encodeHour f t.hour_lt, year]

/-! ## A clock that holds a time -/

/-- From the read `clock` on the registers hold the time `t` in the format `f`, and the
update-in-progress bit is clear again and again. -/
structure Holds (cmos : Cmos) (clock : Nat) (f : Format) (t : CalendarTime) : Prop where
  second : ∀ k, clock ≤ k → cmos k 0x00 = encodeByte f t.second
  minute : ∀ k, clock ≤ k → cmos k 0x02 = encodeByte f t.minute
  hour : ∀ k, clock ≤ k → cmos k 0x04 = encodeHour f t.hour
  day : ∀ k, clock ≤ k → cmos k 0x07 = encodeByte f t.day
  month : ∀ k, clock ≤ k → cmos k 0x08 = encodeByte f t.month
  year : ∀ k, clock ≤ k → cmos k 0x09 = encodeByte f (t.year - 2000)
  statusB : ∀ k, clock ≤ k → InFormat f (cmos k 0x0B)
  idle : ∀ k, ∃ u, k ≤ u ∧ ¬ Updating cmos u

/-- A call from the read `clock` on returns 1 and the time. -/
structure ReadsAs (cmos : Cmos) (clock : Nat) (time : RtcTime) : Prop where
  returns : ∀ old, ∃ fuel r, rtcReadTime cmos fuel (some old) clock = some r
  exact : ∀ old fuel r, rtcReadTime cmos fuel (some old) clock = some r → r.result = 1 ∧ r.time = some time

section

variable {cmos : Cmos} {clock : Nat} {f : Format} {t : CalendarTime}

theorem Holds.sampleAt (h : Holds cmos clock f t) {k : Nat} (late : clock ≤ k) : sampleAt cmos k = encodeTime f t := by
  unfold Rtc.sampleAt rtcSample cmosRead encodeTime
  dsimp only
  rw [h.second k late, h.minute _ (by omega), h.hour _ (by omega), h.day _ (by omega), h.month _ (by omega),
    h.year _ (by omega)]

theorem Holds.format (h : Holds cmos clock f t) {k : Nat} (late : clock ≤ k) : InFormat f (rtcSample cmos k).2.1 :=
  h.statusB (k + 6) (by omega)

/-- The first two samples agree. -/
theorem Holds.returns (h : Holds cmos clock f t) (old : RtcTime) :
    ∃ fuel r, rtcReadTime cmos fuel (some old) clock = some r := by
  obtain ⟨u, later, idle⟩ := h.idle clock
  obtain ⟨first, zero⟩ := nextIdle_of_idle later idle
  obtain ⟨u', later', idle'⟩ := h.idle (first + 7)
  obtain ⟨second, one⟩ := nextIdle_of_idle later' idle'
  have after := zero.after
  have after' := one.after
  have same : Rtc.sampleAt cmos first = Rtc.sampleAt cmos second := by
    rw [h.sampleAt (by omega), h.sampleAt (by omega)]
  obtain ⟨fuel, r, eq, -⟩ := (@rtcReadTime_ends _ _ old _).2 ⟨first, _, rfl, zero, .same one same⟩
  exact ⟨fuel, r, eq⟩

/-- The sample that ends the loop, and status B with it. -/
theorem settle_reads {wait fuel k : Nat} {first : RtcTime} {r : Settled} (eq : settle cmos wait first fuel k = some r) :
    ∃ u, k ≤ u ∧ r.second = sampleAt cmos u ∧ r.statusB = (rtcSample cmos u).2.1 := by
  induction fuel generalizing k r with
  | zero => cases eq
  | succ fuel ih =>
    cases start : waitIdle cmos wait k with
    | none =>
      rw [settle, start] at eq
      cases eq
    | some u =>
      have after := (waitIdle_next start).after
      rw [settle_succ start] at eq
      split at eq
      · cases eq
        exact ⟨u, Nat.le_of_lt after, rfl, rfl⟩
      · obtain ⟨r', rest, rfl⟩ := Option.map_eq_some_iff.1 eq
        obtain ⟨u', later, second, statusB⟩ := ih rest
        exact ⟨u', by omega, second, statusB⟩

/-- Whatever the fuel, a call that returns has decoded the time. -/
theorem Holds.decodes (h : Holds cmos clock f t) {old : RtcTime} {fuel : Nat} {r : Reading}
    (eq : rtcReadTime cmos fuel (some old) clock = some r) :
    r.result = 1 ∧ r.time = some { t.toRtcTime with hour := BitVec.ofNat 8 (hourRead f t.hour) } := by
  unfold rtcReadTime at eq
  cases start : waitIdle cmos fuel clock with
  | none =>
    rw [start] at eq
    cases eq
  | some first =>
    have after := (waitIdle_next start).after
    rw [start] at eq
    obtain ⟨s, loop, rfl⟩ := Option.map_eq_some_iff.1 eq
    obtain ⟨u, later, second, statusB⟩ := settle_reads loop
    refine ⟨rfl, ?_⟩
    dsimp only
    rw [second, statusB, h.sampleAt (by omega), decode_encodeTime (h.format (by omega))]

/-- **When the call inverts the encoding**: in 24-hour mode, and in 12-hour mode at every hour but
midnight and noon. -/
theorem rtc_reads_time_iff (h : Holds cmos clock f t) :
    ReadsAs cmos clock t.toRtcTime ↔ f.h24 = true ∨ (t.hour ≠ 0 ∧ t.hour ≠ 12) := by
  constructor
  · intro reads
    obtain ⟨fuel, r, eq⟩ := h.returns ⟨0, 0, 0, 0, 0, 0⟩
    have time := (reads.exact _ _ _ eq).2
    rw [(h.decodes eq).2] at time
    have hour : BitVec.ofNat 8 (hourRead f t.hour) = BitVec.ofNat 8 t.hour :=
      congrArg RtcTime.hour (Option.some.inj time)
    have small := t.hour_lt
    by_contra twelve
    rw [hourRead, if_neg twelve] at hour
    have eq := congrArg BitVec.toNat hour
    rw [BitVec.toNat_ofNat, BitVec.toNat_ofNat] at eq
    omega
  · intro usual
    constructor
    · exact h.returns
    · intro old fuel r eq
      obtain ⟨result, time⟩ := h.decodes eq
      rw [hourRead, if_pos usual] at time
      exact ⟨result, time⟩

end

/-- Registers that never change. -/
def steadyCmos (f : Format) (t : CalendarTime) (statusB : BitVec 8) : Cmos := fun _ reg =>
  if reg = 0x00 then encodeByte f t.second else if reg = 0x02 then encodeByte f t.minute
  else if reg = 0x04 then encodeHour f t.hour else if reg = 0x07 then encodeByte f t.day
  else if reg = 0x08 then encodeByte f t.month else if reg = 0x09 then encodeByte f (t.year - 2000)
  else if reg = 0x0B then statusB else 0

theorem steadyCmos_holds {f : Format} {statusB : BitVec 8} (format : InFormat f statusB)
    (t : CalendarTime) (clock : Nat) :
    Holds (steadyCmos f t statusB) clock f t := by
  constructor
  · exact fun _ _ => rfl
  · exact fun _ _ => rfl
  · exact fun _ _ => rfl
  · exact fun _ _ => rfl
  · exact fun _ _ => rfl
  · exact fun _ _ => rfl
  · exact fun _ _ => format
  · intro k
    exact ⟨k, Nat.le_refl k, idle_of_status rfl⟩

/-- 15 March 2026, at the given hour. -/
def marchDay (hour : Nat) (small : hour < 24) : CalendarTime :=
  ⟨56, 34, hour, 15, 3, 2026, by decide, by decide, small, by decide, by decide, by decide⟩

theorem rtc_reads_time_iff_evening :
    ReadsAs (steadyCmos ⟨false, false⟩ (marchDay 23 (by decide)) 0) 0 (marchDay 23 (by decide)).toRtcTime := by
  have holds := @steadyCmos_holds ⟨false, false⟩ 0 (by unfold InFormat; decide) (marchDay 23 (by decide)) 0
  exact (rtc_reads_time_iff holds).2 (.inr (by decide))

/-- Noon on a 12-hour clock, PM bit and all, is read as hour 0. -/
theorem noon_read_as_midnight :
    Holds (steadyCmos ⟨false, false⟩ (marchDay 12 (by decide)) 0) 0 ⟨false, false⟩ (marchDay 12 (by decide)) ∧
      (rtcReadTime (steadyCmos ⟨false, false⟩ (marchDay 12 (by decide)) 0) 1
        (some ⟨0, 0, 0, 0, 0, 0⟩) 0).map Reading.time = some (some (marchDay 0 (by decide)).toRtcTime) ∧
      ¬ ReadsAs (steadyCmos ⟨false, false⟩ (marchDay 12 (by decide)) 0) 0 (marchDay 12 (by decide)).toRtcTime := by
  refine ⟨steadyCmos_holds (by unfold InFormat; decide) _ 0, by decide, ?_⟩
  intro reads
  have run : rtcReadTime (steadyCmos ⟨false, false⟩ (marchDay 12 (by decide)) 0) 1 (some ⟨0, 0, 0, 0, 0, 0⟩) 0 =
      some ⟨1, some (marchDay 0 (by decide)).toRtcTime, 16, [1, 9]⟩ := by decide
  exact absurd (reads.exact _ _ _ run).2 (by decide)

end SimpleKernel.Rtc
