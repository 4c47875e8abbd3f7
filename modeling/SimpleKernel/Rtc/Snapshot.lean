import SimpleKernel.Rtc.Settle

/-!
# No torn times

`rtc_read_time` reads six registers one by one, twice. When they are updated at most once
from the first read of the first sample to the last read of the last one, the update comes
after the first sample or before the last one ends: one of the two read the registers as they
stood at one instant, and the two are equal (`read_not_torn`).
-/

namespace SimpleKernel.Rtc
set_option autoImplicit false

/-- The contents of the time registers at the read `k`. -/
def registersAt (cmos : Cmos) (k : Nat) : RtcTime where
  second := cmos k 0x00
  minute := cmos k 0x02
  hour := cmos k 0x04
  day := cmos k 0x07
  month := cmos k 0x08
  year := (cmos k 0x09).setWidth 16

/-- From the read `lo` to before the read `hi` the time registers are updated at most once, and
status B never. -/
structure UpdatedOnce (cmos : Cmos) (lo hi : Nat) : Prop where
  regs : ∃ (T : Nat) (old new : BitVec 8 → BitVec 8), ∀ k, lo ≤ k → k < hi → ∀ reg ∈ timeRegs,
    cmos k reg = if k < T then old reg else new reg
  statusB : ∀ k, lo ≤ k → k < hi → cmos k 0x0B = cmos lo 0x0B

section

variable {cmos : Cmos} {wait fuel clock t u k lo hi : Nat} {first : RtcTime}

theorem sampleAt_registersAt (same : ∀ i, i < 6 → ∀ reg ∈ timeRegs, cmos (t + i) reg = cmos k reg) :
    sampleAt cmos t = registersAt cmos k := by
  have second := same 0 (by decide) 0x00 (by decide)
  have minute := same 1 (by decide) 0x02 (by decide)
  have hour := same 2 (by decide) 0x04 (by decide)
  have day := same 3 (by decide) 0x07 (by decide)
  have month := same 4 (by decide) 0x08 (by decide)
  have year := same 5 (by decide) 0x09 (by decide)
  simp only [sampleAt, rtcSample, registersAt, cmosRead, Nat.add_zero, Nat.add_assoc, Nat.reduceAdd] at *
  rw [second, minute, hour, day, month, year]

/-! ## The samples of a call -/

/-- What the loop returns comes from its last sample, which is equal to `first`. -/
theorem settle_last {r : Settled} (h : settle cmos wait first fuel clock = some r) :
    ∃ u, r.starts.getLast? = some u ∧ clock < u ∧ first = sampleAt cmos u ∧
      r = ⟨sampleAt cmos u, cmos (u + 6) 0x0B, u + 7, r.starts⟩ := by
  induction fuel generalizing clock r with
  | zero => cases h
  | succ fuel ih =>
    cases start : waitIdle cmos wait clock with
    | none =>
      rw [settle, start] at h
      cases h
    | some t =>
      rw [settle_succ start] at h
      have after := (waitIdle_next start).after
      by_cases same : first = sampleAt cmos t
      · rw [if_pos same] at h
        cases h
        exact ⟨t, rfl, after, same, rfl⟩
      · rw [if_neg same, Option.map_eq_some_iff] at h
        obtain ⟨r', eq, rfl⟩ := h
        obtain ⟨u, last, later, same', fields⟩ := ih eq
        rw [fields]
        refine ⟨u, ?_, by omega, same', rfl⟩
        rw [List.getLast?_cons, last]
        rfl

/-- The call decodes its last sample, which is equal to its first one. -/
theorem rtcReadTime_samples {old : RtcTime} {r : Reading} (h : rtcReadTime cmos fuel (some old) clock = some r) :
    ∃ t u, r.starts.head? = some t ∧ r.starts.getLast? = some u ∧ t + 7 < u ∧ r.clock = u + 7 ∧
      sampleAt cmos t = sampleAt cmos u ∧ r.time = some (decode (cmos (u + 6) 0x0B) (sampleAt cmos u)) := by
  unfold rtcReadTime at h
  cases start : waitIdle cmos fuel clock with
  | none =>
    rw [start] at h
    cases h
  | some t =>
    rw [start] at h
    dsimp only at h
    rw [Option.map_eq_some_iff] at h
    obtain ⟨s, loop, rfl⟩ := h
    obtain ⟨u, last, later, same, fields⟩ := settle_last loop
    rw [fields]
    refine ⟨t, u, rfl, ?_, later, rfl, same, rfl⟩
    rw [List.getLast?_cons, last]
    rfl

/-! ## One update -/

/-- A sample that lies on one side of the update. -/
theorem UpdatedOnce.whole (h : UpdatedOnce cmos lo hi) (after : lo ≤ t) (room : t + 7 < u) (fits : u + 7 ≤ hi) :
    sampleAt cmos t = registersAt cmos t ∨ sampleAt cmos u = registersAt cmos u := by
  obtain ⟨T, old, new, regs⟩ := h.regs
  by_cases before : t + 6 ≤ T
  · left
    refine sampleAt_registersAt fun i small reg member => ?_
    rw [regs (t + i) (by omega) (by omega) reg member, regs t (by omega) (by omega) reg member, if_pos (by omega),
      if_pos (by omega)]
  · right
    refine sampleAt_registersAt fun i small reg member => ?_
    rw [regs (u + i) (by omega) (by omega) reg member, regs u (by omega) (by omega) reg member, if_neg (by omega),
      if_neg (by omega)]

end

/-- **No torn time.** If the time registers are updated at most once while the call samples them,
then what it decodes are the contents of all of them at one instant. -/
theorem read_not_torn (cmos : Cmos) (fuel : Nat) (old : RtcTime) (clock : Nat) (r : Reading) (start : Nat)
    (call : rtcReadTime cmos fuel (some old) clock = some r) (sampling : r.starts.head? = some start)
    (once : UpdatedOnce cmos start r.clock) :
    ∃ last k, r.starts.getLast? = some last ∧ start ≤ k ∧ k < r.clock ∧ sampleAt cmos last = registersAt cmos k ∧
      r.time = some (decode (cmos k 0x0B) (registersAt cmos k)) := by
  obtain ⟨t, u, head, last, room, fin, same, time⟩ := rtcReadTime_samples call
  obtain rfl := Option.some.inj (sampling.symm.trans head)
  have status : ∀ k, start ≤ k → k < r.clock → cmos (u + 6) 0x0B = cmos k 0x0B := fun k lo hi =>
    (once.statusB (u + 6) (by omega) (by omega)).trans (once.statusB k lo hi).symm
  rcases once.whole (Nat.le_refl start) room (Nat.le_of_eq fin.symm) with before | after
  · have whole := same.symm.trans before
    refine ⟨u, start, last, Nat.le_refl start, by omega, whole, ?_⟩
    rw [time, whole, status start (Nat.le_refl start) (by omega)]
  · refine ⟨u, u, last, by omega, by omega, after, ?_⟩
    rw [time, after, status u (by omega) (by omega)]

/-- The day goes from 15 to 16 between two reads of the first sample, and nothing else changes. -/
def dayCmos : Cmos := fun k reg => if reg = 0x07 ∧ 3 ≤ k then 0x16 else unitTestCmos k reg

theorem dayCmos_updated (hi : Nat) : UpdatedOnce dayCmos 1 hi := by
  refine ⟨⟨3, unitTestCmos 0, dayCmos 3, fun k _ _ reg _ => ?_⟩, fun _ _ _ => rfl⟩
  unfold dayCmos
  by_cases early : k < 3
  · rw [if_neg fun h => Nat.not_le.2 early h.2, if_pos early]
    rfl
  · simp only [if_neg early, Nat.not_lt.1 early, Nat.le_refl, and_true]
    rfl

theorem read_not_torn_day : ∃ r, rtcReadTime dayCmos 1 (some ⟨0, 0, 0, 0, 0, 0⟩) 0 = some r ∧
    ∃ last k, r.starts.getLast? = some last ∧ 1 ≤ k ∧ k < r.clock ∧ sampleAt dayCmos last = registersAt dayCmos k ∧
      r.time = some (decode (dayCmos k 0x0B) (registersAt dayCmos k)) :=
  ⟨⟨1, some ⟨56, 34, 12, 16, 3, 2026⟩, 16, [1, 9]⟩, by decide,
    read_not_torn dayCmos 1 ⟨0, 0, 0, 0, 0, 0⟩ 0 _ 1 (by decide) rfl (dayCmos_updated 16)⟩

end SimpleKernel.Rtc
