import SimpleKernel.Rtc.Model

/-!
# When `rtc_read_time` returns

The polling loop waits for the first idle read (`NextIdle`), so the device alone fixes
where sample `0`, `1`, … would begin (`SampleStart`). The stability loop compares each
sample with sample `0` and never replaces that one: it ends exactly at the first later
sample equal to it (`settle_ends`). Once the registers have settled, every further
sample is the settled one, so whether the call returns is decided by sample `0`
(`returns_iff`).
-/

namespace SimpleKernel.Rtc
set_option autoImplicit false

/-- The registers that `rtc_sample` compares. -/
def timeRegs : List (BitVec 8) := [0x00, 0x02, 0x04, 0x07, 0x08, 0x09]

/-- The update-in-progress bit, as the `k`-th read would see it. -/
def Updating (cmos : Cmos) (k : Nat) : Prop := (rtcUpdating cmos k).1 = true

/-- The time registers keep their contents from the read `T` on, and the
update-in-progress bit is eventually clear forever. -/
structure Settles (cmos : Cmos) (T : Nat) : Prop where
  regs : ∀ k, T ≤ k → ∀ reg ∈ timeRegs, cmos k reg = cmos T reg
  idle : ∃ U, ∀ k, U ≤ k → ¬ Updating cmos k

/-- The first idle poll from `k` on is the read before `t`. -/
structure NextIdle (cmos : Cmos) (k t : Nat) : Prop where
  after : k < t
  idle : ¬ Updating cmos (t - 1)
  busy : ∀ i, k ≤ i → i < t - 1 → Updating cmos i

/-- Sample `j` of a call entered at the read `clock` would begin at `t`. -/
inductive SampleStart (cmos : Cmos) (clock : Nat) : Nat → Nat → Prop
  | first {t : Nat} : NextIdle cmos clock t → SampleStart cmos clock 0 t
  | next {j t u : Nat} : SampleStart cmos clock j t → NextIdle cmos (t + 7) u → SampleStart cmos clock (j + 1) u

/-- The time registers as a sample beginning at `t` reads them. -/
def sampleAt (cmos : Cmos) (t : Nat) : RtcTime := (rtcSample cmos t).1

/-! ## Samples and polls -/

@[simp] theorem rtcSample_clock (cmos : Cmos) (t : Nat) : (rtcSample cmos t).2.2 = t + 7 := rfl

@[simp] theorem rtcUpdating_clock (cmos : Cmos) (k : Nat) : (rtcUpdating cmos k).2 = k + 1 := rfl

/-- After the registers have settled every sample is the same. -/
theorem Settles.sampleAt_eq {cmos : Cmos} {T : Nat} (h : Settles cmos T) {t : Nat} (late : T ≤ t) :
    sampleAt cmos t = sampleAt cmos T := by
  have same : ∀ i reg, reg ∈ timeRegs → cmos (t + i) reg = cmos (T + i) reg := by
    intro i reg member
    rw [h.regs (t + i) (by omega) reg member, h.regs (T + i) (by omega) reg member]
  have second := same 0 0x00 (by decide)
  have minute := same 1 0x02 (by decide)
  have hour := same 2 0x04 (by decide)
  have day := same 3 0x07 (by decide)
  have month := same 4 0x08 (by decide)
  have year := same 5 0x09 (by decide)
  simp only [sampleAt, rtcSample, cmosRead, Nat.add_zero, Nat.add_assoc, Nat.reduceAdd] at *
  rw [second, minute, hour, day, month, year]

theorem NextIdle.unique {cmos : Cmos} {k t u : Nat} (ht : NextIdle cmos k t) (hu : NextIdle cmos k u) : t = u := by
  have := ht.after
  have := hu.after
  rcases Nat.lt_trichotomy t u with lt | eq | gt
  · exact absurd (hu.busy (t - 1) (by omega) (by omega)) ht.idle
  · exact eq
  · exact absurd (ht.busy (u - 1) (by omega) (by omega)) hu.idle

/-- One busy poll more. -/
theorem NextIdle.earlier {cmos : Cmos} {k t : Nat} (h : NextIdle cmos (k + 1) t) (busy : Updating cmos k) :
    NextIdle cmos k t := by
  refine ⟨by have := h.after; omega, h.idle, fun i lo hi => ?_⟩
  rcases Nat.eq_or_lt_of_le lo with rfl | lt
  · exact busy
  · exact h.busy i lt hi

/-- An idle poll to come ends the wait. -/
theorem nextIdle_of_idle {cmos : Cmos} {k u : Nat} (later : k ≤ u) (idle : ¬ Updating cmos u) :
    ∃ t, NextIdle cmos k t := by
  obtain ⟨n, rfl⟩ := Nat.exists_eq_add_of_le later
  induction n generalizing k with
  | zero => exact ⟨k + 1, Nat.lt_succ_self k, idle, fun i lo hi => by omega⟩
  | succ n ih =>
    by_cases busy : Updating cmos k
    · obtain ⟨t, next⟩ := @ih (k + 1) (by omega) (by rw [Nat.add_assoc, Nat.add_comm 1]; exact idle)
      exact ⟨t, next.earlier busy⟩
    · exact ⟨k + 1, Nat.lt_succ_self k, busy, fun i lo hi => by omega⟩

/-- A device that falls idle ends every wait. -/
theorem nextIdle_exists {cmos : Cmos} {U : Nat} (idle : ∀ k, U ≤ k → ¬ Updating cmos k) (k : Nat) :
    ∃ t, NextIdle cmos k t :=
  nextIdle_of_idle (Nat.le_max_left k U) (idle _ (Nat.le_max_right k U))

theorem waitIdle_next {cmos : Cmos} {fuel k t : Nat} (h : waitIdle cmos fuel k = some t) : NextIdle cmos k t := by
  induction fuel generalizing k with
  | zero => cases h
  | succ fuel ih =>
    simp only [waitIdle, rtcUpdating_clock] at h
    by_cases busy : (rtcUpdating cmos k).1 = true
    · rw [if_pos busy] at h
      exact (ih h).earlier busy
    · rw [if_neg busy] at h
      cases h
      exact ⟨by omega, busy, fun i lo hi => by omega⟩

theorem waitIdle_of_next {cmos : Cmos} {fuel k t : Nat} (h : NextIdle cmos k t) (enough : t ≤ k + fuel) :
    waitIdle cmos fuel k = some t := by
  have after := h.after
  induction fuel generalizing k with
  | zero => omega
  | succ fuel ih =>
    simp only [waitIdle, rtcUpdating_clock]
    by_cases last : t = k + 1
    · subst last
      have idle : ¬ (rtcUpdating cmos k).1 = true := h.idle
      rw [if_neg idle]
    · have busy : (rtcUpdating cmos k).1 = true := h.busy k (by omega) (by omega)
      rw [if_pos busy]
      exact ih ⟨by omega, h.idle, fun i lo hi => h.busy i (by omega) hi⟩ (by omega) (by omega)

/-! ## The stability loop -/

/-- The loop, entered at `clock`, takes samples at `starts`, all but the last of them
different from `first`. -/
inductive Ends (cmos : Cmos) (first : RtcTime) : Nat → List Nat → Prop
  | same {clock t : Nat} : NextIdle cmos clock t → first = sampleAt cmos t → Ends cmos first clock [t]
  | differ {clock t : Nat} {starts : List Nat} : NextIdle cmos clock t → first ≠ sampleAt cmos t →
      Ends cmos first (t + 7) starts → Ends cmos first clock (t :: starts)

theorem settle_succ {cmos : Cmos} {wait fuel clock t : Nat} {first : RtcTime}
    (start : waitIdle cmos wait clock = some t) : settle cmos wait first (fuel + 1) clock =
      if first = sampleAt cmos t then some ⟨sampleAt cmos t, (rtcSample cmos t).2.1, t + 7, [t]⟩
      else (settle cmos wait first fuel (t + 7)).map fun r => { r with starts := t :: r.starts } := by
  rw [settle, start]
  exact ite_not _ _ _

theorem settle_ends {cmos : Cmos} {wait fuel clock : Nat} {first : RtcTime} {r : Settled}
    (h : settle cmos wait first fuel clock = some r) : Ends cmos first clock r.starts := by
  induction fuel generalizing clock r with
  | zero => cases h
  | succ fuel ih =>
    cases start : waitIdle cmos wait clock with
    | none =>
      rw [settle, start] at h
      cases h
    | some t =>
      rw [settle_succ start] at h
      have next := waitIdle_next start
      by_cases same : first = sampleAt cmos t
      · rw [if_pos same] at h
        cases h
        exact .same next same
      · rw [if_neg same, Option.map_eq_some_iff] at h
        obtain ⟨r', eq, rfl⟩ := h
        exact .differ next same (ih eq)

/-- With fuel for the waits and for the samples the loop comes to its end. -/
theorem settle_of_ends {cmos : Cmos} {clock : Nat} {first : RtcTime} {starts : List Nat}
    (h : Ends cmos first clock starts) : ∃ bound, ∀ wait fuel, bound ≤ wait → bound ≤ fuel →
      ∃ r, settle cmos wait first fuel clock = some r ∧ r.starts = starts := by
  induction h with
  | @same clock t next same =>
    refine ⟨t + 1, fun wait fuel hw hf => ?_⟩
    obtain ⟨fuel, rfl⟩ : ∃ n, fuel = n + 1 := ⟨fuel - 1, by omega⟩
    refine ⟨⟨sampleAt cmos t, (rtcSample cmos t).2.1, t + 7, [t]⟩, ?_, rfl⟩
    rw [settle_succ (waitIdle_of_next next (by omega)), if_pos same]
  | @differ clock t starts next differ _ ih =>
    obtain ⟨bound, ih⟩ := ih
    refine ⟨bound + t + 1, fun wait fuel hw hf => ?_⟩
    obtain ⟨fuel, rfl⟩ : ∃ n, fuel = n + 1 := ⟨fuel - 1, by omega⟩
    obtain ⟨r, eq, starts_eq⟩ := ih wait fuel (by omega) (by omega)
    refine ⟨{ r with starts := t :: r.starts }, ?_, congrArg (t :: ·) starts_eq⟩
    rw [settle_succ (waitIdle_of_next next (by omega)), if_neg differ, eq]
    rfl

/-- The call as a whole. -/
theorem rtcReadTime_ends {cmos : Cmos} {clock : Nat} {old : RtcTime} {starts : List Nat} :
    (∃ fuel r, rtcReadTime cmos fuel (some old) clock = some r ∧ r.starts = starts) ↔
      ∃ t rest, starts = t :: rest ∧ NextIdle cmos clock t ∧ Ends cmos (sampleAt cmos t) (t + 7) rest := by
  constructor
  · rintro ⟨fuel, r, eq, rfl⟩
    unfold rtcReadTime at eq
    cases start : waitIdle cmos fuel clock with
    | none =>
      rw [start] at eq
      cases eq
    | some t =>
      rw [start] at eq
      dsimp only at eq
      rw [Option.map_eq_some_iff] at eq
      obtain ⟨s, loop, rfl⟩ := eq
      exact ⟨t, s.starts, rfl, waitIdle_next start, settle_ends loop⟩
  · rintro ⟨t, rest, rfl, next, ends⟩
    obtain ⟨bound, loop⟩ := settle_of_ends ends
    obtain ⟨s, eq, rfl⟩ := loop (bound + t) (bound + t) (by omega) (by omega)
    refine ⟨bound + t, ⟨1, some (decode s.statusB s.second), s.clock, t :: s.starts⟩, ?_, rfl⟩
    unfold rtcReadTime
    rw [waitIdle_of_next next (by omega)]
    dsimp only
    rw [rtcSample_clock]
    unfold sampleAt at eq
    rw [eq]
    rfl

/-! ## Samples by number -/

/-- The loop ends at a numbered sample equal to `first`. -/
theorem Ends.last {cmos : Cmos} {clock j s k : Nat} {first : RtcTime} {starts : List Nat}
    (ends : Ends cmos first k starts) (start : SampleStart cmos clock j s) (enter : k = s + 7) :
    ∃ i u, SampleStart cmos clock (i + 1) u ∧ sampleAt cmos u = first := by
  induction ends generalizing j s with
  | same next same =>
    subst enter
    exact ⟨j, _, .next start next, same.symm⟩
  | differ next _ _ ih =>
    subst enter
    exact ih (.next start next) rfl

/-- A loop entered at a later sample has passed the earlier ones. -/
theorem Ends.fromFirst {cmos : Cmos} {clock j s t u : Nat} {first : RtcTime} {starts : List Nat}
    (zero : NextIdle cmos clock t) (start : SampleStart cmos clock j s) (below : s ≤ u)
    (ends : Ends cmos first (s + 7) starts) (bound : ∀ x ∈ starts, x ≤ u) :
    ∃ starts', Ends cmos first (t + 7) starts' ∧ ∀ x ∈ starts', x ≤ u := by
  induction start generalizing starts with
  | first next =>
    obtain rfl := next.unique zero
    exact ⟨starts, ends, bound⟩
  | @next j s s' start next ih =>
    have after := next.after
    by_cases same : first = sampleAt cmos s'
    · refine ih (by omega) (.same next same) fun x hx => ?_
      rw [List.mem_singleton.1 hx]
      exact below
    · refine ih (by omega) (.differ next same ends) fun x hx => ?_
      rcases List.mem_cons.1 hx with rfl | hx
      · exact below
      · exact bound x hx

/-- The samples that begin after the registers have settled. -/
def settledSamples (T : Nat) (starts : List Nat) : Nat := (starts.filter (T ≤ ·)).length

theorem settledSamples_cons (T t : Nat) (starts : List Nat) :
    settledSamples T (t :: starts) = settledSamples T starts + if T ≤ t then 1 else 0 := by
  by_cases late : T ≤ t
  · simp [settledSamples, late]
  · simp [settledSamples, late]

theorem settledSamples_zero {T : Nat} {starts : List Nat} (early : ∀ x ∈ starts, x < T) :
    settledSamples T starts = 0 := by
  rw [settledSamples, List.length_eq_zero_iff, List.filter_eq_nil_iff]
  intro x hx
  have := early x hx
  simpa using this

/-- Looking for the settled values, the loop takes at most one sample of them. -/
theorem Settles.ends {cmos : Cmos} {T : Nat} (h : Settles cmos T) {first : RtcTime} (settled : first = sampleAt cmos T)
    (clock : Nat) : ∃ starts, Ends cmos first clock starts ∧ settledSamples T starts ≤ 1 := by
  obtain ⟨U, idle⟩ := h.idle
  obtain ⟨left, bound⟩ : ∃ left, T ≤ clock + left := ⟨T, by omega⟩
  induction left generalizing clock with
  | zero =>
    obtain ⟨t, next⟩ := nextIdle_exists idle clock
    have after := next.after
    refine ⟨[t], .same next (settled.trans (h.sampleAt_eq (by omega)).symm), ?_⟩
    rw [settledSamples_cons]
    split <;> simp [settledSamples]
  | succ left ih =>
    obtain ⟨t, next⟩ := nextIdle_exists idle clock
    have after := next.after
    by_cases same : first = sampleAt cmos t
    · refine ⟨[t], .same next same, ?_⟩
      rw [settledSamples_cons]
      split <;> simp [settledSamples]
    · have early : ¬ T ≤ t := fun late => same (settled.trans (h.sampleAt_eq late).symm)
      obtain ⟨starts, ends, count⟩ := ih (t + 7) (by omega)
      refine ⟨t :: starts, .differ next same ends, ?_⟩
      rw [settledSamples_cons, if_neg early]
      exact count

/-- Sample `0` reads the settled values, or some later sample that begins before the
registers have settled reads the same as sample `0`. -/
def FirstSampleRecurs (cmos : Cmos) (clock T : Nat) : Prop :=
  ∃ t, SampleStart cmos clock 0 t ∧
    (sampleAt cmos t = sampleAt cmos T ∨
      ∃ j u, SampleStart cmos clock (j + 1) u ∧ u < T ∧ sampleAt cmos u = sampleAt cmos t)

theorem firstSampleRecurs_of_ends {cmos : Cmos} {clock T t : Nat} (h : Settles cmos T) {starts : List Nat}
    (zero : NextIdle cmos clock t) (ends : Ends cmos (sampleAt cmos t) (t + 7) starts) :
    FirstSampleRecurs cmos clock T := by
  obtain ⟨j, u, start, same⟩ := ends.last (.first zero) rfl
  refine ⟨t, .first zero, ?_⟩
  by_cases late : T ≤ u
  · exact .inl (same.symm.trans (h.sampleAt_eq late))
  · exact .inr ⟨j, u, start, by omega, same⟩

theorem FirstSampleRecurs.ends {cmos : Cmos} {clock T : Nat} (h : Settles cmos T)
    (recurs : FirstSampleRecurs cmos clock T) : ∃ t starts, NextIdle cmos clock t ∧
      Ends cmos (sampleAt cmos t) (t + 7) starts ∧ settledSamples T (t :: starts) ≤ 2 := by
  obtain ⟨t, start, cases⟩ := recurs
  cases start with
  | first zero =>
    rcases cases with settled | ⟨j, u, start, early, same⟩
    · obtain ⟨starts, ends, count⟩ := h.ends settled (t + 7)
      refine ⟨t, starts, zero, ends, ?_⟩
      rw [settledSamples_cons]
      split <;> omega
    · cases start with
      | @next _ s _ before next =>
        have after := next.after
        obtain ⟨starts, ends, bound⟩ := Ends.fromFirst (u := u) zero before (by omega) (.same next same.symm)
          fun x hx => Nat.le_of_eq (List.mem_singleton.1 hx)
        refine ⟨t, starts, zero, ends, ?_⟩
        rw [settledSamples_cons, settledSamples_zero fun x hx => Nat.lt_of_le_of_lt (bound x hx) early]
        split <;> omega

/-- **When `rtc_read_time` returns.** On a device that settles from the read `T` on, the
call returns within two settled samples if and only if the first sample recurs. -/
theorem returns_iff (cmos : Cmos) (T : Nat) (h : Settles cmos T) (old : RtcTime) (clock : Nat) :
    (∃ fuel r, rtcReadTime cmos fuel (some old) clock = some r ∧ settledSamples T r.starts ≤ 2) ↔
      FirstSampleRecurs cmos clock T := by
  constructor
  · rintro ⟨fuel, r, eq, -⟩
    obtain ⟨t, rest, -, zero, ends⟩ := rtcReadTime_ends.1 ⟨fuel, r, eq, rfl⟩
    exact firstSampleRecurs_of_ends h zero ends
  · intro recurs
    obtain ⟨t, starts, zero, ends, count⟩ := recurs.ends h
    obtain ⟨fuel, r, eq, taken⟩ := (@rtcReadTime_ends _ _ old _).2 ⟨t, starts, rfl, zero, ends⟩
    exact ⟨fuel, r, eq, taken ▸ count⟩

theorem idle_of_status {cmos : Cmos} {k : Nat} (status : cmos k 0x0A = 0) : ¬ Updating cmos k := by
  unfold Updating rtcUpdating cmosRead
  rw [status]
  simp

/-- An update is in progress up to the read `10`; the seconds go from 56 to 57 in it. -/
def updateCmos : Cmos := fun k reg =>
  if reg = 0x0A then if k < 10 then 0x80 else 0
  else if reg = 0x00 ∧ 5 ≤ k then 0x57 else unitTestCmos k reg

theorem updateCmos_idle_iff (k : Nat) : ¬ Updating updateCmos k ↔ 10 ≤ k := by
  by_cases early : k < 10
  · simp [Updating, rtcUpdating, cmosRead, updateCmos, early]
  · simp [Updating, rtcUpdating, cmosRead, updateCmos, early]
    omega

theorem updateCmos_settles : Settles updateCmos 5 := by
  refine ⟨fun k late reg member => ?_, 10, fun k late => (updateCmos_idle_iff k).2 late⟩
  have other : reg ≠ 0x0A := fun same => by
    subst same
    exact absurd member (by decide)
  simp only [updateCmos, other, if_false, late, Nat.le_refl, and_true]
  rfl

/-- Entered during the update: the first sample is the settled one. -/
theorem returns_iff_update : ∃ fuel r, rtcReadTime updateCmos fuel (some ⟨0, 0, 0, 0, 0, 0⟩) 0 = some r ∧
    settledSamples 5 r.starts ≤ 2 := by
  refine (returns_iff updateCmos 5 updateCmos_settles ⟨0, 0, 0, 0, 0, 0⟩ 0).2 ⟨11, .first ?_, .inl (by decide)⟩
  refine ⟨by decide, (updateCmos_idle_iff 10).2 (Nat.le_refl 10), fun i _ hi => ?_⟩
  by_contra idle
  have := (updateCmos_idle_iff i).1 idle
  omega

/-- The seconds go from 56 to 57 once, after the first sample. -/
def tickCmos : Cmos := fun k reg => if reg = 0x00 ∧ 8 ≤ k then 0x57 else unitTestCmos k reg

theorem tickCmos_idle (k : Nat) : ¬ Updating tickCmos k :=
  idle_of_status (if_neg fun h => absurd h.1 (by decide))

theorem tickCmos_settles : Settles tickCmos 8 := by
  refine ⟨fun k late reg _ => ?_, 0, fun k _ => tickCmos_idle k⟩
  simp only [tickCmos, late, Nat.le_refl, and_true]
  rfl

/-- The call entered just before the tick never returns. -/
theorem tick_never_returns : Settles tickCmos 8 ∧
    ∀ fuel, rtcReadTime tickCmos fuel (some ⟨0, 0, 0, 0, 0, 0⟩) 0 = none := by
  refine ⟨tickCmos_settles, fun fuel => ?_⟩
  cases eq : rtcReadTime tickCmos fuel (some ⟨0, 0, 0, 0, 0, 0⟩) 0 with
  | none => rfl
  | some r =>
    obtain ⟨t, rest, -, zero, ends⟩ := rtcReadTime_ends.1 ⟨fuel, r, eq, rfl⟩
    have one : NextIdle tickCmos 0 1 := ⟨by omega, tickCmos_idle 0, fun i lo hi => by omega⟩
    obtain rfl := zero.unique one
    obtain ⟨j, u, start, same⟩ := ends.last (.first zero) rfl
    cases start with
    | @next _ s _ _ next =>
      have after := next.after
      rw [tickCmos_settles.sampleAt_eq (by omega)] at same
      exact absurd same (by decide)

end SimpleKernel.Rtc
