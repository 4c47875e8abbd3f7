import SimpleKernel.Lib.Lts
import SimpleKernel.Shell.History

/-!
# Editing stays inside its arrays

One lemma for each handler of `shell_run`, and from them: whatever events come, over any
number of prompts, no access leaves an array (`shell_safe`). An access that did would be a
step that is `none`.
-/

namespace SimpleKernel.Shell
set_option autoImplicit false
open Lib Kstring Input

/-- What `shell_run` does for one event; `false` when it has returned. -/
def shellStep (s : State) (event : InputEvent) (fresh : Mem) : Option (State × Bool) :=
  if isNewline event then do
    let s ← terminateLine s
    submitLine s fresh
  else (handleEvent s event).map fun r => (r.1, true)

section

variable {s : State} {m text : Mem} {log : List Line} {line draft t : Line}

/-! ## `shell_set_buffer` -/

theorem setLoop_spec {fuel i : Nat} (str : StrAt text i t) (inside : i + t.length ≤ 255) (enough : t.length < fuel) :
    ∃ m', setLoop text fuel m i i = some (m', i + t.length) ∧
      ∀ x, m' x = if i ≤ x ∧ x < i + t.length then text x else m x := by
  induction t generalizing m fuel i with
  | nil =>
    obtain ⟨fuel, rfl⟩ : ∃ k, fuel = k + 1 := ⟨fuel - 1, by omega⟩
    have byte : loadIn cmdBufferSize text i = some (text i) := loadIn_of_lt (by rw [cmdBufferSize_eq]; omega)
    have stop : ¬ (text i ≠ 0 ∧ i + 1 < cmdBufferSize) := fun go => go.1 (strAt_nil.1 str)
    refine ⟨m, ?_, fun x => ?_⟩
    · simp only [setLoop, byte, Option.bind_eq_bind, Option.bind_some, if_neg stop]
      rfl
    · rw [if_neg (by rw [List.length_nil]; omega)]
  | cons c t ih =>
    obtain ⟨fuel, rfl⟩ : ∃ k, fuel = k + 1 := ⟨fuel - 1, by omega⟩
    obtain ⟨first, nonzero, rest⟩ := strAt_cons.1 str
    rw [List.length_cons] at inside enough
    have byte : loadIn cmdBufferSize text i = some (text i) := loadIn_of_lt (by rw [cmdBufferSize_eq]; omega)
    have go : text i ≠ 0 ∧ i + 1 < cmdBufferSize := ⟨first.symm ▸ nonzero, by rw [cmdBufferSize_eq]; omega⟩
    have store : storeIn cmdBufferSize m i (text i) = some (storeByte m i (text i)) :=
      storeIn_of_lt (by rw [cmdBufferSize_eq]; omega)
    obtain ⟨m', run, copied⟩ := @ih (storeByte m i (text i)) fuel (i + 1) rest (by omega) (by omega)
    refine ⟨m', ?_, fun x => ?_⟩
    · simp only [setLoop, byte, Option.bind_eq_bind, Option.bind_some, if_pos go, store, run]
      rw [List.length_cons, Nat.add_assoc, Nat.add_comm 1]
    · rw [copied, List.length_cons]
      by_cases here : x = i
      · subst here
        rw [if_neg (by omega), if_pos (by omega)]
        exact storeByte_self _ _ _
      · rw [storeByte_out here]
        split_ifs <;> first | rfl | omega

theorem textOf_spec (str : StrAt text 0 t) (short : t.length ≤ 255) : textOf text = some t := by
  have length : scan cmdBufferSize text (fun c => c != 0) cmdBufferSize 0 = some (0 + t.length) :=
    scan_string str (by rw [cmdBufferSize_eq]; omega) (by rw [cmdBufferSize_eq]; omega)
  rw [textOf, length, Option.map_some, Nat.zero_add]
  refine congrArg some (List.ext_getElem (by simp) fun i hi hi' => ?_)
  have byte := str.bytes i hi'
  rw [Nat.zero_add] at byte
  simp [byte]

/-- Erasing `n` characters and printing a line. -/
def redraw (n : Nat) (line : Line) : List Output := List.replicate n (.kprint [0x08]) ++ [.kprint line]

theorem shellSetBuffer_spec (str : StrAt text 0 t) (short : t.length ≤ 255) :
    ∃ m, shellSetBuffer s text =
        some ({ s with cmdBuffer := m, pos := t.length }, redraw s.pos t) ∧
      StrAt m 0 t := by
  obtain ⟨m, run, copied⟩ := @setLoop_spec s.cmdBuffer text t cmdBufferSize 0 str (by omega)
    (by rw [cmdBufferSize_eq]; omega)
  rw [Nat.zero_add] at run copied
  have store : storeIn cmdBufferSize m t.length 0 = some (storeByte m t.length 0) :=
    storeIn_of_lt (by rw [cmdBufferSize_eq]; omega)
  refine ⟨storeByte m t.length 0, ?_, fun i hi => ?_, str.nonzero, ?_⟩
  · simp only [shellSetBuffer, run, store, textOf_spec str short, Option.bind_eq_bind, Option.bind_some, redraw]
  · have byte := str.bytes i hi
    rw [Nat.zero_add] at *
    rw [storeByte_out (by omega), copied, if_pos (by omega), byte]
  · rw [Nat.zero_add]
    exact storeByte_self _ _ _

theorem saveLine_fields (s : State) : (saveLine s).cmdBuffer = s.cmdBuffer ∧ (saveLine s).pos = s.pos ∧
    (saveLine s).historyPosition = s.historyPosition ∧ (saveLine s).historyCount = s.historyCount ∧
    (saveLine s).historyHead = s.historyHead ∧ (saveLine s).history = s.history := by
  simp only [saveLine, and_self]

/-- The saved line is what the buffer holds. -/
theorem saveLine_currentLine (str : StrAt s.cmdBuffer 0 t) (short : t.length ≤ 255) :
    StrAt (saveLine s).currentLine 0 t := by
  refine str.congr fun i hi => ?_
  dsimp only [saveLine]
  rw [kmemcpyFrom_get, cmdBufferSize_eq, if_pos (by omega), Nat.sub_zero]
  rw [Nat.zero_add, Nat.zero_add]

/-! ## The handlers -/

/-- The entry of the log at a position of the history. -/
theorem HoldsLog.entry (h : HoldsLog s log) {i : Nat} (inside : i < s.historyCount) :
    ∃ t, log[log.length - s.historyCount + i]? = some t ∧ StrAt (historyGet s i) 0 t ∧ t.length ≤ 255 := by
  have count := h.count
  have index : log.length - s.historyCount + i < log.length := by omega
  exact ⟨_, List.getElem?_eq_getElem index, h.get index, h.short _ (List.getElem_mem index)⟩

theorem handleUp_spec (h : HoldsLog s log) (position : s.historyPosition ≤ s.historyCount)
    (moves : 0 < s.historyPosition) :
    ∃ m t, handleUp s = some ({ (if s.historyPosition = s.historyCount then saveLine s else s) with
        historyPosition := s.historyPosition - 1, cmdBuffer := m, pos := t.length }, redraw s.pos t) ∧
      StrAt m 0 t ∧ t.length ≤ 255 ∧ log[log.length - s.historyCount + (s.historyPosition - 1)]? = some t := by
  have go : ¬ (s.historyCount = 0 ∨ s.historyPosition = 0) := by omega
  have older : s.historyPosition - 1 < s.historyCount := by omega
  by_cases leaves : s.historyPosition = s.historyCount
  · obtain ⟨-, pos, position', count, head, history⟩ := saveLine_fields s
    simp only [handleUp, if_neg go, if_pos leaves, position']
    rw [← pos]
    generalize saveLine s = saved at *
    have kept : HoldsLog { saved with historyPosition := s.historyPosition - 1 } log := h.congr history head count
    obtain ⟨t, eq, str, short⟩ := kept.entry (count.symm ▸ older)
    obtain ⟨m, set, buffer⟩ := @shellSetBuffer_spec
        { saved with historyPosition := s.historyPosition - 1 } _ _ str short
    exact ⟨m, t, set, buffer, short, count ▸ eq⟩
  · have kept : HoldsLog { s with historyPosition := s.historyPosition - 1 } log := h.congr rfl rfl rfl
    obtain ⟨t, eq, str, short⟩ := kept.entry older
    obtain ⟨m, set, buffer⟩ := @shellSetBuffer_spec { s with historyPosition := s.historyPosition - 1 } _ _ str short
    refine ⟨m, t, ?_, buffer, short, eq⟩
    simp only [handleUp, if_neg go, if_neg leaves]
    exact set

theorem handleDown_older (h : HoldsLog s log) (moves : s.historyPosition + 1 < s.historyCount) :
    ∃ m t, handleDown s =
        some ({ s with historyPosition := s.historyPosition + 1, cmdBuffer := m, pos := t.length }, redraw s.pos t) ∧
      StrAt m 0 t ∧ t.length ≤ 255 ∧ log[log.length - s.historyCount + (s.historyPosition + 1)]? = some t := by
  have kept : HoldsLog { s with historyPosition := s.historyPosition + 1 } log := h.congr rfl rfl rfl
  obtain ⟨t, eq, str, short⟩ := kept.entry moves
  obtain ⟨m, set, buffer⟩ := @shellSetBuffer_spec { s with historyPosition := s.historyPosition + 1 } _ _ str short
  have go : ¬ s.historyPosition ≥ s.historyCount := by omega
  have older : s.historyPosition + 1 ≠ s.historyCount := Nat.ne_of_lt moves
  refine ⟨m, t, ?_, buffer, short, eq⟩
  simp only [handleDown, if_neg go, if_neg older]
  exact set

theorem handleDown_last (returns : s.historyPosition + 1 = s.historyCount) (str : StrAt s.currentLine 0 draft)
    (short : draft.length ≤ 255) :
    ∃ m, handleDown s =
        some ({ s with historyPosition := s.historyPosition + 1, cmdBuffer := m, pos := draft.length },
          redraw s.pos draft) ∧
      StrAt m 0 draft := by
  obtain ⟨m, set, buffer⟩ := @shellSetBuffer_spec { s with historyPosition := s.historyPosition + 1 } _ _ str short
  have go : ¬ s.historyPosition ≥ s.historyCount := by omega
  refine ⟨m, ?_, buffer⟩
  simp only [handleDown, if_neg go, if_pos returns]
  exact set

theorem adoptLine_fields (s : State) : (adoptLine s).cmdBuffer = s.cmdBuffer ∧ (adoptLine s).pos = s.pos ∧
    (adoptLine s).historyPosition = s.historyCount ∧ (adoptLine s).historyCount = s.historyCount ∧
    (adoptLine s).historyHead = s.historyHead ∧ (adoptLine s).history = s.history := by
  unfold adoptLine
  split
  · exact ⟨rfl, rfl, rfl, rfl, rfl, rfl⟩
  · rename_i current
    exact ⟨rfl, rfl, not_not.1 current, rfl, rfl, rfl⟩

theorem adoptLine_currentLine (buffer : ∃ line, StrAt s.cmdBuffer 0 line ∧ line.length ≤ 255)
    (saved : ∃ line, StrAt s.currentLine 0 line ∧ line.length ≤ 255) :
    ∃ line, StrAt (adoptLine s).currentLine 0 line ∧ line.length ≤ 255 := by
  by_cases recalled : s.historyPosition ≠ s.historyCount
  · rw [adoptLine, if_pos recalled]
    obtain ⟨line, str, short⟩ := buffer
    have copied : StrAt (saveLine s).currentLine 0 line := saveLine_currentLine str short
    generalize saveLine s = saved at *
    exact ⟨line, copied, short⟩
  · rw [adoptLine, if_neg recalled]
    exact saved

theorem handleBackspace_eq (positive : 0 < s.pos) (inside : s.pos ≤ 255) :
    handleBackspace s =
      some ({ adoptLine s with cmdBuffer := storeByte s.cmdBuffer (s.pos - 1) 0, pos := s.pos - 1 },
        [.kprint [0x08]]) := by
  obtain ⟨buffer, pos, -⟩ := adoptLine_fields s
  have store : storeIn cmdBufferSize s.cmdBuffer (s.pos - 1) 0 = some (storeByte s.cmdBuffer (s.pos - 1) 0) :=
    storeIn_of_lt (by rw [cmdBufferSize_eq]; omega)
  simp only [handleBackspace, gt_iff_lt, if_pos positive, buffer, pos, store, Option.bind_eq_bind, Option.bind_some]

theorem handleChar_eq (c : BitVec 8) (room : s.pos < 255) :
    handleChar s c = some ({ adoptLine s with
      cmdBuffer := storeByte (storeByte s.cmdBuffer s.pos c) (s.pos + 1) 0, pos := s.pos + 1 },
      [.kprint (if c = 0 then [] else [c])]) := by
  obtain ⟨buffer, pos, -⟩ := adoptLine_fields s
  have go : s.pos + 1 < cmdBufferSize := by
    rw [cmdBufferSize_eq]
    omega
  have store : storeIn cmdBufferSize s.cmdBuffer s.pos c = some (storeByte s.cmdBuffer s.pos c) :=
    storeIn_of_lt (Nat.lt_of_succ_lt go)
  have store' : storeIn cmdBufferSize (storeByte s.cmdBuffer s.pos c) (s.pos + 1) 0 =
      some (storeByte (storeByte s.cmdBuffer s.pos c) (s.pos + 1) 0) := storeIn_of_lt go
  simp only [handleChar, if_pos go, buffer, pos, store, store', Option.bind_eq_bind, Option.bind_some]

/-! ## The invariant -/

/-- The first 256 bytes hold a string. -/
def Terminated (m : Mem) : Prop := ∃ line, StrAt m 0 line ∧ line.length ≤ 255

theorem terminated_of_nul {i : Nat} (nul : m i = 0) (inside : i ≤ 255) : Terminated m := by
  obtain ⟨line, str, length⟩ := @exists_strAt m 0 i (by rw [Nat.zero_add]; exact nul)
  exact ⟨line, str, Nat.le_trans length inside⟩

theorem Terminated.nul (h : Terminated m) : ∃ i < 256, m i = 0 := by
  obtain ⟨line, str, short⟩ := h
  have nul := str.nul
  rw [Nat.zero_add] at nul
  exact ⟨line.length, by omega, nul⟩

structure Sound (s : State) (log : List Line) : Prop where
  log : HoldsLog s log
  pos : s.pos ≤ 255
  position : s.historyPosition ≤ s.historyCount
  buffer : Terminated s.cmdBuffer
  saved : Terminated s.currentLine

theorem handleUp_sound (h : Sound s log) : ∃ s' out, handleUp s = some (s', out) ∧ Sound s' log := by
  by_cases still : s.historyCount = 0 ∨ s.historyPosition = 0
  · exact ⟨s, [], if_pos still, h⟩
  · have position := h.position
    obtain ⟨m, t, run, str, short, -⟩ := handleUp_spec h.log position (by omega)
    refine ⟨_, _, run, ?_⟩
    by_cases leaves : s.historyPosition = s.historyCount
    · obtain ⟨line, buffer, length⟩ := h.buffer
      have copied := saveLine_currentLine buffer length
      obtain ⟨-, -, -, count, head, history⟩ := saveLine_fields s
      rw [if_pos leaves]
      generalize saveLine s = saved at *
      exact ⟨h.log.congr history head count, short, by dsimp only; omega, ⟨t, str, short⟩, ⟨line, copied, length⟩⟩
    · rw [if_neg leaves]
      exact ⟨h.log.congr rfl rfl rfl, short, by dsimp only; omega, ⟨t, str, short⟩, h.saved⟩

theorem handleDown_sound (h : Sound s log) : ∃ s' out, handleDown s = some (s', out) ∧ Sound s' log := by
  rcases Nat.lt_trichotomy (s.historyPosition + 1) s.historyCount with older | returns | still
  · obtain ⟨m, t, run, str, short, -⟩ := handleDown_older h.log older
    exact ⟨_, _, run, h.log.congr rfl rfl rfl, short, Nat.le_of_lt older, ⟨t, str, short⟩, h.saved⟩
  · obtain ⟨draft, str, short⟩ := h.saved
    obtain ⟨m, run, buffer⟩ := handleDown_last returns str short
    exact ⟨_, _, run, h.log.congr rfl rfl rfl, short, Nat.le_of_eq returns, ⟨draft, buffer, short⟩, h.saved⟩
  · have last : s.historyPosition ≥ s.historyCount := Nat.le_of_lt_succ still
    exact ⟨s, [], if_pos last, h⟩

/-- A buffer that is edited keeps a NUL. -/
theorem Sound.edit (h : Sound s log) {pos : Nat} (inside : pos ≤ 255) (nul : m pos = 0) :
    Sound { adoptLine s with cmdBuffer := m, pos } log := by
  obtain ⟨-, -, position, count, head, history⟩ := adoptLine_fields s
  have saved := adoptLine_currentLine h.buffer h.saved
  exact ⟨h.log.congr history head count, inside, Nat.le_of_eq (position.trans count.symm), terminated_of_nul nul inside,
    saved⟩

theorem handleBackspace_sound (h : Sound s log) : ∃ s' out, handleBackspace s = some (s', out) ∧ Sound s' log := by
  by_cases positive : 0 < s.pos
  · have inside := h.pos
    refine ⟨_, _, handleBackspace_eq positive inside, ?_⟩
    apply h.edit
    · omega
    · exact storeByte_self _ _ _
  · exact ⟨s, [], if_neg positive, h⟩

theorem handleChar_sound (h : Sound s log) (c : BitVec 8) :
    ∃ s' out, handleChar s c = some (s', out) ∧ Sound s' log := by
  by_cases room : s.pos < 255
  · refine ⟨_, _, handleChar_eq c room, ?_⟩
    apply h.edit
    · exact room
    · exact storeByte_self _ _ _
  · have full : ¬ s.pos + 1 < cmdBufferSize := by
      rw [cmdBufferSize_eq]
      omega
    exact ⟨s, [], if_neg full, h⟩

theorem handleEvent_sound (h : Sound s log) (event : InputEvent) :
    ∃ s' out, handleEvent s event = some (s', out) ∧ Sound s' log := by
  have scrolled : ∀ {r : Option (State × List Output)}, (∃ s' out, r = some (s', out) ∧ Sound s' log) →
      ∃ s' out, (r.map fun r => (r.1, .scrollToBottom :: r.2)) = some (s', out) ∧ Sound s' log := by
    intro r handled
    obtain ⟨s', out, rfl, sound⟩ := handled
    exact ⟨s', _, rfl, sound⟩
  obtain ⟨type, c⟩ := event
  -- each event has its handler
  cases type with
  | left => exact ⟨s, _, rfl, h⟩
  | right => exact ⟨s, _, rfl, h⟩
  | up => exact scrolled (handleUp_sound h)
  | down => exact scrolled (handleDown_sound h)
  | char =>
    apply scrolled
    by_cases erase : c = 0x08 ∨ c = 0x7F
    · rw [if_pos erase]
      exact handleBackspace_sound h
    · rw [if_neg erase]
      exact handleChar_sound h c

/-- The line at a newline. -/
theorem terminateLine_spec (inside : s.pos ≤ 255) :
    terminateLine s = some { s with cmdBuffer := storeByte s.cmdBuffer s.pos 0 } := by
  have store : storeIn cmdBufferSize s.cmdBuffer s.pos 0 = some (storeByte s.cmdBuffer s.pos 0) :=
    storeIn_of_lt (by rw [cmdBufferSize_eq]; omega)
  simp only [terminateLine, store, Option.bind_eq_bind, Option.bind_some]

theorem length_le_record (log : List Line) (line : Line) : log.length ≤ (record log line).length := by
  unfold record
  split
  · rfl
  · rw [List.length_append]
    omega

theorem shellStep_sound (h : Sound s log) (event : InputEvent) (fresh : Mem) :
    ∃ s' go, shellStep s event fresh = some (s', go) ∧ ∃ log', Sound s' log' := by
  by_cases newline : isNewline event
  · have terminate := terminateLine_spec h.pos
    obtain ⟨line, str, short⟩ : Terminated (storeByte s.cmdBuffer s.pos 0) :=
      terminated_of_nul (storeByte_self _ _ _) h.pos
    have ended : HoldsLog { s with cmdBuffer := storeByte s.cmdBuffer s.pos 0 } log := h.log.congr rfl rfl rfl
    obtain ⟨s', run, holds, cuts, prompt⟩ := submitLine_spec ended str short fresh
    have nul := str.nul
    rw [Nat.zero_add] at nul
    refine ⟨s', decide (command line ≠ exitName), ?_, record log line, ?_⟩
    · simp only [shellStep, if_pos newline, terminate, Option.bind_eq_bind, Option.bind_some]
      exact run
    · have buffer : Terminated s'.cmdBuffer := terminated_of_nul (cuts.nul nul) short
      by_cases exits : command line = exitName
      · rw [if_pos exits] at prompt
        obtain ⟨pos, position, saved⟩ := prompt
        dsimp only at pos position saved
        have more := length_le_record log line
        have before := h.log.count
        have after := holds.count
        have below := h.position
        exact ⟨holds, pos ▸ h.pos, by omega, buffer, saved ▸ h.saved⟩
      · rw [if_neg exits] at prompt
        obtain ⟨pos, position, first⟩ := prompt
        exact ⟨holds, by omega, Nat.le_of_eq position, buffer, terminated_of_nul first (by omega)⟩
  · obtain ⟨s', out, run, sound⟩ := handleEvent_sound h event
    refine ⟨s', true, ?_, log, sound⟩
    rw [shellStep, if_neg newline, run]
    rfl

end

/-! ## Runs -/

/-- `shell_run` from boot, event by event, while it runs. A label is an event with what the stack
holds under the next prompt's `current_line`. -/
def shellSystem : Lts (State × Bool) (InputEvent × Mem) where
  Init x := (∃ fresh, boot fresh = some x.1) ∧ x.2 = true
  Step x a x' := x.2 = true ∧ shellStep x.1 a.1 a.2 = some x'

theorem boot_sound {fresh : Mem} {s : State} (booted : boot fresh = some s) : Sound s [] := by
  have store : storeIn cmdBufferSize fresh 0 0 = some (storeByte fresh 0 0) := storeIn_of_lt (by decide)
  simp only [boot, newPrompt, store, Option.bind_eq_bind, Option.bind_some, Option.some.injEq] at booted
  subst booted
  have start : storeByte fresh 0 0 0 = 0 := storeByte_self _ _ _
  exact ⟨holdsLog_start rfl rfl, Nat.zero_le _, le_rfl, @terminated_of_nul _ 0 rfl (Nat.zero_le _),
    @terminated_of_nul _ 0 start (Nat.zero_le _)⟩

theorem shellSystem_sound {as : List (InputEvent × Mem)} {x : State × Bool} (run : shellSystem.Run as x) :
    ∃ log, Sound x.1 log := by
  refine @Lts.Run.invariant _ _ shellSystem (fun x => ∃ log, Sound x.1 log) ?_ ?_ _ _ run
  · intro x init
    obtain ⟨⟨fresh, booted⟩, -⟩ := init
    exact ⟨[], boot_sound booted⟩
  · intro x a x' inv step
    obtain ⟨log, sound⟩ := inv
    obtain ⟨s', go, run, after⟩ := shellStep_sound sound a.1 a.2
    cases Option.some.inj (run.symm.trans step.2)
    exact after

/-- The invariant of the shell's variables. -/
structure Safe (s : State) : Prop where
  pos : s.pos ≤ 255
  position : s.historyPosition ≤ s.historyCount
  count : s.historyCount ≤ 32
  head : s.historyHead < 32
  buffer : ∃ i < 256, s.cmdBuffer i = 0
  saved : ∃ i < 256, s.currentLine i = 0
  history : ∀ i < s.historyCount, ∃ j < 256, historyGet s i j = 0

theorem Sound.safe {s : State} {log : List Line} (h : Sound s log) : Safe s := by
  have count := h.log.count
  have head := h.log.head
  refine ⟨h.pos, h.position, by omega, by omega, h.buffer.nul, h.saved.nul, ?_⟩
  intro i hi
  obtain ⟨line, -, str, short⟩ := h.log.entry hi
  exact Terminated.nul ⟨line, str, short⟩

/-- **The shell stays inside its buffers.** The invariant holds at every event boundary, every
event is handled without leaving an array, and a submitted line is terminated. -/
theorem shell_safe {as : List (InputEvent × Mem)} {x : State × Bool} (run : shellSystem.Run as x) :
    Safe x.1 ∧ (∀ event fresh, ∃ x', shellStep x.1 event fresh = some x') ∧
      ∃ s, terminateLine x.1 = some s ∧ ∃ i < 256, s.cmdBuffer i = 0 := by
  obtain ⟨log, sound⟩ := shellSystem_sound run
  refine ⟨sound.safe, ?_, _, terminateLine_spec sound.pos, x.1.pos, Nat.lt_succ_of_le sound.pos, storeByte_self _ _ _⟩
  intro event fresh
  obtain ⟨s', go, step, -⟩ := shellStep_sound sound event fresh
  exact ⟨(s', go), step⟩

/-- One key at the first prompt, then a newline. -/
theorem shell_safe_typed : ∃ x,
    shellSystem.Run [(⟨.char, 0x61⟩, literal []), (⟨.char, 0x0A⟩, literal [])] x ∧ Safe x.1 := by
  have start : shellSystem.Run [] (⟨fun _ => 0, fun _ _ => 0, 0, 0, 0, 0, storeByte (literal []) 0 0⟩, true) :=
    .start ⟨⟨literal [], rfl⟩, rfl⟩
  obtain ⟨⟨s, go⟩, step⟩ := (shell_safe start).2.1 ⟨.char, 0x61⟩ (literal [])
  have typing : go = true := by
    rw [shellStep, if_neg (by decide), Option.map_eq_some_iff] at step
    obtain ⟨r, -, eq⟩ := step
    exact (Prod.mk.inj eq).2.symm
  have typed := start.snoc (show shellSystem.Step _ (⟨.char, 0x61⟩, literal []) (s, go) from ⟨rfl, step⟩)
  obtain ⟨x, submit⟩ := (shell_safe typed).2.1 ⟨.char, 0x0A⟩ (literal [])
  have run := typed.snoc (show shellSystem.Step _ (⟨.char, 0x0A⟩, literal []) x from ⟨typing, submit⟩)
  exact ⟨x, run, (shell_safe run).1⟩

end SimpleKernel.Shell
