import SimpleKernel.Shell.Editing

/-!
# A reference editor

`Editor` says what the editing keys are for, on lines instead of buffers, and `Typing` adds the
text that `cmd_buffer` holds, which outlives its line. The shell's handlers do what `Typing`
does (`Carries`), always. `editing` runs `Editor` beside the shell. They submit the same lines
as long as no DOWN brings back a buffer left over from an earlier prompt
(`shell_refines_editor`): `cmd_buffer` is not cleared at a prompt, and UP saves it whether or
not anything was typed.
-/

namespace SimpleKernel.Shell
set_option autoImplicit false
open Lib Kstring Input

/-- The line, the position in the history and the line put aside while in the history, of
which the last 32 lines of `log` are left. -/
structure Editor where
  log : List Line
  line : Line
  position : Nat
  draft : Line
  deriving DecidableEq

namespace Editor

def count (e : Editor) : Nat := min 32 e.log.length

def entry (e : Editor) (i : Nat) : Line := e.log.getD (e.log.length - e.count + i) []

/-- A new prompt. -/
def prompt (log : List Line) : Editor := ⟨log, [], min 32 log.length, []⟩

def up (e : Editor) : Editor :=
  if e.position = 0 then e
  else { e with
    draft := if e.position = e.count then e.line else e.draft
    position := e.position - 1
    line := e.entry (e.position - 1) }

def down (e : Editor) : Editor :=
  if e.position ≥ e.count then e
  else { e with
    position := e.position + 1
    line := if e.position + 1 = e.count then e.draft else e.entry (e.position + 1) }

def insert (e : Editor) (c : BitVec 8) : Editor :=
  if e.line.length < 255 then { e with line := e.line ++ [c], position := e.count } else e

def erase (e : Editor) : Editor :=
  if e.line = [] then e else { e with line := e.line.dropLast, position := e.count }

def submit (e : Editor) : Editor := prompt (record e.log e.line)

def step (e : Editor) (event : InputEvent) : Editor :=
  match event.type with
  | .left => e
  | .right => e
  | .up => e.up
  | .down => e.down
  | .char =>
    if event.ch = 0x0A then e.submit
    else if event.ch = 0x08 ∨ event.ch = 0x7F then e.erase
    else e.insert event.ch

variable {e : Editor}

theorem up_moves (moves : e.position ≠ 0) :
    e.up.log = e.log ∧ e.up.position = e.position - 1 ∧
      e.up.draft = if e.position = e.count then e.line else e.draft := by
  rw [up, if_neg moves]
  exact ⟨rfl, rfl, rfl⟩

theorem down_moves (moves : e.position < e.count) :
    e.down.log = e.log ∧ e.down.position = e.position + 1 ∧ e.down.draft = e.draft := by
  rw [down, if_neg (Nat.not_le.2 moves)]
  exact ⟨rfl, rfl, rfl⟩

theorem down_last (returns : e.position + 1 = e.count) : e.down.line = e.draft := by
  rw [down, if_neg (by omega)]
  exact if_pos returns

/-- After `k` times UP from below the history. -/
theorem ups (current : e.position = e.count) (k : Nat) :
    (up^[k] e).log = e.log ∧ (up^[k] e).position = e.count - k ∧
      (0 < min k e.count → (up^[k] e).draft = e.line) ∧ (min k e.count = 0 → up^[k] e = e) := by
  induction k with
  | zero => exact ⟨rfl, current, fun h => absurd h (by omega), fun _ => rfl⟩
  | succ k ih =>
    obtain ⟨log, position, draft, still⟩ := ih
    rw [Function.iterate_succ_apply']
    by_cases moves : (up^[k] e).position = 0
    · have stays : (up^[k] e).up = up^[k] e := if_pos moves
      rw [stays]
      refine ⟨log, by omega, fun h => draft (by omega), fun h => still (by omega)⟩
    · obtain ⟨log', position', draft'⟩ := up_moves moves
      have count : (up^[k] e).count = e.count := by rw [Editor.count, log, Editor.count]
      refine ⟨log'.trans log, by omega, fun _ => ?_, fun h => by omega⟩
      rw [draft', count]
      by_cases first : k = 0
      · subst first
        exact if_pos (by omega)
      · rw [if_neg (by omega)]
        exact draft (by omega)

theorem downs_still (last : e.position ≥ e.count) (k : Nat) : down^[k] e = e := by
  induction k with
  | zero => rfl
  | succ k ih =>
    rw [Function.iterate_succ_apply, down, if_pos last]
    exact ih

/-- Enough DOWNs reach the draft. -/
theorem downs {k : Nat} (recalled : e.position < e.count) (enough : e.count ≤ e.position + k) :
    (down^[k] e).line = e.draft := by
  induction k generalizing e with
  | zero => omega
  | succ k ih =>
    obtain ⟨log, position, draft⟩ := down_moves recalled
    have count : e.down.count = e.count := by rw [Editor.count, log, Editor.count]
    rw [Function.iterate_succ_apply]
    by_cases returns : e.position + 1 = e.count
    · rw [downs_still (by omega)]
      exact down_last returns
    · rw [ih (by omega) (by omega), draft]

/-- **The line comes back.** As many DOWNs as UPs restore what was being typed. -/
theorem downs_ups (current : e.position = e.count) (k : Nat) : (down^[k] (up^[k] e)).line = e.line := by
  obtain ⟨log, position, draft, still⟩ := ups current k
  by_cases none : min k e.count = 0
  · rw [still none, downs_still (Nat.le_of_eq current.symm)]
  · have count : (up^[k] e).count = e.count := by rw [Editor.count, log, Editor.count]
    rw [downs (by omega) (by omega), draft (by omega)]

end Editor

/-! ## The text in the buffer -/

/-- An editor that puts aside, before it recalls a line, what the last text left in the buffer. -/
structure Typing extends Editor where
  held : Line

namespace Typing

def retyped (t : Typing) (line : Line) : Typing := { t with line, held := line }

def up (t : Typing) : Typing :=
  if t.position = 0 then t
  else ({ t with
    draft := if t.position = t.count then t.held else t.draft
    position := t.position - 1 } : Typing).retyped (t.entry (t.position - 1))

def down (t : Typing) : Typing :=
  if t.position ≥ t.count then t
  else ({ t with position := t.position + 1 } : Typing).retyped
    (if t.position + 1 = t.count then t.draft else t.entry (t.position + 1))

def insert (t : Typing) (c : BitVec 8) : Typing :=
  if t.line.length < 255 then ({ t with position := t.count } : Typing).retyped (t.line ++ [c]) else t

def erase (t : Typing) : Typing :=
  if t.line = [] then t else ({ t with position := t.count } : Typing).retyped t.line.dropLast

/-- An event that is not a newline. -/
def edit (t : Typing) (event : InputEvent) : Typing :=
  match event.type with
  | .left => t
  | .right => t
  | .up => t.up
  | .down => t.down
  | .char => if event.ch = 0x08 ∨ event.ch = 0x7F then t.erase else t.insert event.ch

end Typing

/-- No character is a NUL. -/
def NoNul (event : InputEvent) : Prop := event.type = .char → event.ch ≠ 0

/-- The shell's variables hold the editor's and the text in the buffer. -/
structure Carries (s : State) (t : Typing) : Prop where
  sound : Sound s t.log
  length : s.pos = t.line.length
  position : s.historyPosition = t.position
  buffer : StrAt s.cmdBuffer 0 t.held
  shown : t.line ≠ [] → t.held = t.line
  aside : t.position < t.count → StrAt s.currentLine 0 t.draft

section

variable {s s' : State} {t : Typing}

namespace Carries

theorem count (h : Carries s t) : s.historyCount = t.count := h.sound.log.count

theorem inside (h : Carries s t) : t.position ≤ t.count := by
  rw [← h.count, ← h.position]
  exact h.sound.position

theorem heldShort (h : Carries s t) : t.held.length ≤ 255 := by
  obtain ⟨line, str, short⟩ := h.sound.buffer
  rw [h.buffer.unique str]
  exact short

theorem draftShort (h : Carries s t) (recalled : t.position < t.count) : t.draft.length ≤ 255 := by
  obtain ⟨line, str, short⟩ := h.sound.saved
  rw [(h.aside recalled).unique str]
  exact short

/-- The line stands in the buffer. -/
theorem bytes (h : Carries s t) (i : Nat) (hi : i < t.line.length) : s.cmdBuffer i = t.line[i] := by
  have typed := h.shown (List.ne_nil_of_length_pos (Nat.zero_lt_of_lt hi))
  have str : StrAt s.cmdBuffer 0 t.line := typed ▸ h.buffer
  rw [← str.bytes i hi, Nat.zero_add]

theorem nonzero (h : Carries s t) : ∀ c ∈ t.line, c ≠ 0 := by
  intro c hc
  rw [← h.shown (List.ne_nil_of_mem hc)] at hc
  exact h.buffer.nonzero c hc

theorem terminated (h : Carries s t) : StrAt (storeByte s.cmdBuffer s.pos 0) 0 t.line := by
  rw [h.length]
  refine ⟨fun i hi => ?_, h.nonzero, ?_⟩
  · rw [Nat.zero_add, storeByte_out (Nat.ne_of_lt hi)]
    exact h.bytes i hi
  · rw [Nat.zero_add]
    exact storeByte_self _ _ _

theorem entry_eq (h : Carries s t) {i : Nat} {line : Line}
    (eq : t.log[t.log.length - s.historyCount + i]? = some line) : t.entry i = line := by
  rw [Editor.entry, ← h.count, List.getD_eq_getElem?_getD, eq, Option.getD_some]

/-! ### One event -/

theorem up (h : Carries s t) : ∃ s' out, handleUp s = some (s', out) ∧ Carries s' t.up := by
  obtain ⟨s', out, run, sound⟩ := handleUp_sound h.sound
  refine ⟨s', out, run, ?_⟩
  have count := h.count
  have position := h.position
  by_cases still : t.position = 0
  · have stop : s.historyCount = 0 ∨ s.historyPosition = 0 := .inr (position.trans still)
    rw [handleUp, if_pos stop] at run
    cases run
    rw [Typing.up, if_pos still]
    exact h
  · obtain ⟨m, line, run', str, -, eq⟩ := handleUp_spec h.sound.log h.sound.position (by omega)
    cases Option.some.inj (run.symm.trans run')
    have shown := h.entry_eq eq
    rw [position] at shown
    rw [Typing.up, if_neg still, shown]
    have below : s.historyPosition - 1 = t.position - 1 := by rw [position]
    by_cases leaves : t.position = t.count
    · have leaves' : s.historyPosition = s.historyCount := by omega
      rw [if_pos leaves'] at sound ⊢
      rw [if_pos leaves]
      have saved : StrAt (saveLine s).currentLine 0 t.held := saveLine_currentLine h.buffer h.heldShort
      generalize saveLine s = saved' at *
      exact ⟨sound, rfl, below, str, fun _ => rfl, fun _ => saved⟩
    · have stays : ¬ s.historyPosition = s.historyCount := by omega
      rw [if_neg stays] at sound ⊢
      rw [if_neg leaves]
      have inside := h.inside
      exact ⟨sound, rfl, below, str, fun _ => rfl, fun _ => h.aside (by omega)⟩

theorem down (h : Carries s t) : ∃ s' out, handleDown s = some (s', out) ∧ Carries s' t.down := by
  obtain ⟨s', out, run, sound⟩ := handleDown_sound h.sound
  refine ⟨s', out, run, ?_⟩
  have count := h.count
  have position := h.position
  have next : s.historyPosition + 1 = t.position + 1 := by rw [position]
  rcases Nat.lt_trichotomy (s.historyPosition + 1) s.historyCount with older | returns | still
  · obtain ⟨m, line, run', str, -, eq⟩ := handleDown_older h.sound.log older
    cases Option.some.inj (run.symm.trans run')
    have shown := h.entry_eq eq
    rw [position] at shown
    rw [Typing.down, if_neg (by omega), if_neg (by omega), shown]
    exact ⟨sound, rfl, next, str, fun _ => rfl, fun _ => h.aside (by omega)⟩
  · have recalled : t.position < t.count := by omega
    have saved := h.aside recalled
    obtain ⟨m, run', str⟩ := handleDown_last returns saved (h.draftShort recalled)
    cases Option.some.inj (run.symm.trans run')
    rw [Typing.down, if_neg (by omega), if_pos (by omega)]
    exact ⟨sound, rfl, next, str, fun _ => rfl, fun _ => saved⟩
  · have last : s.historyPosition ≥ s.historyCount := Nat.le_of_lt_succ still
    rw [handleDown, if_pos last] at run
    cases run
    rw [Typing.down, if_pos (by omega)]
    exact h

theorem erase (h : Carries s t) : ∃ s' out, handleBackspace s = some (s', out) ∧ Carries s' t.erase := by
  obtain ⟨s', out, run, sound⟩ := handleBackspace_sound h.sound
  refine ⟨s', out, run, ?_⟩
  have length := h.length
  by_cases empty : t.line = []
  · rw [empty, List.length_nil] at length
    have stop : ¬ s.pos > 0 := by omega
    rw [handleBackspace, if_neg stop] at run
    cases run
    rw [Typing.erase, if_pos empty]
    exact h
  · have positive := List.length_pos_iff.2 empty
    cases Option.some.inj (run.symm.trans (handleBackspace_eq (by omega) h.sound.pos))
    obtain ⟨-, -, position, -⟩ := adoptLine_fields s
    rw [Typing.erase, if_neg empty]
    have erased : StrAt (storeByte s.cmdBuffer (s.pos - 1) 0) 0 t.line.dropLast := by
      refine ⟨fun i hi => ?_, fun c hc => h.nonzero c (List.dropLast_subset _ hc), ?_⟩
      · rw [List.length_dropLast] at hi
        rw [List.getElem_dropLast, Nat.zero_add, storeByte_out (by omega)]
        exact h.bytes i (by omega)
      · rw [List.length_dropLast, ← length, Nat.zero_add]
        exact storeByte_self _ _ _
    refine ⟨sound, ?_, position.trans h.count, erased, fun _ => rfl, fun below => absurd below (Nat.lt_irrefl _)⟩
    show s.pos - 1 = t.line.dropLast.length
    rw [List.length_dropLast, length]

theorem insert (h : Carries s t) {c : BitVec 8} (char : c ≠ 0) :
    ∃ s' out, handleChar s c = some (s', out) ∧ Carries s' (t.insert c) := by
  obtain ⟨s', out, run, sound⟩ := handleChar_sound h.sound c
  refine ⟨s', out, run, ?_⟩
  have length := h.length
  by_cases room : t.line.length < 255
  · cases Option.some.inj (run.symm.trans (handleChar_eq c (by omega)))
    obtain ⟨-, -, position, -⟩ := adoptLine_fields s
    rw [Typing.insert, if_pos room]
    refine ⟨sound, ?_, position.trans h.count, ?_, fun _ => rfl, fun below => absurd below (Nat.lt_irrefl _)⟩
    · show s.pos + 1 = (t.line ++ [c]).length
      rw [List.length_append, List.length_singleton, length]
    · refine strAt_append.2 ⟨fun i hi => ?_, h.nonzero, strAt_cons.2 ⟨?_, char, strAt_nil.2 ?_⟩⟩
      · dsimp only
        rw [Nat.zero_add, storeByte_out (by omega), storeByte_out (by omega)]
        exact h.bytes i hi
      · dsimp only
        rw [Nat.zero_add, ← length, storeByte_out (by omega)]
        exact storeByte_self _ _ _
      · dsimp only
        rw [Nat.zero_add, ← length]
        exact storeByte_self _ _ _
  · have full : ¬ s.pos + 1 < cmdBufferSize := by
      rw [cmdBufferSize_eq]
      omega
    rw [handleChar, if_neg full] at run
    cases run
    rw [Typing.insert, if_neg room]
    exact h

theorem edit (h : Carries s t) {event : InputEvent} (typed : NoNul event) :
    ∃ s' out, handleEvent s event = some (s', out) ∧ Carries s' (t.edit event) := by
  have scrolled : ∀ {r : Option (State × List Output)} {t' : Typing}, (∃ s' out, r = some (s', out) ∧ Carries s' t') →
      ∃ s' out, (r.map fun r => (r.1, .scrollToBottom :: r.2)) = some (s', out) ∧ Carries s' t' := by
    intro r t' handled
    obtain ⟨s', out, rfl, carries⟩ := handled
    exact ⟨s', _, rfl, carries⟩
  obtain ⟨type, c⟩ := event
  cases type with
  | left => exact ⟨s, _, rfl, h⟩
  | right => exact ⟨s, _, rfl, h⟩
  | up => exact scrolled h.up
  | down => exact scrolled h.down
  | char =>
    apply scrolled
    rw [Typing.edit]
    dsimp only
    by_cases erases : c = 0x08 ∨ c = 0x7F
    · rw [if_pos erases, if_pos erases]
      exact h.erase
    · rw [if_neg erases, if_neg erases]
      exact h.insert (typed rfl)

end Carries

end

/-! ## Side by side -/

structure Session where
  shell : State
  editor : Editor

/-- A newline now would submit this line. -/
def Submits (s : State) (line : Line) : Prop :=
  ∃ s', terminateLine s = some s' ∧ StrAt s'.cmdBuffer 0 line

/-- The shell and the editor from a prompt on, with any history, while the shell runs. No
character is a NUL. -/
def editing : Lts Session (InputEvent × Mem) where
  Init x := Sound x.shell x.editor.log ∧ x.shell.pos = 0 ∧ x.shell.historyPosition = x.shell.historyCount ∧
    x.editor = .prompt x.editor.log
  Step x a x' := (a.1.type = .char → a.1.ch ≠ 0) ∧ shellStep x.shell a.1 a.2 = some (x'.shell, true) ∧
    x'.editor = x.editor.step a.1

/-- A DOWN that leaves the history finds no text saved where nothing had been typed. -/
def Cleared (x : Session) (a : InputEvent × Mem) : Prop :=
  a.1.type = .down → x.shell.historyPosition + 1 = x.shell.historyCount → x.editor.draft = [] →
    x.shell.currentLine 0 = 0

/-- The editor without the text in the buffer. What is put aside while nothing is typed may be
anything that was left there. -/
structure Follows (t : Typing) (e : Editor) : Prop where
  log : t.log = e.log
  line : t.line = e.line
  position : t.position = e.position
  draft : e.position < e.count → e.draft ≠ [] → t.draft = e.draft

/-- The shell's variables show the editor's. -/
def Shows (s : State) (e : Editor) : Prop := ∃ t, Carries s t ∧ Follows t e

section

variable {s s' : State} {t : Typing} {e : Editor} {log : List Line}

theorem Carries.submits (h : Carries s t) : Submits s t.line := ⟨_, terminateLine_spec h.sound.pos, h.terminated⟩

namespace Follows

theorem count (h : Follows t e) : t.count = e.count := by rw [Editor.count, Editor.count, h.log]

theorem entry (h : Follows t e) (i : Nat) : t.entry i = e.entry i := by rw [Editor.entry, Editor.entry, h.count, h.log]

theorem up (h : Follows t e) (carries : Carries s t) : Follows t.up e.up := by
  have inside := carries.inside
  rw [h.position, h.count] at inside
  by_cases still : e.position = 0
  · rw [Typing.up, if_pos (h.position.trans still), Editor.up, if_pos still]
    exact h
  · rw [Typing.up, if_neg (h.position ▸ still), Editor.up, if_neg still, h.position, h.entry, h.count]
    refine ⟨h.log, rfl, rfl, fun below some => ?_⟩
    dsimp only [Typing.retyped] at below some ⊢
    by_cases leaves : e.position = e.count
    · rw [if_pos leaves] at some ⊢
      rw [if_pos leaves, carries.shown (h.line ▸ some), h.line]
    · rw [if_neg leaves] at some ⊢
      rw [if_neg leaves]
      exact h.draft (by omega) some

theorem down (h : Follows t e) (cleared : e.position + 1 = e.count → e.draft = [] → t.draft = []) :
    Follows t.down e.down := by
  by_cases last : e.position ≥ e.count
  · rw [Typing.down, if_pos (by rw [h.position, h.count]; exact last), Editor.down, if_pos last]
    exact h
  · rw [Typing.down, if_neg (by rw [h.position, h.count]; exact last), Editor.down, if_neg last, h.position,
      h.entry, h.count]
    refine ⟨h.log, ?_, rfl, fun _ some => h.draft (Nat.not_le.1 last) some⟩
    dsimp only [Typing.retyped]
    by_cases returns : e.position + 1 = e.count
    · rw [if_pos returns, if_pos returns]
      by_cases empty : e.draft = []
      · rw [cleared returns empty, empty]
      · exact h.draft (Nat.not_le.1 last) empty
    · rw [if_neg returns, if_neg returns]

theorem insert (h : Follows t e) (c : BitVec 8) : Follows (t.insert c) (e.insert c) := by
  rw [Typing.insert, Editor.insert, h.line, h.count]
  split
  · exact ⟨h.log, rfl, rfl, fun below => absurd below (Nat.lt_irrefl _)⟩
  · exact h

theorem erase (h : Follows t e) : Follows t.erase e.erase := by
  rw [Typing.erase, Editor.erase, h.line, h.count]
  split
  · exact h
  · exact ⟨h.log, rfl, rfl, fun below => absurd below (Nat.lt_irrefl _)⟩

theorem edit (h : Follows t e) (carries : Carries s t) {event : InputEvent} (newline : ¬ isNewline event)
    (cleared : event.type = .down → e.position + 1 = e.count → e.draft = [] → t.draft = []) :
    Follows (t.edit event) (e.step event) := by
  obtain ⟨type, c⟩ := event
  cases type with
  | left => exact h
  | right => exact h
  | up => exact h.up carries
  | down => exact h.down (cleared rfl)
  | char =>
    have plain : ¬ c = 0x0A := fun eq => newline ⟨rfl, eq⟩
    rw [Typing.edit, Editor.step]
    dsimp only
    rw [if_neg plain]
    split
    · exact h.erase
    · exact h.insert c

end Follows

namespace Shows

theorem prompt (h : Sound s log) (pos : s.pos = 0) (position : s.historyPosition = s.historyCount) :
    Shows s (.prompt log) := by
  obtain ⟨held, str, -⟩ := h.buffer
  refine ⟨⟨.prompt log, held⟩, ?_, rfl, rfl, rfl, fun below => absurd below (Nat.lt_irrefl _)⟩
  exact ⟨h, pos, position.trans h.log.count, str, fun typed => absurd rfl typed, fun below =>
    absurd below (Nat.lt_irrefl _)⟩

theorem submits (h : Shows s e) : Submits s e.line := by
  obtain ⟨t, carries, follows⟩ := h
  exact follows.line ▸ carries.submits

/-- A newline: the same line is submitted, and both are at the next prompt. -/
theorem submit (h : Shows s e) {fresh : Mem} {s₁ s' : State} (ended : terminateLine s = some s₁)
    (run : submitLine s₁ fresh = some (s', true)) : Shows s' e.submit := by
  obtain ⟨t, carries, follows⟩ := h
  have short : t.line.length ≤ 255 := carries.length ▸ carries.sound.pos
  cases Option.some.inj (ended.symm.trans (terminateLine_spec carries.sound.pos))
  have kept : HoldsLog { s with cmdBuffer := storeByte s.cmdBuffer s.pos 0 } t.log :=
    carries.sound.log.congr rfl rfl rfl
  obtain ⟨s'', run', holds, cuts, next⟩ := submitLine_spec kept carries.terminated short fresh
  have both := Option.some.inj (run.symm.trans run')
  cases (Prod.mk.inj both).1
  have stays : ¬ command t.line = exitName := of_decide_eq_true (Prod.mk.inj both).2.symm
  rw [if_neg stays] at next
  obtain ⟨pos, position, first⟩ := next
  have nul := carries.terminated.nul
  rw [Nat.zero_add] at nul
  rw [Editor.submit, ← follows.log, ← follows.line]
  apply prompt _ pos position
  exact ⟨holds, by omega, Nat.le_of_eq position, terminated_of_nul (cuts.nul nul) short,
    terminated_of_nul first (Nat.zero_le _)⟩

end Shows

/-- What a DOWN that leaves the history brings back was put aside. -/
theorem Carries.aside_empty_iff (h : Carries s t) (returns : s.historyPosition + 1 = s.historyCount) :
    t.draft = [] ↔ s.currentLine 0 = 0 := by
  have count := h.count
  have position := h.position
  have saved := h.aside (by omega)
  constructor
  · intro empty
    rw [empty] at saved
    exact strAt_nil.1 saved
  · exact fun first => saved.unique (strAt_nil.2 first)

end

theorem step_newline {event : InputEvent} (newline : isNewline event) (e : Editor) : e.step event = e.submit := by
  rw [Editor.step, newline.1]
  exact if_pos newline.2

theorem shows_step {x x' : Session} {a : InputEvent × Mem} (h : Shows x.shell x.editor) (cleared : Cleared x a)
    (step : editing.Step x a x') : Shows x'.shell x'.editor := by
  obtain ⟨typed, run, follow⟩ := step
  rw [follow]
  by_cases newline : isNewline a.1
  · obtain ⟨s', ended, -⟩ := h.submits
    simp only [shellStep, if_pos newline, ended, Option.bind_eq_bind, Option.bind_some] at run
    rw [step_newline newline]
    exact h.submit ended run
  · obtain ⟨t, carries, follows⟩ := h
    obtain ⟨s', out, handled, carries'⟩ := carries.edit typed
    rw [shellStep, if_neg newline, handled] at run
    cases (Prod.mk.inj (Option.some.inj run)).1
    refine ⟨_, carries', follows.edit carries newline fun isDown returns empty => ?_⟩
    have returns' : x.shell.historyPosition + 1 = x.shell.historyCount := by
      rw [carries.position, carries.count, follows.position, follows.count]
      exact returns
    exact (carries.aside_empty_iff returns').2 (cleared isDown returns' empty)

theorem shows_run {as : List (InputEvent × Mem)} {x : Session} (run : (editing.restrict Cleared).Run as x) :
    Shows x.shell x.editor := by
  refine @Lts.Run.invariant _ _ (editing.restrict Cleared) (fun x => Shows x.shell x.editor) ?_ ?_ _ _ run
  · intro x init
    obtain ⟨sound, pos, position, start⟩ := init
    rw [start]
    exact .prompt sound pos position
  · intro x a x' shows step
    exact shows_step shows step.1 step.2

/-- A DOWN that is not clear shows a line that nobody typed. -/
theorem not_submits {x x' : Session} {a : InputEvent × Mem} (h : Shows x.shell x.editor) (stale : ¬ Cleared x a)
    (step : editing.Step x a x') : ¬ Submits x'.shell x'.editor.line := by
  simp only [Cleared, not_forall] at stale
  obtain ⟨isDown, returns, empty, first⟩ := stale
  obtain ⟨typed, run, follow⟩ := step
  obtain ⟨t, carries, follows⟩ := h
  have newline : ¬ isNewline a.1 := fun char => nomatch isDown.symm.trans char.1
  have returned : x.editor.position + 1 = x.editor.count := by
    rw [← follows.position, ← follows.count, ← carries.position, ← carries.count]
    exact returns
  have line : x'.editor.line = [] := by
    rw [follow, Editor.step, isDown]
    exact (Editor.down_last returned).trans empty
  obtain ⟨s', out, handled, carries'⟩ := carries.edit typed
  rw [shellStep, if_neg newline, handled] at run
  cases (Prod.mk.inj (Option.some.inj run)).1
  have shown : (t.edit a.1).line = t.draft := by
    rw [Typing.edit, isDown]
    dsimp only
    rw [Typing.down, if_neg (by rw [follows.position, follows.count]; omega)]
    dsimp only [Typing.retyped]
    rw [if_pos (by rw [follows.position, follows.count]; exact returned)]
  intro submits
  obtain ⟨s₁, ended, nothing⟩ := submits
  obtain ⟨s₂, ended', something⟩ := carries'.submits
  cases Option.some.inj (ended.symm.trans ended')
  rw [shown] at something
  rw [line] at nothing
  exact first ((carries.aside_empty_iff returns).1 (something.unique nothing))

/-- **The shell submits what the reference editor submits**, in every run in which each DOWN
is clear, and one event further exactly when that event is clear. In the editor as many DOWNs
as UPs give back the line. -/
theorem shell_refines_editor {as : List (InputEvent × Mem)} {x : Session} (run : (editing.restrict Cleared).Run as x) :
    Submits x.shell x.editor.line ∧
      (∀ a x', editing.Step x a x' → (Submits x'.shell x'.editor.line ↔ Cleared x a)) ∧
      (x.editor.position = x.editor.count → ∀ k, (Editor.down^[k] (Editor.up^[k] x.editor)).line = x.editor.line) := by
  have shows := shows_run run
  refine ⟨shows.submits, fun a x' step => ?_, Editor.downs_ups⟩
  constructor
  · intro submits
    by_contra stale
    exact not_submits shows stale step submits
  · intro cleared
    exact (shows_step shows cleared step).submits

/-- The first prompt after boot. -/
def firstPrompt : Session := ⟨⟨fun _ => 0, fun _ _ => 0, 0, 0, 0, 0, storeByte (literal []) 0 0⟩, .prompt []⟩

theorem editing_firstPrompt : editing.Init firstPrompt := ⟨@boot_sound (literal []) _ rfl, rfl, rfl, rfl⟩

/-- The session after some events, while the shell runs and each event meets the condition. -/
def play (ok : Session → InputEvent × Mem → Prop) [∀ x a, Decidable (ok x a)] (x : Session) :
    List (InputEvent × Mem) → Option Session
  | [] => some x
  | a :: as =>
    if ok x a then
      match shellStep x.shell a.1 a.2 with
      | some (s, true) => play ok ⟨s, x.editor.step a.1⟩ as
      | _ => none
    else none

theorem play_run {ok : Session → InputEvent × Mem → Prop} [∀ x a, Decidable (ok x a)] {as bs : List (InputEvent × Mem)}
    {x y : Session} (run : (editing.restrict ok).Run bs x) (typed : ∀ a ∈ as, a.1.type = .char → a.1.ch ≠ 0)
    (played : play ok x as = some y) : (editing.restrict ok).Run (bs ++ as) y := by
  induction as generalizing x bs with
  | nil =>
    cases played
    rw [List.append_nil]
    exact run
  | cons a as ih =>
    rw [play] at played
    split at played
    · rename_i allowed
      split at played
      · rename_i s step
        have next : editing.Step x a ⟨s, x.editor.step a.1⟩ := ⟨typed a List.mem_cons_self, step, rfl⟩
        rw [← List.singleton_append, ← List.append_assoc]
        exact ih (run.snoc ⟨allowed, next⟩) (fun b hb => typed b (List.mem_cons_of_mem _ hb)) played
      · cases played
    · cases played

instance (x : Session) (a : InputEvent × Mem) : Decidable (Cleared x a) :=
  inferInstanceAs (Decidable (_ → _ → _ → _))

/-- `a`, a newline, `b`, UP and DOWN. -/
def recallKeys : List (InputEvent × Mem) :=
  [(⟨.char, 0x61⟩, literal []), (⟨.char, 0x0A⟩, literal []), (⟨.char, 0x62⟩, literal []), (⟨.up, 0⟩, literal []),
    (⟨.down, 0⟩, literal [])]

/-- Over two prompts: the DOWN brings back the `b` that the UP put aside. -/
theorem shell_refines_editor_recall :
    ∃ x, (editing.restrict Cleared).Run recallKeys x ∧ x.editor.log = [[0x61]] ∧ Submits x.shell [0x62] := by
  have played : (play Cleared firstPrompt recallKeys).map (fun x => (x.editor.log, x.editor.line)) =
      some ([[0x61]], [0x62]) := by decide +kernel
  obtain ⟨x, run, eq⟩ := Option.map_eq_some_iff.1 played
  simp only [Prod.mk.injEq] at eq
  obtain ⟨log, line⟩ := eq
  have restricted := play_run (.start editing_firstPrompt) (by decide) run
  exact ⟨x, restricted, log, line ▸ (shell_refines_editor restricted).1⟩

/-- `a`, a newline, UP and DOWN. -/
def staleKeys : List (InputEvent × Mem) :=
  [(⟨.char, 0x61⟩, literal []), (⟨.char, 0x0A⟩, literal []), (⟨.up, 0⟩, literal []), (⟨.down, 0⟩, literal [])]

/-- After them the second prompt shows `a`, which nobody typed there. -/
theorem shell_shows_stale : ∃ x, editing.Run staleKeys x ∧ x.editor.line = [] ∧ ¬ Submits x.shell x.editor.line := by
  have played : (play (fun _ _ => True) firstPrompt staleKeys).map
      (fun x => (x.shell.pos, x.shell.cmdBuffer 0, x.editor.line)) = some (1, 0x61, []) := by decide +kernel
  obtain ⟨x, run, eq⟩ := Option.map_eq_some_iff.1 played
  simp only [Prod.mk.injEq] at eq
  obtain ⟨pos, byte, line⟩ := eq
  refine ⟨x, (play_run (.start editing_firstPrompt) (by decide) run).unrestrict, line, ?_⟩
  intro submits
  obtain ⟨s', ended, nothing⟩ := submits
  cases Option.some.inj (ended.symm.trans (terminateLine_spec (by omega)))
  rw [line] at nothing
  have nul := strAt_nil.1 nothing
  dsimp only at nul
  rw [storeByte_out (by omega), byte] at nul
  exact absurd nul (by decide)

end SimpleKernel.Shell
