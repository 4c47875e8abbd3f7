import SimpleKernel.Shell.Editing

/-!
# What an event prints and what it stores

Every event takes back some of the characters of the line, with one backspace for each, and prints
a text (`Echo`). What it puts into `cmd_buffer` is that text, except for a NUL, which is stored and
not printed. Nothing that is recalled has a newline or a backspace in it: neither is ever stored,
on any line since boot (`shellSystem_plain`).
-/

namespace SimpleKernel.Shell
set_option autoImplicit false
open Lib Kstring Input

/-- No newline and no backspace. -/
def Plain (line : Line) : Prop := ∀ c ∈ line, c ≠ 0x0A ∧ c ≠ 0x08

/-- `cmd_buffer[0..pos-1]`. -/
def typedLine (s : State) : Line := (List.range s.pos).map s.cmdBuffer

/-- An output character by character. -/
def Output.chars : Output → List Output
  | .kprint text => text.map fun c => .kprint [c]
  | .kprintColored text fg bg => [.kprintColored text fg bg]
  | .scrollView delta => [.scrollView delta]
  | .scrollToBottom => [.scrollToBottom]

/-- The character is a NUL and there is room for it. -/
def StoresNul (s : State) (event : InputEvent) : Prop := event.type = .char ∧ event.ch = 0 ∧ s.pos + 1 < cmdBufferSize

/-- How an event moves the view, before anything else. -/
def scrolls (event : InputEvent) : Output :=
  match event.type with
  | .left => .scrollView (-1)
  | .right => .scrollView 1
  | .up => .scrollToBottom
  | .down => .scrollToBottom
  | .char => .scrollToBottom

/-- From `s` to `s'` with `k` backspaces and `text` printed, and `stored` put behind what is left of the line. -/
structure Echo (s s' : State) (out : List Output) (k : Nat) (text stored : Line) : Prop where
  printed : out.flatMap Output.chars = (List.replicate k 0x08 ++ text).map fun c => .kprint [c]
  back : k ≤ s.pos
  plain : Plain text
  line : typedLine s' = (typedLine s).take (s.pos - k) ++ stored

/-- No line that can be recalled has a newline or a backspace. -/
structure PlainLines (s : State) (recorded : List Line) : Prop extends Sound s recorded where
  lines : ∀ l ∈ recorded, Plain l
  typed : Plain (typedLine s)
  buffered : ∀ t, StrAt s.cmdBuffer 0 t → Plain t
  aside : ∀ t, StrAt s.currentLine 0 t → Plain t

section

variable {s s₁ s' : State} {m : Mem} {log : List Line} {t : Line} {n : Nat}

@[simp] theorem length_typedLine (s : State) : (typedLine s).length = s.pos := by simp [typedLine]

theorem typedLine_empty (empty : s.pos = 0) : typedLine s = [] := by
  apply List.length_eq_zero_iff.1
  rw [length_typedLine, empty]

theorem plain_nil : Plain [] := by simp [Plain]

theorem Plain.append {line line' : Line} (h : Plain line) (h' : Plain line') : Plain (line ++ line') := fun c member =>
  (List.mem_append.1 member).elim (h c) (h' c)

/-- A string does not go on behind a NUL. -/
theorem plain_string (str : StrAt m 0 t) (nul : m n = 0) (plain : Plain ((List.range n).map m)) : Plain t := by
  have length : t.length ≤ n := by
    by_contra longer
    refine str.byte (i := n) (by omega) ?_
    rw [Nat.zero_add]
    exact nul
  intro c member
  obtain ⟨i, hi, rfl⟩ := List.getElem_of_mem member
  have byte := str.bytes i hi
  rw [Nat.zero_add] at byte
  exact plain _ (List.mem_map.2 ⟨i, List.mem_range.2 (by omega), byte⟩)

theorem typedLine_string (str : StrAt m 0 t) : (List.range t.length).map m = t := by
  refine List.ext_getElem (by simp) fun i hi hi' => ?_
  have byte := str.bytes i hi'
  rw [Nat.zero_add] at byte
  rw [List.getElem_map, List.getElem_range, byte]

/-- A byte stored behind the line is not on it. -/
theorem map_storeByte (m : Mem) (c : BitVec 8) {a : Nat} (behind : n ≤ a) :
    (List.range n).map (storeByte m a c) = (List.range n).map m :=
  List.map_congr_left fun i hi => storeByte_out (by have := List.mem_range.1 hi; omega)

theorem chars_redraw (k : Nat) (t : Line) :
    (redraw k t).flatMap Output.chars = (List.replicate k 0x08 ++ t).map fun c => .kprint [c] := by
  rw [redraw, List.flatMap_append, List.map_append, List.flatMap_singleton]
  refine congrArg (· ++ _) ?_
  induction k with
  | zero => rfl
  | succ k ih =>
    rw [List.replicate_succ, List.flatMap_cons, ih]
    rfl

theorem echo_nothing (s : State) : Echo s s [] 0 [] [] :=
  ⟨rfl, Nat.zero_le _, plain_nil, by rw [List.append_nil, Nat.sub_zero, List.take_of_length_le (by simp)]⟩

/-- The string of the buffer, saved. -/
theorem PlainLines.copied (h : PlainLines s log) {line : Line} (str : StrAt (saveLine s).currentLine 0 line) :
    Plain line := by
  obtain ⟨buffer, strBuffer, short⟩ := h.buffer
  have same := str.unique (saveLine_currentLine strBuffer short)
  exact same ▸ h.buffered _ strBuffer

theorem PlainLines.adopted (h : PlainLines s log) {line : Line} (str : StrAt (adoptLine s).currentLine 0 line) :
    Plain line := by
  by_cases recalled : s.historyPosition ≠ s.historyCount
  · have copied : ∀ d, StrAt (saveLine s).currentLine 0 d → Plain d := fun d => h.copied
    rw [adoptLine, if_pos recalled] at str
    generalize saveLine s = saved at *
    exact copied _ str
  · rw [adoptLine, if_neg recalled] at str
    exact h.aside _ str

/-- The line that a recall brings into the buffer. -/
theorem PlainLines.recalled (h : PlainLines s log) (plain : Plain t) (str : StrAt m 0 t)
    (sound : Sound { s₁ with cmdBuffer := m, pos := t.length } log)
    (aside : ∀ d, StrAt s₁.currentLine 0 d → Plain d) :
    PlainLines { s₁ with cmdBuffer := m, pos := t.length } log ∧
      Echo s { s₁ with cmdBuffer := m, pos := t.length } (redraw s.pos t) s.pos t t := by
  have line : typedLine { s₁ with cmdBuffer := m, pos := t.length } = t := typedLine_string str
  refine ⟨⟨sound, h.lines, ?_, fun d strD => ?_, aside⟩, chars_redraw _ _, Nat.le_refl _, plain, ?_⟩
  · rw [line]
    exact plain
  · rw [strD.unique str]
    exact plain
  · rw [line, Nat.sub_self, List.take_zero, List.nil_append]

/-! ## The handlers -/

theorem handleUp_echo (h : PlainLines s log) : ∃ s' out k t, handleUp s = some (s', out) ∧ PlainLines s' log ∧
      Echo s s' out k t t ∧ ∀ c ∈ t, c ≠ 0 := by
  obtain ⟨s', out, run, sound⟩ := handleUp_sound h.toSound
  by_cases still : s.historyCount = 0 ∨ s.historyPosition = 0
  · exact ⟨s, [], 0, [], if_pos still, h, echo_nothing s, by simp⟩
  · obtain ⟨m, t, run', str, -, eq⟩ := handleUp_spec h.log h.position (by omega)
    rw [run'] at run
    cases run
    have plain := h.lines t (List.mem_of_getElem? eq)
    refine ⟨_, _, s.pos, t, run', ?_⟩
    by_cases leaves : s.historyPosition = s.historyCount
    · simp only [if_pos leaves] at sound ⊢
      have aside : ∀ d, StrAt (saveLine s).currentLine 0 d → Plain d := fun d => h.copied
      generalize saveLine s = saved at *
      obtain ⟨plainLines, echo⟩ :=
        @PlainLines.recalled s { saved with historyPosition := s.historyPosition - 1 } m log t h plain str sound aside
      exact ⟨plainLines, echo, str.nonzero⟩
    · simp only [if_neg leaves] at sound ⊢
      obtain ⟨plainLines, echo⟩ :=
        @PlainLines.recalled s { s with historyPosition := s.historyPosition - 1 } m log t h plain str sound h.aside
      exact ⟨plainLines, echo, str.nonzero⟩

theorem handleDown_echo (h : PlainLines s log) : ∃ s' out k t, handleDown s = some (s', out) ∧ PlainLines s' log ∧
      Echo s s' out k t t ∧ ∀ c ∈ t, c ≠ 0 := by
  obtain ⟨s', out, run, sound⟩ := handleDown_sound h.toSound
  rcases Nat.lt_trichotomy (s.historyPosition + 1) s.historyCount with older | returns | still
  · obtain ⟨m, t, run', str, -, eq⟩ := handleDown_older h.log older
    rw [run'] at run
    cases run
    have plain := h.lines t (List.mem_of_getElem? eq)
    obtain ⟨plainLines, echo⟩ :=
      @PlainLines.recalled s { s with historyPosition := s.historyPosition + 1 } m log t h plain str sound h.aside
    exact ⟨_, _, s.pos, t, run', plainLines, echo, str.nonzero⟩
  · obtain ⟨draft, strDraft, short⟩ := h.saved
    obtain ⟨m, run', str⟩ := handleDown_last returns strDraft short
    rw [run'] at run
    cases run
    obtain ⟨plainLines, echo⟩ := @PlainLines.recalled s
      { s with historyPosition := s.historyPosition + 1 } m log draft h (h.aside _ strDraft) str sound h.aside
    exact ⟨_, _, s.pos, draft, run', plainLines, echo, str.nonzero⟩
  · have last : s.historyPosition ≥ s.historyCount := Nat.le_of_lt_succ still
    exact ⟨s, [], 0, [], if_pos last, h, echo_nothing s, by simp⟩

theorem handleBackspace_echo (h : PlainLines s log) :
    ∃ s' out k, handleBackspace s = some (s', out) ∧ PlainLines s' log ∧ Echo s s' out k [] [] := by
  by_cases positive : 0 < s.pos
  · have inside := h.pos
    have nul : storeByte s.cmdBuffer (s.pos - 1) 0 (s.pos - 1) = 0 := storeByte_self _ _ _
    have line : (List.range (s.pos - 1)).map (storeByte s.cmdBuffer (s.pos - 1) 0) =
        (typedLine s).take (s.pos - 1) := by
      rw [map_storeByte _ _ (Nat.le_refl _), typedLine, ← List.map_take, List.take_range,
        Nat.min_eq_left (Nat.sub_le _ _)]
    have plain : Plain ((List.range (s.pos - 1)).map (storeByte s.cmdBuffer (s.pos - 1) 0)) := by
      rw [line]
      exact fun c member => h.typed c (List.mem_of_mem_take member)
    refine ⟨_, _, 1, handleBackspace_eq positive inside,
      ⟨h.edit (by omega) nul, h.lines, plain, ?_, fun d => h.adopted⟩, rfl, positive, plain_nil, ?_⟩
    · exact fun t str => plain_string str nul plain
    · rw [List.append_nil]
      exact line
  · exact ⟨s, [], 0, if_neg positive, h, echo_nothing s⟩

/-- A character that is stored. -/
theorem handleChar_echo (h : PlainLines s log) {c : BitVec 8} (plain : c ≠ 0x0A ∧ c ≠ 0x08) (room : s.pos < 255) :
    ∃ s' out, handleChar s c = some (s', out) ∧ PlainLines s' log ∧
      Echo s s' out 0 (if c = 0 then [] else [c]) [c] := by
  have nul : storeByte (storeByte s.cmdBuffer s.pos c) (s.pos + 1) 0 (s.pos + 1) = 0 := storeByte_self _ _ _
  have line : (List.range (s.pos + 1)).map (storeByte (storeByte s.cmdBuffer s.pos c) (s.pos + 1) 0) =
      typedLine s ++ [c] := by
    rw [map_storeByte _ _ (Nat.le_refl _), List.range_succ, List.map_append, map_storeByte _ _ (Nat.le_refl _),
      List.map_singleton, storeByte_self]
    rfl
  have one : Plain [c] := fun d member => by
    rw [List.mem_singleton.1 member]
    exact plain
  have whole : Plain ((List.range (s.pos + 1)).map (storeByte (storeByte s.cmdBuffer s.pos c) (s.pos + 1) 0)) := by
    rw [line]
    exact h.typed.append one
  refine ⟨_, _, handleChar_eq c room, ⟨h.edit (by omega) nul, h.lines, whole, fun t str => plain_string str nul whole,
    fun d => h.adopted⟩, ?_, Nat.zero_le _, ?_, ?_⟩
  · split
    · rfl
    · rfl
  · split
    · exact plain_nil
    · exact one
  · rw [Nat.sub_zero, List.take_of_length_le (Nat.le_of_eq (length_typedLine s))]
    exact line

/-- **Every event**: what is stored is what is printed, except for a NUL. -/
theorem handleEvent_echo (h : PlainLines s log) {event : InputEvent} (newline : ¬ isNewline event) :
    ∃ s' out k text stored, handleEvent s event = some (s', scrolls event :: out) ∧ PlainLines s' log ∧
      Echo s s' out k text stored ∧ (¬ StoresNul s event → stored = text ∧ ∀ c ∈ text, c ≠ 0) ∧
      (StoresNul s event → k = 0 ∧ text = [] ∧ stored = [0]) := by
  obtain ⟨type, c⟩ := event
  have other : type ≠ .char → ¬ StoresNul s ⟨type, c⟩ := fun ne stores => ne stores.1
  cases type with
  | left =>
    exact ⟨s, [], 0, [], [], rfl, h, echo_nothing s, fun _ => ⟨rfl, by simp⟩,
      fun stores => absurd stores (other (by decide))⟩
  | right =>
    exact ⟨s, [], 0, [], [], rfl, h, echo_nothing s, fun _ => ⟨rfl, by simp⟩,
      fun stores => absurd stores (other (by decide))⟩
  | up =>
    obtain ⟨s', out, k, t, run, plain, echo, nonzero⟩ := handleUp_echo h
    refine ⟨s', out, k, t, t, ?_, plain, echo, fun _ => ⟨rfl, nonzero⟩, fun stores => absurd stores (other (by decide))⟩
    rw [handleEvent]
    dsimp only
    rw [run]
    rfl
  | down =>
    obtain ⟨s', out, k, t, run, plain, echo, nonzero⟩ := handleDown_echo h
    refine ⟨s', out, k, t, t, ?_, plain, echo, fun _ => ⟨rfl, nonzero⟩, fun stores => absurd stores (other (by decide))⟩
    rw [handleEvent]
    dsimp only
    rw [run]
    rfl
  | char =>
    rw [handleEvent]
    dsimp only
    by_cases erases : c = 0x08 ∨ c = 0x7F
    · have notNul : ¬ StoresNul s ⟨.char, c⟩ := fun stores => by
        have zero : c = 0 := stores.2.1
        subst zero
        exact absurd erases (by decide)
      obtain ⟨s', out, k, run, plain, echo⟩ := handleBackspace_echo h
      refine ⟨s', out, k, [], [], ?_, plain, echo, fun _ => ⟨rfl, by simp⟩, fun stores => absurd stores notNul⟩
      rw [if_pos erases, run]
      rfl
    · rw [if_neg erases]
      have plainChar : c ≠ 0x0A ∧ c ≠ 0x08 := ⟨fun eq => newline ⟨rfl, eq⟩, fun eq => erases (.inl eq)⟩
      by_cases room : s.pos < 255
      · obtain ⟨s', out, run, plain, echo⟩ := handleChar_echo h plainChar room
        refine ⟨s', out, 0, _, [c], ?_, plain, echo, fun kept => ?_, fun stores => ?_⟩
        · rw [run]
          rfl
        · have nonzero : c ≠ 0 := fun zero => kept ⟨rfl, zero, by rw [cmdBufferSize_eq]; show s.pos + 1 < 256; omega⟩
          rw [if_neg nonzero]
          exact ⟨rfl, fun d member => by rw [List.mem_singleton.1 member]; exact nonzero⟩
        · have zero : c = 0 := stores.2.1
          rw [if_pos zero, zero]
          exact ⟨rfl, rfl, rfl⟩
      · have full : ¬ s.pos + 1 < cmdBufferSize := by
          rw [cmdBufferSize_eq]
          omega
        refine ⟨s, [], 0, [], [], ?_, h, echo_nothing s, fun _ => ⟨rfl, by simp⟩, fun stores => absurd stores.2.2 full⟩
        rw [handleChar, if_neg full]
        rfl

/-! ## All lines since boot -/

theorem plain_record (log : List Line) {line : Line} (lines : ∀ l ∈ log, Plain l) (plain : Plain line) :
    ∀ l ∈ record log line, Plain l := by
  unfold record
  split
  · exact lines
  · intro l member
    rcases List.mem_append.1 member with old | new
    · exact lines l old
    · rw [List.mem_singleton.1 new]
      exact plain

/-- A new prompt. -/
theorem PlainLines.submit (h : PlainLines s log) {fresh : Mem} {ended : State}
    (terminated : terminateLine s = some ended) (run : submitLine ended fresh = some (s', true)) :
    ∃ log', PlainLines s' log' := by
  cases Option.some.inj (terminated.symm.trans (terminateLine_spec h.pos))
  have nul : storeByte s.cmdBuffer s.pos 0 s.pos = 0 := storeByte_self _ _ _
  have bytes : Plain ((List.range s.pos).map (storeByte s.cmdBuffer s.pos 0)) := by
    rw [map_storeByte _ _ (Nat.le_refl _)]
    exact h.typed
  obtain ⟨line, str, short⟩ := terminated_of_nul nul h.pos
  have plain := plain_string str nul bytes
  have kept : HoldsLog { s with cmdBuffer := storeByte s.cmdBuffer s.pos 0 } log := h.log.congr rfl rfl rfl
  obtain ⟨s'', run', holds, cuts, prompt⟩ := submitLine_spec kept str short fresh
  have both := Option.some.inj (run.symm.trans run')
  cases (Prod.mk.inj both).1
  have stays : ¬ command line = exitName := of_decide_eq_true (Prod.mk.inj both).2.symm
  rw [if_neg stays] at prompt
  obtain ⟨pos, position, first⟩ := prompt
  have strNul := str.nul
  rw [Nat.zero_add] at strNul
  refine ⟨record log line, ⟨holds, by omega, Nat.le_of_eq position, terminated_of_nul (cuts.nul strNul) short,
    terminated_of_nul first (Nat.zero_le _)⟩, plain_record log h.lines plain, ?_, fun t strT => ?_, fun t strT => ?_⟩
  · rw [typedLine_empty pos]
    exact plain_nil
  · refine plain_string strT (cuts.nul strNul) fun c member => ?_
    obtain ⟨i, hi, rfl⟩ := List.mem_map.1 member
    have inside := List.mem_range.1 hi
    have byte := str.bytes i inside
    rw [Nat.zero_add] at byte
    rcases cuts i with same | ⟨-, -, -, cut⟩
    · rw [same]
      dsimp only
      rw [byte]
      exact plain _ (List.getElem_mem inside)
    · rw [cut]
      decide
  · rw [strT.unique (strAt_nil.2 first)]
    exact plain_nil

end

/-- **Newlines and backspaces are never stored**, whatever is typed and however many lines. -/
theorem shellSystem_plain {as : List (InputEvent × Mem)} {x : State × Bool} (run : shellSystem.Run as x) :
    x.2 = true → ∃ log, PlainLines x.1 log := by
  refine @Lts.Run.invariant _ _ shellSystem (fun x => x.2 = true → ∃ log, PlainLines x.1 log) ?_ ?_ _ _ run
  · intro x init _
    obtain ⟨⟨fresh, booted⟩, -⟩ := init
    have sound := boot_sound booted
    have store : storeIn cmdBufferSize fresh 0 0 = some (storeByte fresh 0 0) := storeIn_of_lt (by decide)
    simp only [boot, newPrompt, store, Option.bind_eq_bind, Option.bind_some, Option.some.injEq] at booted
    rw [← booted] at sound ⊢
    have nothing : storeByte fresh 0 0 0 = 0 := storeByte_self _ _ _
    refine ⟨[], sound, by simp, plain_nil, fun t str => ?_, fun t str => ?_⟩
    · rw [str.unique (strAt_nil.2 rfl)]
      exact plain_nil
    · rw [str.unique (strAt_nil.2 nothing)]
      exact plain_nil
  · intro x a x' inv step running
    obtain ⟨on, run⟩ := step
    obtain ⟨log, h⟩ := inv on
    by_cases newline : isNewline a.1
    · have ended := terminateLine_spec h.pos
      simp only [shellStep, if_pos newline, ended, Option.bind_eq_bind, Option.bind_some] at run
      obtain ⟨s', go⟩ := x'
      subst running
      exact h.submit ended run
    · obtain ⟨s', out, k, text, stored, handled, plain, -⟩ := handleEvent_echo h newline
      rw [shellStep, if_neg newline, handled] at run
      cases run
      exact ⟨log, plain⟩

end SimpleKernel.Shell
