import SimpleKernel.Shell.Echo
import SimpleKernel.Vga.Reading

/-!
# The line on the screen

The shell and the console while one line is edited. The cells before the cursor are to hold the
prompt and `cmd_buffer[0..pos-1]`, across row ends and scrolls. Every event keeps that, at every
character it prints, except one: a NUL is counted in `pos` and not printed, so that the line is one
character longer than what is shown, and the last backspace takes the end of the prompt
(`line_on_screen`, `nul_off_screen`).
-/

namespace SimpleKernel.Shell
set_option autoImplicit false
open Lib Kstring Input

def kernelText : Line := [0x6B, 0x65, 0x72, 0x6E, 0x65, 0x6C]
def arrowText : Line := [0x3E, 0x20]
def promptText : Line := kernelText ++ arrowText

def shellPrintPrompt : List Output :=
  [.kprintColored kernelText Vga.vgaColorLightCyan Vga.vgaColorBlack,
    .kprintColored arrowText Vga.vgaColorLightGreen Vga.vgaColorBlack]

/-- What `kprint.c` and the shell make the console do; the copy to the serial line is left out. -/
def print (v : Vga.State) : Output → Vga.State
  | .kprint text => Vga.vgaWrite v text
  | .kprintColored text fg bg =>
    let v := Vga.vgaWrite (Vga.vgaSetcolor v (Vga.vgaEntryColor fg bg)) text
    Vga.vgaSetcolor v (Vga.vgaEntryColor Vga.vgaColorLightGrey Vga.vgaColorBlack)
  | .scrollView delta => Vga.vgaScrollView v delta
  | .scrollToBottom => Vga.vgaScrollToBottom v

/-- The characters of an output. -/
def Output.text : Output → Line
  | .kprint text => text
  | .kprintColored text _ _ => text
  | .scrollView _ => []
  | .scrollToBottom => []

structure Screen where
  shell : State
  vga : Vga.State

/-- The loop of `shell_run` over the events of one line, from a prompt just printed: by a shell that
any input has led to, on a console that any calls have led to. -/
def lineEditing : Lts Screen InputEvent where
  Init x := (∃ as, shellSystem.Run as (x.shell, true)) ∧ x.shell.pos = 0 ∧
    x.shell.historyPosition = x.shell.historyCount ∧
    ∃ calls v, Vga.console.Run calls v ∧ x.vga = shellPrintPrompt.foldl print v
  Step x event x' := ¬ isNewline event ∧
    ∃ out, handleEvent x.shell event = some (x'.shell, out) ∧ x'.vga = out.foldl print x.vga

/-- Before the cursor stand the prompt and the line. -/
def Matches (x : Screen) : Prop := Vga.Reads x.vga (promptText ++ typedLine x.shell)

/-- An event handled as it should be: the screen matches after it; at every character that it prints the
prompt is there and behind it the line edited so far; and unless it scrolls the view, the view is at
the bottom and drawn. -/
structure Echoed (x : Screen) (event : InputEvent) (x' : Screen) : Prop where
  after : Matches x'
  during : ∀ out, handleEvent x.shell event = some (x'.shell, out) → ∀ pre, pre <+: out.flatMap Output.chars →
    Vga.Reads (pre.foldl print x.vga) (promptText ++ Vga.editText (typedLine x.shell) (pre.flatMap Output.text))
  view : scrolls event = .scrollToBottom →
    x'.vga.viewportRow = Vga.vgaBottomViewportRow x'.vga ∧ Vga.Drawn x'.vga

/-- Calls have led to the state of the console. -/
def Reached (v : Vga.State) : Prop := ∃ calls, Vga.console.Run calls v

section

variable {x x' : Screen} {v : Vga.State} {event : InputEvent} {base text printed : Line} {fg bg : BitVec 8}

/-! ## Printing -/

theorem Reached.call (h : Reached v) {c : Vga.Call} (fits : Vga.Fits v c) : Reached (Vga.call v c) := by
  obtain ⟨calls, run⟩ := h
  exact ⟨_, Vga.console_snoc run fits⟩

theorem Reached.bounds (h : Reached v) : Vga.InBounds v := by
  obtain ⟨calls, run⟩ := h
  exact Vga.console_inBounds run

theorem Reached.write (h : Reached v) (text : Line) : Reached (Vga.vgaWrite v text) := h.call (c := .write text) trivial

theorem Reached.setcolor (h : Reached v) (color : BitVec 8) : Reached (Vga.vgaSetcolor v color) :=
  h.call (c := .setcolor color) trivial

theorem Reached.scrolls (h : Reached v) (event : InputEvent) : Reached (print v (scrolls event)) := by
  have viewport := h.bounds.viewport
  have total := h.bounds.total
  have bottom : Reached (Vga.vgaScrollToBottom v) := h.call (c := .scrollToBottom) trivial
  have view : ∀ delta : Int, -1 ≤ delta → delta ≤ 1 → Reached (Vga.vgaScrollView v delta) := fun delta lo hi =>
    h.call (c := .scrollView delta) ⟨by omega, by omega⟩
  unfold Shell.scrolls
  split
  · exact view (-1) (by decide) (by decide)
  · exact view 1 (by decide) (by decide)
  · exact bottom
  · exact bottom
  · exact bottom

/-- Moving the view changes no cell of the history and not the cursor. -/
theorem reads_scrolls (h : Vga.Reads v text) (event : InputEvent) : Vga.Reads (print v (scrolls event)) text := by
  unfold Shell.scrolls
  split <;> exact h.congr rfl rfl

theorem foldl_kprint (v : Vga.State) (text : Line) :
    (text.map fun c => Output.kprint [c]).foldl print v = Vga.vgaWrite v text := List.foldl_map

/-- Printing character by character is printing. -/
theorem foldl_chars (v : Vga.State) (out : List Output) :
    (out.flatMap Output.chars).foldl print v = out.foldl print v := by
  induction out generalizing v with
  | nil => rfl
  | cons o out ih =>
    have one : o.chars.foldl print v = print v o := by
      cases o with
      | kprint text => exact foldl_kprint v text
      | kprintColored text fg bg => rfl
      | scrollView delta => rfl
      | scrollToBottom => rfl
    rw [List.flatMap_cons, List.foldl_append, one, List.foldl_cons, ih]

/-- A coloured text goes on at the end of what is there. -/
theorem reads_kprintColored (h : Vga.Reads v base) (reached : Reached v) (plain : Plain text)
    (short : base.length + text.length + 78 ≤ 256 * 78) :
    Vga.Reads (print v (.kprintColored text fg bg)) (base ++ text) := by
  have colored := h.setcolor (Vga.vgaEntryColor fg bg)
  rw [← List.append_nil base] at colored
  have written := colored.write (reached.setcolor _).bounds (Vga.staysOn_retype (k := 0) (Nat.zero_le _) plain)
    (by rw [List.replicate_zero, List.nil_append, List.length_nil]; omega)
  rw [Vga.editText_retype plain] at written
  exact written.setcolor _

theorem reached_kprintColored (reached : Reached v) : Reached (print v (.kprintColored text fg bg)) :=
  ((reached.setcolor _).write text).setcolor _

/-- **The prompt.** -/
theorem reads_prompt (reached : Reached v) : Vga.Reads (shellPrintPrompt.foldl print v) promptText ∧
    Reached (shellPrintPrompt.foldl print v) := by
  have one := @reads_kprintColored v [] kernelText Vga.vgaColorLightCyan Vga.vgaColorBlack (Vga.reads_nil v) reached
    (by unfold Plain; decide) (by decide)
  have reached' := @reached_kprintColored v kernelText Vga.vgaColorLightCyan Vga.vgaColorBlack reached
  exact ⟨reads_kprintColored one reached' (by unfold Plain; decide) (by decide), reached_kprintColored reached'⟩

/-! ## One event -/

/-- What holds while a line without a NUL is edited. -/
structure OnPrompt (x : Screen) : Prop where
  plain : ∃ log, PlainLines x.shell log
  reached : Reached x.vga
  nonzero : ∀ c ∈ typedLine x.shell, c ≠ 0
  screen : Matches x

theorem onPrompt_start (init : lineEditing.Init x) : OnPrompt x := by
  obtain ⟨⟨as, run⟩, pos, -, calls, v, console, screen⟩ := init
  obtain ⟨reads, reached⟩ := @reads_prompt v ⟨calls, console⟩
  have nothing := typedLine_empty pos
  refine ⟨shellSystem_plain run rfl, screen ▸ reached, ?_, ?_⟩
  · rw [nothing]
    simp
  · rw [Matches, nothing, List.append_nil, screen]
    exact reads

/-- A part of what an event prints. -/
theorem part_scrolls {pre : List Output} (part : pre <+: scrolls event :: printed.map fun c => .kprint [c]) :
    pre = [] ∨ ∃ chars, chars <+: printed ∧ pre = scrolls event :: chars.map fun c => .kprint [c] := by
  rcases List.prefix_cons_iff.1 part with rfl | ⟨rest, rfl, inner⟩
  · exact .inl rfl
  · have eq := List.prefix_iff_eq_take.1 inner
    rw [← List.map_take] at eq
    exact .inr ⟨_, List.take_prefix _ _, by rw [← eq]⟩

/-- **An event that stores what it prints** is echoed. -/
theorem OnPrompt.echoed (h : OnPrompt x) {s' : State} {out : List Output} {k : Nat} {log : List Line}
    (handled : handleEvent x.shell event = some (s', scrolls event :: out)) (plain : PlainLines s' log)
    (echo : Echo x.shell s' out k text text) (nonzero : ∀ c ∈ text, c ≠ 0) :
    Echoed x event ⟨s', (scrolls event :: out).foldl print x.vga⟩ ∧
      OnPrompt ⟨s', (scrolls event :: out).foldl print x.vga⟩ := by
  obtain ⟨log₀, before⟩ := h.plain
  have viewed := reads_scrolls h.screen event
  have reached := h.reached.scrolls event
  have stays : Vga.StaysOn (typedLine x.shell) (List.replicate k 0x08 ++ text) :=
    Vga.staysOn_retype (by rw [length_typedLine]; exact echo.back) echo.plain
  have line : typedLine s' = Vga.editText (typedLine x.shell) (List.replicate k 0x08 ++ text) := by
    rw [Vga.editText_retype echo.plain, length_typedLine]
    exact echo.line
  have lengths : text.length ≤ 255 ∧ k ≤ 255 ∧ x.shell.pos ≤ 255 := by
    have length := congrArg List.length echo.line
    have pos := plain.pos
    have pos₀ := before.pos
    have back := echo.back
    rw [List.length_append, length_typedLine] at length
    omega
  -- the cells while a part of the text has been printed
  have parts : ∀ chars, chars <+: List.replicate k 0x08 ++ text →
      Vga.Reads (Vga.vgaWrite (print x.vga (scrolls event)) chars)
        (promptText ++ Vga.editText (typedLine x.shell) chars) := by
    intro chars part
    have short := part.length_le
    rw [List.length_append, List.length_replicate] at short
    have prompt : promptText.length = 8 := rfl
    obtain ⟨later, eq⟩ := part
    rw [← eq] at stays
    refine viewed.write reached.bounds stays.of_append ?_
    rw [length_typedLine]
    omega
  have whole : (scrolls event :: out).foldl print x.vga =
      Vga.vgaWrite (print x.vga (scrolls event)) (List.replicate k 0x08 ++ text) := by
    rw [List.foldl_cons, ← foldl_chars, echo.printed, foldl_kprint]
  have after : Vga.Reads ((scrolls event :: out).foldl print x.vga) (promptText ++ typedLine s') := by
    rw [whole, line]
    exact parts _ List.prefix_rfl
  have reached' : Reached ((scrolls event :: out).foldl print x.vga) := by
    rw [whole]
    exact reached.write _
  refine ⟨⟨after, fun out' handled' pre part => ?_, fun bottom => ?_⟩, ⟨log, plain⟩, reached', ?_, after⟩
  · rw [handled] at handled'
    cases handled'
    have first : (scrolls event).chars = [scrolls event] := by
      unfold Shell.scrolls
      split <;> rfl
    have silent : (scrolls event).text = [] := by
      unfold Shell.scrolls
      split <;> rfl
    rw [List.flatMap_cons, first, echo.printed] at part
    rcases part_scrolls part with rfl | ⟨chars, inner, rfl⟩
    · exact h.screen
    · have printed : (chars.map fun c => Output.kprint [c]).flatMap Output.text = chars := by
        rw [List.flatMap_map]
        exact List.flatMap_singleton' chars
      rw [List.foldl_cons, foldl_kprint, List.flatMap_cons, silent, printed, List.nil_append]
      exact parts chars inner
  · obtain ⟨calls, run⟩ := reached'
    refine ⟨?_, Vga.console_drawn run⟩
    dsimp only
    rw [whole, bottom, Vga.vgaBottomViewportRow_eq]
    refine (Vga.vgaWrite_viewport ?_ _).1 ?_
    · have bounds := reached.bounds
      rw [bottom] at bounds
      exact bounds
    · exact Vga.vgaBottomViewportRow_eq x.vga
  · rw [echo.line]
    intro c member
    rcases List.mem_append.1 member with old | new
    · exact h.nonzero c (List.mem_of_mem_take old)
    · exact nonzero c new

/-- A NUL is stored and not printed. -/
theorem Echo.nul {s s' : State} {out : List Output} (echo : Echo s s' out 0 [] [0]) (v : Vga.State)
    (event : InputEvent) :
    typedLine s' = typedLine s ++ [0] ∧ (scrolls event :: out).foldl print v = print v (scrolls event) := by
  constructor
  · rw [echo.line, Nat.sub_zero, List.take_of_length_le (Nat.le_of_eq (length_typedLine _))]
  · rw [List.foldl_cons, ← foldl_chars, echo.printed]
    rfl

/-- **A NUL** makes the line longer and not the text on the screen. -/
theorem OnPrompt.off (h : OnPrompt x) {s' : State} {out : List Output} (echo : Echo x.shell s' out 0 [] [0]) :
    ¬ Matches ⟨s', (scrolls event :: out).foldl print x.vga⟩ := by
  obtain ⟨line, whole⟩ := echo.nul x.vga event
  intro shown
  rw [Matches, whole, line, ← List.append_assoc] at shown
  have viewed := reads_scrolls h.screen event
  have some' : promptText ++ typedLine x.shell ≠ [] := by simp [promptText, kernelText]
  rw [← List.dropLast_append_getLast some'] at viewed
  have zero := shown.last
  rw [viewed.last] at zero
  have member := List.getLast_mem some'
  rw [zero] at member
  rcases List.mem_append.1 member with prompt | typed
  · exact absurd prompt (by decide)
  · exact h.nonzero 0 typed rfl

/-- **The step lemma.** -/
theorem OnPrompt.step (h : OnPrompt x) (step : lineEditing.Step x event x') :
    (Echoed x event x' ↔ ¬ StoresNul x.shell event) ∧ (¬ StoresNul x.shell event → OnPrompt x') := by
  obtain ⟨newline, out', run, shown⟩ := step
  obtain ⟨log, plain⟩ := h.plain
  obtain ⟨s', out, k, text, stored, handled, plain', echo, kept, nul⟩ := handleEvent_echo plain newline
  rw [handled] at run
  obtain ⟨shell', vga'⟩ := x'
  cases run
  dsimp only at shown
  subst shown
  by_cases stores : StoresNul x.shell event
  · obtain ⟨rfl, rfl, rfl⟩ := nul stores
    exact ⟨iff_of_false (fun echoed => h.off echo echoed.after) (not_not.2 stores), fun other => absurd stores other⟩
  · obtain ⟨rfl, nonzero⟩ := kept stores
    obtain ⟨echoed, next⟩ := h.echoed handled plain' echo nonzero
    exact ⟨iff_of_true echoed stores, fun _ => next⟩

theorem OnPrompt.next (h : OnPrompt x) (newline : ¬ isNewline event) : ∃ x', lineEditing.Step x event x' := by
  obtain ⟨log, plain⟩ := h.plain
  obtain ⟨s', out, k, text, stored, handled, -⟩ := handleEvent_echo plain newline
  exact ⟨⟨s', _⟩, newline, _, handled, rfl⟩

/-- A NUL on an empty line, and a backspace: the line is empty again and the end of the prompt is gone. -/
theorem OnPrompt.nul_erases (h : OnPrompt x) (empty : x.shell.pos = 0) :
    ∃ y z, lineEditing.Step x ⟨.char, 0⟩ y ∧ ¬ Matches y ∧ lineEditing.Step y ⟨.char, 0x08⟩ z ∧
      typedLine z.shell = [] ∧ Vga.Reads z.vga (kernelText ++ [0x3E]) := by
  obtain ⟨log, plain⟩ := h.plain
  obtain ⟨s, out, k, text, stored, handled, plain', echo, -, nul⟩ :=
    handleEvent_echo plain (show ¬ isNewline ⟨.char, 0⟩ by decide)
  obtain ⟨rfl, rfl, rfl⟩ := nul ⟨rfl, rfl, by rw [empty]; decide⟩
  obtain ⟨line, shown⟩ := echo.nul x.vga ⟨.char, 0⟩
  have nothing := typedLine_empty empty
  have one : s.pos = 1 := by
    rw [← length_typedLine, line, nothing]
    rfl
  have erase : handleEvent s ⟨.char, 0x08⟩ = some
      ({ adoptLine s with cmdBuffer := storeByte s.cmdBuffer (s.pos - 1) 0, pos := s.pos - 1 },
        [.scrollToBottom, .kprint [0x08]]) := by
    rw [handleEvent]
    dsimp only
    rw [if_pos (.inl rfl), handleBackspace_eq (by omega) plain'.pos]
    rfl
  have screen : Vga.Reads (print x.vga (scrolls ⟨.char, 0⟩)) (kernelText ++ [0x3E] ++ [0x20]) := by
    have viewed := reads_scrolls h.screen ⟨.char, 0⟩
    rw [nothing] at viewed
    exact viewed
  have reached := h.reached.scrolls ⟨.char, 0⟩
  refine ⟨⟨s, (scrolls ⟨.char, 0⟩ :: out).foldl print x.vga⟩, ⟨_, _⟩, ⟨by decide, _, handled, rfl⟩, h.off echo,
    ⟨by decide, _, erase, rfl⟩, ?_, ?_⟩
  · apply typedLine_empty
    exact Nat.sub_eq_zero_of_le (Nat.le_of_eq one)
  · dsimp only
    rw [shown]
    exact (reads_scrolls screen ⟨.char, 0x08⟩).back (reached.scrolls ⟨.char, 0x08⟩).bounds

theorem onPrompt_run {events : List InputEvent}
    (run : (lineEditing.restrict fun x event => ¬ StoresNul x.shell event).Run events x) : OnPrompt x := by
  refine @Lts.Run.invariant _ _ (lineEditing.restrict fun x event => ¬ StoresNul x.shell event) OnPrompt ?_ ?_ _ _ run
  · exact fun x init => onPrompt_start init
  · exact fun x event x' inv step => (inv.step step.2).2 step.1

end

/-- **The line on the screen is the line in memory**, in every state that events without a stored NUL lead
to. There every event but a newline is handled, and it is echoed exactly when it does not store a NUL. -/
theorem line_on_screen {events : List InputEvent} {x : Screen}
    (run : (lineEditing.restrict fun x event => ¬ StoresNul x.shell event).Run events x) :
    Matches x ∧ ∀ event, ¬ isNewline event → (∃ x', lineEditing.Step x event x') ∧
      ∀ x', lineEditing.Step x event x' → (Echoed x event x' ↔ ¬ StoresNul x.shell event) := by
  have inv := onPrompt_run run
  exact ⟨inv.screen, fun event newline => ⟨inv.next newline, fun x' step => (inv.step step).1⟩⟩

/-- The first prompt after boot. -/
def firstScreen : Screen :=
  ⟨⟨fun _ => 0, fun _ _ => 0, 0, 0, 0, 0, storeByte (literal []) 0 0⟩,
    shellPrintPrompt.foldl print (Vga.vgaInitialize Vga.bss)⟩

theorem lineEditing_firstScreen : lineEditing.Init firstScreen :=
  ⟨⟨[], .start ⟨⟨literal [], rfl⟩, rfl⟩⟩, rfl, rfl, [], _, .start ⟨Vga.bss, (Vga.vgaInitialize_checked Vga.bss).1⟩, rfl⟩

/-- The shell alone, over some events. -/
def edits (s : State) (events : List InputEvent) : Option State :=
  events.foldlM (fun s event => (handleEvent s event).map Prod.fst) s

theorem edits_run {before events : List InputEvent} {x : Screen} {s : State}
    (run : (lineEditing.restrict fun x event => ¬ StoresNul x.shell event).Run before x)
    (typed : ∀ event ∈ events, ¬ isNewline event ∧ (event.type = .char → event.ch ≠ 0))
    (edited : edits x.shell events = some s) :
    ∃ x', (lineEditing.restrict fun x event => ¬ StoresNul x.shell event).Run (before ++ events) x' ∧ x'.shell = s := by
  induction events generalizing x before with
  | nil =>
    cases edited
    exact ⟨x, by rwa [List.append_nil], rfl⟩
  | cons event events ih =>
    obtain ⟨newline, char⟩ := typed event List.mem_cons_self
    rw [edits, List.foldlM_cons] at edited
    obtain ⟨s₁, first, rest⟩ := Option.bind_eq_some_iff.1 edited
    obtain ⟨⟨s', out⟩, handled, rfl⟩ := Option.map_eq_some_iff.1 first
    have step : lineEditing.Step x event ⟨s', out.foldl print x.vga⟩ := ⟨newline, out, handled, rfl⟩
    have next := run.snoc (a := event) ⟨fun stores => char stores.1 stores.2.1, step⟩
    obtain ⟨x', run', shell⟩ := ih next (fun e member => typed e (List.mem_cons_of_mem _ member)) rest
    refine ⟨x', ?_, shell⟩
    rwa [List.append_assoc, List.singleton_append] at run'

/-- The second prompt, after `a` and a newline at the first. -/
def secondPrompt : Option (State × Bool) :=
  (shellStep firstScreen.shell ⟨.char, 0x61⟩ (literal [])).bind fun x => shellStep x.1 ⟨.char, 0x0A⟩ (literal [])

/-- `b`, UP, which recalls the `a`, a backspace and `c`. -/
def recallEvents : List InputEvent := [⟨.char, 0x62⟩, ⟨.up, 0⟩, ⟨.char, 0x08⟩, ⟨.char, 0x63⟩]

theorem line_on_screen_recall : ∃ x,
    (lineEditing.restrict fun x event => ¬ StoresNul x.shell event).Run recallEvents x ∧
      typedLine x.shell = [0x63] ∧ Matches x := by
  have played : secondPrompt.map (fun x => (x.2, x.1.pos, x.1.historyPosition == x.1.historyCount,
      (edits x.1 recallEvents).map typedLine)) = some (true, 0, true, some [0x63]) := by decide +kernel
  obtain ⟨⟨s, go⟩, second, eq⟩ := Option.map_eq_some_iff.1 played
  obtain ⟨⟨s₁, go₁⟩, first, second⟩ := Option.bind_eq_some_iff.1 second
  simp only [Prod.mk.injEq, beq_iff_eq] at eq
  obtain ⟨rfl, pos, position, edited⟩ := eq
  obtain ⟨s', edited, line⟩ := Option.map_eq_some_iff.1 edited
  have booted : shellSystem.Run [] (firstScreen.shell, true) := .start ⟨⟨literal [], rfl⟩, rfl⟩
  have typed := booted.snoc (show shellSystem.Step _ (⟨.char, 0x61⟩, literal []) (s₁, go₁) from ⟨rfl, first⟩)
  have on : go₁ = true := by
    rw [shellStep, if_neg (by decide)] at first
    obtain ⟨r, -, eq⟩ := Option.map_eq_some_iff.1 first
    exact (Prod.mk.inj eq).2.symm
  have submitted := typed.snoc (show shellSystem.Step _ (⟨.char, 0x0A⟩, literal []) (s, true) from ⟨on, second⟩)
  obtain ⟨calls, console⟩ := (onPrompt_start lineEditing_firstScreen).reached.write [0x61, 0x0A]
  have start : lineEditing.Init ⟨s, shellPrintPrompt.foldl print (Vga.vgaWrite firstScreen.vga [0x61, 0x0A])⟩ :=
    ⟨⟨_, submitted⟩, pos, position, calls, _, console, rfl⟩
  obtain ⟨x, run, shell⟩ := edits_run (.start start) (by decide) edited
  exact ⟨x, run, shell ▸ line, (line_on_screen run).1⟩

/-- A NUL at the first prompt, and a backspace: the line is empty again and the end of the prompt is erased. -/
theorem nul_off_screen : ∃ x y, lineEditing.Run [⟨.char, 0⟩] x ∧ ¬ Matches x ∧
    lineEditing.Run [⟨.char, 0⟩, ⟨.char, 0x08⟩] y ∧ typedLine y.shell = [] ∧
      Vga.Reads y.vga (kernelText ++ [0x3E]) := by
  obtain ⟨x, y, nul, off, back, line, erased⟩ := (onPrompt_start lineEditing_firstScreen).nul_erases rfl
  have first : lineEditing.Run [⟨.char, 0⟩] x := (Lts.Run.start lineEditing_firstScreen).snoc nul
  exact ⟨x, y, first, off, first.snoc back, line, erased⟩

end SimpleKernel.Shell
