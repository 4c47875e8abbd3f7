import SimpleKernel.Shell.Editor
import SimpleKernel.Shell.Session

/-!
# A reference terminal

The editor with the text in its buffer (`Typing`), and the answers to the words of the lines. Under no
condition but that no NUL is typed, `shell_run` is this terminal, event by event: in what is typed, in
what is executed and in what is printed (`shell_is_terminal`).
-/

namespace SimpleKernel.Shell
set_option autoImplicit false
open Lib Kstring Input Console

def Typing.submit (t : Typing) : Typing := ⟨.prompt (record t.log t.line), residue t.line⟩

structure Terminal where
  typing : Typing
  kernel : Kernel
  phase : Phase

/-- The view moves as the event says, and the screen goes from one line to the other: characters
taken back from the end, and a text behind what is left. -/
def Redraws (line line' : Line) (event : InputEvent) (out : List Request) : Prop :=
  ∃ k text rest, k ≤ line.length ∧ line' = line.take (line.length - k) ++ text ∧ out = (scrolls event).request :: rest ∧
    Plainly rest (List.replicate k 0x08 ++ text)

/-- The terminal at its first prompt. -/
def Terminal.start (k : Kernel) : Terminal := ⟨⟨.prompt [], []⟩, k, .reading⟩

/-- After the answer to its line. -/
def Terminal.answered (y : Terminal) (done : Executed) : Terminal :=
  ⟨y.typing.submit, done.kernel.getD y.kernel, done.phase⟩

/-- **What the shell is for.** A newline answers the words of the line; another event edits it and shows the edit. -/
def terminal (k : Kernel) : Lts Terminal (Key × List Request) where
  Init y := y = .start k
  Step y a y' := y.phase = .reading ∧
    if isNewline a.1.event then
      ∃ done, answer a.1.around y.kernel ((tokens y.typing.line).take 17) = some done ∧
        y' = y.answered done ∧ a.2 = .scrollToBottom :: say "\n" :: (done.out ++ done.phase.ending)
    else y' = { y with typing := y.typing.edit a.1.event } ∧ Redraws y.typing.line y'.typing.line a.1.event a.2

section

variable {s s' : State} {t : Typing} {log : List Line}

theorem Carries.typedLine_eq (h : Carries s t) : typedLine s = t.line := by
  rw [typedLine, h.length]
  refine List.ext_getElem (by simp) fun i hi hi' => ?_
  rw [List.getElem_map, List.getElem_range]
  exact h.bytes i hi'

/-- Editing leaves the history. -/
theorem edit_log (t : Typing) (event : InputEvent) : (t.edit event).log = t.log := by
  obtain ⟨type, c⟩ := event
  cases type with
  | left => rfl
  | right => rfl
  | up =>
    show t.up.log = t.log
    unfold Typing.up
    split <;> rfl
  | down =>
    show t.down.log = t.log
    unfold Typing.down
    split <;> rfl
  | char =>
    show (if c = 0x08 ∨ c = 0x7F then t.erase else t.insert c).log = t.log
    unfold Typing.erase Typing.insert
    split_ifs <;> rfl

/-- What is printed character by character is printed plainly. -/
theorem plainly_chars {out : List Output} {text : Line}
    (chars : out.flatMap Output.chars = text.map fun c => .kprint [c]) :
    Plainly (out.map Output.request) text := by
  induction out generalizing text with
  | nil =>
    have none : text = [] := List.map_eq_nil_iff.1 chars.symm
    rw [none]
    exact plainly_nil
  | cons o out ih =>
    rw [List.flatMap_cons] at chars
    cases o with
    | kprint u =>
      obtain ⟨first, rest, rfl, left, right⟩ := List.map_eq_append_iff.1 chars.symm
      have same : first = u := List.map_injective_iff.2 (fun c d eq => by cases eq; rfl) left
      rw [List.map_cons, same]
      exact (plainly_kprint u).append (ih right.symm)
    | kprintColored u fg bg =>
      obtain ⟨c, rest, -, head, -⟩ := List.map_eq_cons_iff.1 chars.symm
      cases head
    | scrollView delta =>
      obtain ⟨c, rest, -, head, -⟩ := List.map_eq_cons_iff.1 chars.symm
      cases head
    | scrollToBottom =>
      obtain ⟨c, rest, -, head, -⟩ := List.map_eq_cons_iff.1 chars.symm
      cases head

/-- The parser stores no newline and no backspace. -/
theorem Cuts.plain {m m' : Mem} {line : Line} (cuts : Cuts m m' 0 line.length) (str : StrAt m 0 line)
    (plain : Plain line) : ∀ d, StrAt m' 0 d → Plain d := by
  have nul := str.nul
  rw [Nat.zero_add] at nul
  intro d strD
  refine plain_string strD (cuts.nul nul) fun c member => ?_
  obtain ⟨i, hi, rfl⟩ := List.mem_map.1 member
  have inside := List.mem_range.1 hi
  rcases cuts i with same | ⟨-, -, -, cut⟩
  · rw [same, ← Nat.zero_add i, str.bytes i inside]
    exact plain _ (List.getElem_mem inside)
  · rw [cut]
    decide

/-! ## Side by side -/

/-- The shell and the terminal agree while the shell reads. -/
structure Tells (x : ShellRun) (y : Terminal) : Prop where
  kernel : y.kernel = x.kernel
  phase : y.phase = x.phase
  carries : x.phase = .reading → Carries x.shell y.typing
  plain : x.phase = .reading → PlainLines x.shell y.typing.log

/-- An event that edits. -/
theorem Carries.edited (h : Carries s t) (plain : PlainLines s t.log) {event : InputEvent} (typed : NoNul event)
    (newline : ¬ isNewline event) : ∃ s' out, handleEvent s event = some (s', out) ∧ Carries s' (t.edit event) ∧
      PlainLines s' (t.edit event).log ∧ Redraws t.line (t.edit event).line event (out.map Output.request) := by
  obtain ⟨s', out, run, carries⟩ := h.edit typed
  obtain ⟨s₁, rest, k, text, stored, run', plain', echo, same, -⟩ := handleEvent_echo plain newline
  cases Option.some.inj (run.symm.trans run')
  have noNul : ¬ StoresNul s event := fun stores => typed stores.1 stores.2.1
  have line := echo.line
  rw [h.typedLine_eq, carries.typedLine_eq, (same noNul).1, h.length] at line
  refine ⟨s', _, run, carries, (edit_log t event).symm ▸ plain', k, text, rest.map Output.request, ?_, line, rfl,
    plainly_chars echo.printed⟩
  exact h.length ▸ echo.back

/-- At the prompt after a line. -/
theorem Carries.prompted (h : Carries s t) (plain : PlainLines s t.log) (holds : HoldsLog s' (record t.log t.line))
    (held : StrAt s'.cmdBuffer 0 (residue t.line))
    (cuts : Cuts (storeByte s.cmdBuffer s.pos 0) s'.cmdBuffer 0 t.line.length)
    (fresh : Mem) : Carries (s'.prompted fresh) t.submit ∧ PlainLines (s'.prompted fresh) t.submit.log := by
  have typed : Plain t.line := h.typedLine_eq ▸ plain.typed
  have short : t.line.length ≤ 255 := h.length ▸ h.sound.pos
  have nul := h.terminated.nul
  rw [Nat.zero_add] at nul
  have first : (s'.prompted fresh).currentLine 0 = 0 := storeByte_self fresh 0 0
  have sound : Sound (s'.prompted fresh) (record t.log t.line) :=
    ⟨holds.congr rfl rfl rfl, Nat.zero_le _, Nat.le_refl _, terminated_of_nul (cuts.nul nul) short,
      terminated_of_nul first (Nat.zero_le _)⟩
  refine ⟨⟨sound, rfl, holds.count, held, fun some => absurd rfl some,
    fun below => absurd below (Nat.lt_irrefl _)⟩, sound,
    plain_record t.log plain.lines typed, ?_, cuts.plain h.terminated typed, fun d str => ?_⟩
  · rw [typedLine_empty rfl]
    exact plain_nil
  · rw [str.unique (strAt_nil.2 first)]
    exact plain_nil

/-- A newline is answered, or the answer does not end and neither does the shell's. -/
theorem Tells.newline {x : ShellRun} {y : Terminal} (h : Tells x y) (reading : x.phase = .reading) {a : Key}
    (newline : isNewline a.event) {r : Option Executed}
    (answered : answer a.around x.kernel ((tokens y.typing.line).take 17) = r) :
    (r = none → shellRunStep x a = none) ∧ ∀ done, r = some done → ∃ x',
      shellRunStep x a = some (x', .scrollToBottom :: say "\n" :: (done.out ++ done.phase.ending)) ∧
      Tells x' (y.answered done) := by
  have carries := h.carries reading
  obtain ⟨s', holds, held, cuts, run⟩ := submitFull_spec carries.sound.log carries.sound.pos carries.terminated
    (carries.length ▸ carries.sound.pos) x.kernel a
  rw [shellRunStep, if_pos newline, run, answered]
  refine ⟨fun none => by rw [none]; rfl, fun done some => ?_⟩
  subst some
  obtain ⟨carries', plain'⟩ := carries.prompted (h.plain reading) holds held cuts a.fresh
  refine ⟨_, rfl, by rw [Terminal.answered, h.kernel], rfl, fun next => ?_, fun next => ?_⟩
  · dsimp only at next ⊢
    rw [if_pos next]
    exact carries'
  · dsimp only at next ⊢
    rw [if_pos next]
    exact plain'

/-- **The step lemma**: what the shell does for a key, if it does anything. -/
theorem Tells.next {x : ShellRun} {y : Terminal} (h : Tells x y) (reading : x.phase = .reading) {a : Key}
    (typed : NoNul a.event) :
    (∀ x' out, shellRunStep x a = some (x', out) → ∃ y', (terminal x.kernel).Step y (a, out) y' ∧ Tells x' y') ∧
      (shellRunStep x a = none ↔
        isNewline a.event ∧ answer a.around x.kernel ((tokens y.typing.line).take 17) = none) := by
  have awake : y.phase = .reading := h.phase.trans reading
  by_cases newline : isNewline a.event
  · cases answered : answer a.around x.kernel ((tokens y.typing.line).take 17) with
    | none =>
      rw [(h.newline reading newline answered).1 rfl]
      exact ⟨nofun, iff_of_true rfl ⟨newline, rfl⟩⟩
    | some done =>
      obtain ⟨x₁, goes, tells⟩ := (h.newline reading newline answered).2 done rfl
      rw [goes]
      refine ⟨fun x' out step => ?_, iff_of_false nofun (fun both => nomatch both.2)⟩
      cases step
      refine ⟨y.answered done, ⟨awake, ?_⟩, tells⟩
      rw [if_pos newline]
      exact ⟨done, h.kernel.symm ▸ answered, rfl, rfl⟩
  · obtain ⟨s', out, run, carries', plain', redraws⟩ := (h.carries reading).edited (h.plain reading) typed newline
    rw [shellRunStep, if_neg newline, run]
    refine ⟨fun x' printed step => ?_, iff_of_false nofun fun both => newline both.1⟩
    cases step
    refine ⟨{ y with typing := y.typing.edit a.event }, ⟨awake, ?_⟩, h.kernel, h.phase, fun _ => carries',
      fun _ => plain'⟩
    rw [if_neg newline]
    exact ⟨rfl, redraws⟩

theorem tells_start {k : Kernel} {x : ShellRun} (init : (shellRun k).Init x) : Tells x (.start k) := by
  obtain ⟨⟨fresh, booted⟩, kernel, phase⟩ := init
  have sound := boot_sound booted
  have store : storeIn cmdBufferSize fresh 0 0 = some (storeByte fresh 0 0) := storeIn_of_lt (by decide)
  simp only [boot, newPrompt, store, Option.bind_eq_bind, Option.bind_some, Option.some.injEq] at booted
  have first : storeByte fresh 0 0 0 = 0 := storeByte_self _ _ _
  rw [← booted] at sound
  refine ⟨kernel.symm, phase.symm, fun _ => ?_, fun _ => ?_⟩
  · rw [← booted]
    exact ⟨sound, rfl, rfl, strAt_nil.2 rfl, fun some => absurd rfl some, fun below => absurd below (Nat.lt_irrefl _)⟩
  · rw [← booted]
    refine ⟨sound, fun line member => absurd member List.not_mem_nil, plain_nil, fun d str => ?_, fun d str => ?_⟩
    · rw [str.unique (strAt_nil.2 rfl)]
      exact plain_nil
    · rw [str.unique (strAt_nil.2 first)]
      exact plain_nil

theorem tells_run {k : Kernel} {as : List (Key × List Request)} {x : ShellRun}
    (run : ((shellRun k).restrict fun _ a => NoNul a.1.event).Run as x) : ∃ y, (terminal k).Run as y ∧ Tells x y := by
  refine Lts.Run.simulated (S := (shellRun k).restrict fun _ a => NoNul a.1.event) (T := terminal k) (R := Tells)
    (fun x init => ⟨.start k, rfl, tells_start init⟩) (fun x a x' y tells step => ?_) run
  obtain ⟨typed, reading, next⟩ := step
  exact (tells.next reading typed).1 x' a.2 next

end

/-- **The shell is the terminal.** Every run of `shell_run` in which no NUL is typed is a run of the
terminal with the same keys and the same requests to the console: the same lines edited, the same
words answered, the same kernel after them. While the shell reads, the line of the terminal is what
stands in `cmd_buffer`, and the shell goes on with any key, except that the command of a line may
leave mapped memory or wait for ever, as the answer to the same words does. -/
theorem shell_is_terminal (k : Kernel) {as : List (Key × List Request)} {x : ShellRun}
    (run : ((shellRun k).restrict fun _ a => NoNul a.1.event).Run as x) :
    ∃ y, (terminal k).Run as y ∧ y.kernel = x.kernel ∧ y.phase = x.phase ∧
      (x.phase = .reading → typedLine x.shell = y.typing.line ∧ ∀ a, NoNul a.event →
        ((∃ out x', (shellRun k).Step x (a, out) x') ↔
          (isNewline a.event → ∃ done, answer a.around x.kernel ((tokens y.typing.line).take 17) = some done))) := by
  obtain ⟨y, ran, tells⟩ := tells_run run
  refine ⟨y, ran, tells.kernel, tells.phase, fun reading => ⟨(tells.carries reading).typedLine_eq, fun a typed => ?_⟩⟩
  have stuck := (tells.next reading typed).2
  constructor
  · intro steps newline
    obtain ⟨out, x', -, step⟩ := steps
    refine Option.ne_none_iff_exists'.1 fun none => ?_
    cases (stuck.2 ⟨newline, none⟩).symm.trans step
  · intro goes
    obtain ⟨r, step⟩ : ∃ r, shellRunStep x a = some r := by
      refine Option.ne_none_iff_exists'.1 fun none => ?_
      obtain ⟨newline, none'⟩ := stuck.1 none
      obtain ⟨done, answered⟩ := goes newline
      cases none'.symm.trans answered
    exact ⟨r.2, r.1, reading, step⟩

/-- A kernel with nothing in memory. -/
def emptyKernel : Kernel := ⟨⟨fun _ => 0, 0, 0, 0, ⟨fun _ => 0, 0, 0⟩⟩, 0, fun _ => ⟨0, 0, 0, 0, 0, 0, 0, 0, 0⟩⟩

/-- What a command meets on a machine without devices. -/
def noDevices : Surroundings where
  buffer _ := 0
  tmp _ := 0
  now := ⟨0, 0, 0, 0, 0, 0⟩
  timerTicks := 0
  ticks _ := 0
  cmos _ _ := 0
  clock := 0
  space _ _ _ _ := 0
  ports := ⟨0⟩
  cpuid _ _ := ⟨0, 0, 0, 0⟩
  fuel := 0

instance (event : InputEvent) : Decidable (NoNul event) := inferInstanceAs (Decidable (_ → _))

def charKey (c : BitVec 8) : Key := ⟨⟨.char, c⟩, noDevices, literal []⟩

/-- The keys of a line. -/
theorem typing_run {k : Kernel} {as : List (Key × List Request)} {keys : List Key} {x : ShellRun} {s : State}
    (run : ((shellRun k).restrict fun _ a => NoNul a.1.event).Run as x) (reading : x.phase = .reading)
    (typed : ∀ a ∈ keys, ¬ isNewline a.event ∧ NoNul a.event) (edited : edits x.shell (keys.map Key.event) = some s) :
    ∃ outs, ((shellRun k).restrict fun _ a => NoNul a.1.event).Run (as ++ keys.zip outs) { x with shell := s } ∧
      outs.length = keys.length := by
  induction keys generalizing x as with
  | nil =>
    cases edited
    exact ⟨[], by rwa [List.zip_nil_left, List.append_nil], rfl⟩
  | cons a keys ih =>
    obtain ⟨newline, noNul⟩ := typed a List.mem_cons_self
    rw [edits, List.map_cons, List.foldlM_cons] at edited
    obtain ⟨s₁, first, rest⟩ := Option.bind_eq_some_iff.1 edited
    obtain ⟨⟨s', out⟩, handled, rfl⟩ := Option.map_eq_some_iff.1 first
    have step : shellRunStep x a = some ({ x with shell := s' }, out.map Output.request) := by
      rw [shellRunStep, if_neg newline, handled]
      rfl
    have next := run.snoc (a := (a, out.map Output.request)) ⟨noNul, reading, step⟩
    obtain ⟨outs, run', length⟩ := ih next reading (fun b member => typed b (List.mem_cons_of_mem _ member)) rest
    refine ⟨out.map Output.request :: outs, ?_, congrArg (· + 1) length⟩
    rwa [List.append_assoc, List.singleton_append] at run'

/-- `echo hi` and RETURN, at the first prompt. -/
theorem shell_is_terminal_echo : ∃ outs x y,
    (shellRun emptyKernel).Run (((asciiText "echo hi").map charKey).zip outs ++ [(charKey 0x0A,
      .scrollToBottom :: say "\n" :: ([.kprint (asciiText "hi"), say "\n"] ++ prompt))]) x ∧
    (terminal emptyKernel).Run (((asciiText "echo hi").map charKey).zip outs ++ [(charKey 0x0A,
      .scrollToBottom :: say "\n" :: ([.kprint (asciiText "hi"), say "\n"] ++ prompt))]) y ∧
    outs.length = 7 ∧ y.phase = x.phase ∧ x.phase = .reading := by
  have start : ((shellRun emptyKernel).restrict fun _ a => NoNul a.1.event).Run []
      ⟨firstPrompt.shell, emptyKernel, .reading⟩ := .start ⟨⟨literal [], rfl⟩, rfl, rfl⟩
  have played : (edits firstPrompt.shell (((asciiText "echo hi").map charKey).map Key.event)).map typedLine =
      some (asciiText "echo hi") := by decide +kernel
  obtain ⟨s, edited, line⟩ := Option.map_eq_some_iff.1 played
  obtain ⟨outs, run, length⟩ := typing_run start rfl (by decide) edited
  obtain ⟨y, -, tells⟩ := tells_run run
  have words : tokens y.typing.line = [asciiText "echo", asciiText "hi"] := by
    rw [← (tells.carries rfl).typedLine_eq, line]
    decide
  have answered : answer noDevices emptyKernel ((tokens y.typing.line).take 17) =
      some ⟨[.kprint (asciiText "hi"), say "\n"], some emptyKernel, false⟩ := by
    rw [words]
    exact @answer_named _ _ _ (asciiText "echo", echoWords) (by simp [answers])
  obtain ⟨x, step, after⟩ := (tells.newline (a := charKey 0x0A) rfl ⟨rfl, rfl⟩ answered).2 _ rfl
  have run' := run.snoc (a := (charKey 0x0A, _)) ⟨fun _ => by decide, rfl, step⟩
  obtain ⟨y', ran, -, phase, -⟩ := shell_is_terminal emptyKernel run'
  exact ⟨outs, x, y', run'.unrestrict, ran, length, phase, after.phase.symm⟩

end SimpleKernel.Shell
