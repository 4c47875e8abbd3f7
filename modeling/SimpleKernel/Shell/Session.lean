import SimpleKernel.Shell.Answers
import SimpleKernel.Shell.Screen

/-!
# `shell_run` with its commands

`Shell.State` with the kernel that the commands work on. A newline answers the words of the line
(`submitFull_spec`), and what the line leaves in `cmd_buffer` is its first word with the spaces
before it (`residue`).
-/

namespace SimpleKernel.Shell
set_option autoImplicit false
open Lib Kstring Input Console

/-- Where `shell_run` is: at the next event, past its end, or in a command that does not return. -/
inductive Phase where
  | reading
  | exited
  | stopped
  deriving DecidableEq

structure ShellRun where
  shell : State
  kernel : Kernel
  phase : Phase

/-- An event with what a command meets if it ends the line, and what the stack holds under the next
prompt's `current_line`. -/
structure Key where
  event : InputEvent
  around : Surroundings
  fresh : Mem

def shellInit : List Request := [.clear, .kprintRainbow (asciiText "Welcome to the kernel shell!\n"),
  say "Type 'help' for available commands.\n\n"]

def prompt : List Request := shellPrintPrompt.map Output.request

def exitMessage : Request := .kprintColored (asciiText "Exiting shell.\n") Vga.vgaColorYellow Vga.vgaColorBlack

/-- From the newline on. -/
def submitFull (s : State) (k : Kernel) (a : Key) : Option (ShellRun × List Request) := do
  let s ← terminateLine s
  let s ← historyAdd s s.cmdBuffer
  let (m, cmd, args) ← shellParseCommand cmdBufferSize s.cmdBuffer 0
  let s := { s with cmdBuffer := m }
  let done ← executeCommandFull a.around k m cmd args
  match done.kernel with
  | none => some (⟨s, k, .stopped⟩, done.out)
  | some k =>
    if done.exits then some (⟨s, k, .exited⟩, done.out ++ [exitMessage])
    else do
      let s ← newPrompt s a.fresh
      some (⟨s, k, .reading⟩, done.out ++ prompt)

/-- What `shell_run` does for one event, and what it asks of the console. -/
def shellRunStep (x : ShellRun) (a : Key) : Option (ShellRun × List Request) :=
  if isNewline a.event then (submitFull x.shell x.kernel a).map fun r => (r.1, .scrollToBottom :: say "\n" :: r.2)
  else (handleEvent x.shell a.event).map fun r => ({ x with shell := r.1 }, r.2.map Output.request)

/-- `shell_run` on a kernel, event by event, from the first prompt on; before it `shell_init` and
`prompt` are printed. A label is a key with what is asked of the console for it. -/
def shellRun (k : Kernel) : Lts ShellRun (Key × List Request) where
  Init x := (∃ fresh, boot fresh = some x.shell) ∧ x.kernel = k ∧ x.phase = .reading
  Step x a x' := x.phase = .reading ∧ shellRunStep x a.1 = some (x', a.2)

/-- What has been asked of the console. -/
def printed (as : List (Key × List Request)) : List Request := shellInit ++ prompt ++ as.flatMap Prod.snd

def Executed.phase (done : Executed) : Phase :=
  if done.kernel = none then .stopped else if done.exits then .exited else .reading

/-- What follows a command. -/
def Phase.ending : Phase → List Request
  | .reading => prompt
  | .exited => [exitMessage]
  | .stopped => []

/-- What `cmd_buffer` holds after a line: the spaces before its first word, and the word. -/
def residue (line : Line) : Line := line.takeWhile (· == 0x20) ++ command line

/-- At a new prompt. -/
def State.prompted (s : State) (fresh : Mem) : State :=
  { s with pos := 0, historyPosition := s.historyCount, currentLine := storeByte fresh 0 0 }

section

variable {s : State} {k : Kernel} {a : Key} {log : List Line} {line t : Line} {m m' : Mem} {size fuel i j cmd : Nat}
  {args : List Nat} {test : BitVec 8 → Bool}

/-! ## What the parser leaves -/

/-- Where a scan stops. -/
theorem scan_stop (run : scan size m test fuel i = some j) :
    i ≤ j ∧ (∀ x, i ≤ x → x < j → test (m x) = true) ∧ test (m j) = false ∧ j < size := by
  induction fuel generalizing i with
  | zero => cases run
  | succ fuel ih =>
    rw [scan] at run
    obtain ⟨c, load, run⟩ := Option.bind_eq_some_iff.1 run
    unfold loadIn at load
    split at load
    · rename_i inside
      cases load
      split at run
      · rename_i passed
        obtain ⟨le, all, stop, last⟩ := ih run
        refine ⟨by omega, fun x lo hi => ?_, stop, last⟩
        rcases Nat.eq_or_lt_of_le lo with here | later
        · exact here ▸ passed
        · exact all x later hi
      · rename_i stop
        cases run
        exact ⟨Nat.le_refl _, fun x lo hi => absurd hi (Nat.not_lt.2 lo), Bool.not_eq_true _ ▸ stop, inside⟩
    · cases load

/-- The word is cut at its end, not before. -/
theorem cutToken_before {stop next : Nat} (run : cutToken size m stop = some (m', next)) (before : i < stop) :
    m' i = m i := by
  unfold cutToken at run
  obtain ⟨c, -, run⟩ := Option.bind_eq_some_iff.1 run
  split at run
  · obtain ⟨stored, store, eq⟩ := Option.bind_eq_some_iff.1 run
    cases eq
    unfold storeIn at store
    split at store
    · cases store
      exact storeByte_out (by omega)
    · cases store
  · cases run
    rfl

/-- `shell_parse_command` leaves the spaces before the command word. -/
theorem shellParseCommand_before (str : StrAt m 0 line) (short : line.length < cmdBufferSize)
    (run : shellParseCommand cmdBufferSize m 0 = some (m', cmd, args)) :
    skipSpaces cmdBufferSize m 0 = some cmd ∧ ∀ i < cmd, m' i = m i := by
  have inside : 0 + line.length < cmdBufferSize := by omega
  obtain ⟨start, stop, m₁, next, tok, rest, skipped, read, cut, -, upper, order, -, -, str', -⟩ := next_piece str inside
  obtain ⟨m₂, starts, loop, cuts, -⟩ := @argLoop_spec _ _ cmdBufferSize _ (maxArgs + 1) [] str'
    (by omega) (Nat.zero_le _) (by rw [List.length_nil]; omega)
  simp only [shellParseCommand, skipped, read, cut, loop, Option.bind_eq_bind, Option.bind_some] at run
  cases run
  refine ⟨skipped, fun i before => ?_⟩
  have later := (scan_stop read).1
  rcases cuts i with same | inside
  · exact same.trans (cutToken_before cut (by omega))
  · omega

theorem takeWhile_spaces (str : StrAt m 0 t) (skipped : skipSpaces cmdBufferSize m 0 = some cmd) :
    t.takeWhile (· == 0x20) = List.replicate cmd 0x20 := by
  obtain ⟨-, spaces, stop, -⟩ := scan_stop skipped
  have bytes : ∀ i (_ : i < t.length), m i = t[i] := fun i hi => by rw [← str.bytes i hi, Nat.zero_add]
  have inside : cmd ≤ t.length := by
    by_contra beyond
    have nul := str.nul
    rw [Nat.zero_add] at nul
    have space := spaces t.length (Nat.zero_le _) (by omega)
    rw [nul] at space
    cases space
  have taken : t.take cmd = List.replicate cmd 0x20 := by
    refine List.eq_replicate_iff.2 ⟨by rw [List.length_take]; omega, fun c member => ?_⟩
    obtain ⟨i, hi, rfl⟩ := List.getElem_of_mem member
    rw [List.length_take] at hi
    have space := spaces i (Nat.zero_le _) (by omega)
    rw [List.getElem_take, ← bytes i (by omega)]
    exact eq_of_beq space
  have rest : (t.drop cmd).takeWhile (· == 0x20) = [] := by
    cases behind : t.drop cmd with
    | nil => rfl
    | cons c rest =>
      have more : cmd < t.length := by
        by_contra done
        rw [List.drop_of_length_le (by omega)] at behind
        cases behind
      have first : c = t[cmd] := by
        rw [List.drop_eq_getElem_cons more] at behind
        exact (List.cons.inj behind).1.symm
      have here : (c == 0x20) = false := by
        rw [first, ← bytes cmd more]
        exact stop
      rw [List.takeWhile_cons, here]
      rfl
  rw [← List.take_append_drop cmd t, List.takeWhile_append_of_pos, rest, taken, List.append_nil]
  rw [taken]
  intro c member
  rw [List.eq_of_mem_replicate member]
  rfl

theorem residue_holds (str : StrAt m 0 line) (short : line.length < cmdBufferSize)
    (run : shellParseCommand cmdBufferSize m 0 = some (m', cmd, args)) (word : StrAt m' cmd (command line)) :
    StrAt m' 0 (residue line) := by
  obtain ⟨skipped, same⟩ := shellParseCommand_before str short run
  obtain ⟨-, spaces, -⟩ := scan_stop skipped
  rw [residue, takeWhile_spaces str skipped]
  refine strAt_append.2 ⟨fun i hi => ?_, fun c member => ?_, ?_⟩
  · rw [List.length_replicate] at hi
    rw [Nat.zero_add, List.getElem_replicate, same i hi]
    exact eq_of_beq (spaces i (Nat.zero_le _) hi)
  · rw [List.eq_of_mem_replicate member]
    decide
  · rw [List.length_replicate, Nat.zero_add]
    exact word

/-! ## A line -/

/-- **The end of a line**: the history takes the line, `cmd_buffer` keeps its residue, and the words are answered. -/
theorem submitFull_spec (holds : HoldsLog s log) (pos : s.pos ≤ 255)
    (str : StrAt (storeByte s.cmdBuffer s.pos 0) 0 line) (short : line.length ≤ 255) (k : Kernel) (a : Key) :
    ∃ s', HoldsLog s' (record log line) ∧ StrAt s'.cmdBuffer 0 (residue line) ∧
      Cuts (storeByte s.cmdBuffer s.pos 0) s'.cmdBuffer 0 line.length ∧
      submitFull s k a = (answer a.around k ((tokens line).take 17)).map fun done =>
        (⟨if done.phase = .reading then s'.prompted a.fresh else s', done.kernel.getD k, done.phase⟩,
          done.out ++ done.phase.ending) := by
  have ended : HoldsLog { s with cmdBuffer := storeByte s.cmdBuffer s.pos 0 } log := holds.congr rfl rfl rfl
  obtain ⟨history, head, count, add, held⟩ := historyAdd_spec ended str short
  have inside : line.length < cmdBufferSize := by
    rw [cmdBufferSize_eq]
    omega
  obtain ⟨m', cmd, args, parse, cuts, word, -⟩ := @shellParseCommand_spec _ 0 cmdBufferSize _ str (by omega)
  rw [Nat.zero_add] at cuts
  have answered := execute_line str inside parse
  have store : storeIn cmdBufferSize a.fresh 0 0 = some (storeByte a.fresh 0 0) := storeIn_of_lt (by decide)
  refine ⟨⟨m', history, head, count, s.pos, s.historyPosition, s.currentLine⟩, held.congr rfl rfl rfl,
    residue_holds str inside parse word, cuts, ?_⟩
  simp only [submitFull, terminateLine_spec pos, add, parse, answered, Option.bind_eq_bind, Option.bind_some]
  rw [Option.map_eq_bind]
  refine congrArg _ (funext fun done => ?_)
  obtain ⟨out, kernel, exits⟩ := done
  cases kernel with
  | none => exact congrArg (fun out => some (_, out)) (List.append_nil out).symm
  | some k' =>
    cases exits with
    | true => rfl
    | false =>
      simp only [newPrompt, store, Option.bind_eq_bind, Option.bind_some]
      rfl

end

end SimpleKernel.Shell
