import SimpleKernel.Shell.Commands

/-!
# What the shell answers to a line

`answer` is the shell's reply in words: no pointers, no `cmd_buffer`. The parser and
`execute_command` compute it, whatever stands behind the line in the buffer (`execute_line`).
-/

namespace SimpleKernel.Shell
set_option autoImplicit false
open Lib Kstring Console SystemTimer

/-- The pointers in `args` stand for the words. -/
def Placed (m : Mem) : List Nat → List Line → Prop := List.Forall₂ fun a t => StrAt m a t ∧ a + t.length < cmdBufferSize

/-- A command in words. -/
abbrev WordCommand := Surroundings → Kernel → List Line → Option Outcome

/-- `fn` is the command `w` on pointers. -/
def Says (fn : ShellCommandFn) (w : WordCommand) : Prop :=
  ∀ e k m args words, Placed m args words → fn e k m args = w e k words

/-! ## The commands -/

/-- A command without arguments ignores them. -/
def ignoring (fn : ShellCommandFn) : WordCommand := fun e k _ => fn e k (fun _ => 0) []

/-- The words with a space between each two. -/
def spaced (put : Line → Request) (words : List Line) : List Request :=
  (words.map put).intersperse (put (asciiText " "))

/-- The first word as a number, `default` without one; `none` if it is not a numeral. -/
def numberOf (default : Nat) : List Line → Option Nat
  | [] => some default
  | t :: _ => if t = [] then none else (decimal.read t).map u64

def echoWords : WordCommand := fun _ k words => some (spaced .kprint words ++ [say "\n"], some k)

def colorWords : WordCommand := fun _ k words =>
  match words with
  | [] => some ([say "Usage: color <name>\n"], some k)
  | t :: _ =>
    match colourNames.find? fun x => decide (t = x.1) with
    | none => some ([say "Unknown color\n"], some k)
    | some x => some ([.setcolor (Vga.vgaEntryColor x.2 Vga.vgaColorBlack), say "Color changed!\n"], some k)

def rainbowWords : WordCommand := fun _ k words =>
  if words = [] then some ([.kprintRainbow (asciiText "Rainbow text demo!\n")], some k)
  else some (spaced .kprintRainbow words ++ [.kprintRainbow (asciiText "\n")], some k)

def sleepWords : WordCommand := fun e k words =>
  match numberOf 100 words with
  | none => some ([say "Usage: sleep [ms]\n"], some k)
  | some n => (systemSleepMs e.ticks e.fuel e.timerTicks n).map fun _ =>
      ([say "Sleeping for ", .kprint (decimal.numeral n), say " ms...\n", say "Awake\n"], some k)

/-- `n` bytes taken, filled and given back. -/
def demo (k : Kernel) (n : Nat) : Option Outcome := do
  let (ptr, s) ← Heap.kmalloc k.heap n
  if ptr = 0 then some ([say "Allocation failed\n"], some { k with heap := s })
  else do
    let mem ← kmemsetMapped s.mem ptr 0xA5 n
    let s ← Heap.kfree { s with mem } ptr
    some ((demoOutput n ptr).map Output.request, some { k with heap := s })

def allocdemoWords : WordCommand := fun _ k words =>
  match numberOf 64 words with
  | none => some ([say "Usage: allocdemo [bytes]\n"], some k)
  | some n => demo k n

def answers : List (Line × WordCommand) := [
  (asciiText "help", ignoring cmdHelp), (asciiText "clear", ignoring cmdClear), (asciiText "echo", echoWords),
  (asciiText "color", colorWords), (asciiText "rainbow", rainbowWords), (asciiText "version", ignoring cmdVersion),
  (asciiText "uptime", ignoring cmdUptime), (asciiText "sleep", sleepWords), (asciiText "time", ignoring cmdTime),
  (asciiText "cpuinfo", ignoring cmdCpuinfo), (asciiText "pci", ignoring cmdPci),
  (asciiText "meminfo", ignoring cmdMeminfo), (asciiText "heapinfo", ignoring cmdHeapinfo),
  (asciiText "allocdemo", allocdemoWords), (asciiText "mmap", ignoring cmdMmap),
  (asciiText "panic", ignoring cmdPanic), (asciiText "reboot", ignoring cmdReboot),
  (asciiText "halt", ignoring cmdHalt)]

/-- What a line of words does: nothing, the end of the shell, the command of the first word on the
others, or a complaint. -/
def answer (e : Surroundings) (k : Kernel) : List Line → Option Executed
  | [] => some ⟨[], some k, false⟩
  | word :: words =>
    if word = exitName then some ⟨[], some k, true⟩
    else
      match answers.find? fun x => decide (word = x.1) with
      | some x => (x.2 e k words).map fun r => ⟨r.1, r.2, false⟩
      | none => some ⟨[say "Unknown command: ", .kprint word, say "\n"], some k, false⟩

section

variable {e : Surroundings} {k : Kernel} {m m' : Mem} {a p fin size fuel cmd : Nat} {s t line : Line}
  {args out : List Nat} {words : List Line} {put : Line → Request}

/-! ## Commands with arguments -/

theorem says_ignoring {fn : ShellCommandFn} (ignores : ∀ e k m args, fn e k m args = fn e k (fun _ => 0) []) :
    Says fn (ignoring fn) := fun e k m args _ _ => ignores e k m args

theorem echo_says : Says cmdEcho echoWords := by
  intro e k m args words placed
  rw [cmdEcho, joinArgs_eq placed]
  rfl

theorem colourNames_named : ∀ x ∈ colourNames, ∀ c ∈ x.1, c ≠ 0 := by
  have names : ∀ x ∈ colourNames, 0 ∉ x.1 := by simp [colourNames, asciiText]
  intro x hx c hc zero
  exact names x hx (zero ▸ hc)

theorem color_says : Says cmdColor colorWords := by
  intro e k m args words placed
  cases placed with
  | nil => rfl
  | cons first rest =>
    rw [cmdColor, lookupName_eq first.1 first.2 colourNames_named, colorWords]
    cases colourNames.find? _ with
    | none => rfl
    | some x => rfl

theorem rainbow_says : Says cmdRainbow rainbowWords := by
  intro e k m args words placed
  have joined := @joinArgs_eq m args words .kprintRainbow placed
  cases placed with
  | nil => rfl
  | cons first rest =>
    rw [rainbowWords, if_neg (List.cons_ne_nil _ _), cmdRainbow, joined]
    · rfl
    · exact nofun

/-- `ku64_parse` of the first argument. -/
theorem ku64Parse_word (str : StrAt m a t) (inside : a + t.length < cmdBufferSize) (default : Nat) :
    ku64Parse cmdBufferSize m (some a) (some default) = some (match numberOf default [t] with
      | none => (0, some default)
      | some n => (1, some n)) := by
  rw [ku64Parse_eq str inside, numberOf]
  by_cases empty : t = []
  · rw [if_pos empty, if_pos empty]
  · rw [if_neg empty, if_neg empty]
    cases decimal.read t with
    | none => rfl
    | some n => rfl

theorem sleepDelay_words (placed : Placed m args words) :
    sleepDelay cmdBufferSize m args = some (match numberOf 100 words with
      | none => (0, some 100)
      | some n => (1, some n)) := by
  cases placed with
  | nil => rfl
  | cons first rest => exact ku64Parse_word first.1 first.2 100

theorem demoSize_words (placed : Placed m args words) :
    demoSize cmdBufferSize m args = some (match numberOf 64 words with
      | none => (0, some 64)
      | some n => (1, some n)) := by
  cases placed with
  | nil => rfl
  | cons first rest => exact ku64Parse_word first.1 first.2 64

theorem numberOf_lt {default n : Nat} (small : default < 2 ^ 64) (number : numberOf default words = some n) :
    n < 2 ^ 64 := by
  cases words with
  | nil =>
    cases number
    exact small
  | cons t rest =>
    rw [numberOf] at number
    split at number
    · cases number
    · obtain ⟨value, -, rfl⟩ := Option.map_eq_some_iff.1 number
      exact u64_lt value

theorem sleep_says : Says cmdSleepFn sleepWords := by
  intro e k m args words placed
  have parsed := sleepDelay_words placed
  rw [cmdSleepFn, cmdSleep, parsed, sleepWords]
  cases number : numberOf 100 words with
  | none => rfl
  | some n =>
    have small := numberOf_lt (by decide) number
    simp only [Option.bind_eq_bind, Option.bind_some, one_ne_zero, if_false, Option.getD_some, kprintU64_eq small]
    cases systemSleepMs e.ticks e.fuel e.timerTicks n with
    | none => rfl
    | some awake => rfl

theorem allocdemo_says : Says cmdAllocdemoFn allocdemoWords := by
  intro e k m args words placed
  have parsed := demoSize_words placed
  rw [cmdAllocdemoFn, cmdAllocdemo, parsed, allocdemoWords]
  cases number : numberOf 64 words with
  | none => rfl
  | some n =>
    have small := numberOf_lt (by decide) number
    simp only [Option.bind_eq_bind, Option.bind_some, one_ne_zero, if_false, Option.getD_some, kprintU64_eq small, demo]
    cases Heap.kmalloc k.heap n with
    | none => rfl
    | some r =>
      obtain ⟨ptr, h⟩ := r
      dsimp only [Option.bind_some]
      by_cases null : ptr = 0
      · rw [if_pos null, if_pos null]
        rfl
      · rw [if_neg null, if_neg null]
        by_cases mapped : ptr + n ≤ 2 ^ 30
        · have fill : kmemsetMapped h.mem ptr 0xA5 n = some (kmemset h.mem ptr 0xA5 n) := if_pos mapped
          rw [fill, kprintHex_eq (show ptr < 2 ^ 64 by omega), demoOutput, if_neg null]
          dsimp only [Option.bind_some]
          cases Heap.kfree { h with mem := kmemset h.mem ptr 0xA5 n } ptr with
          | none => rfl
          | some h' => rfl
        · have fill : kmemsetMapped h.mem ptr 0xA5 n = none := if_neg mapped
          rw [fill]
          rfl

/-- **Every command sees words.** -/
theorem commands_say : List.Forall₂ (fun c w => c.1 = w.1 ∧ Says c.2 w.2) commands answers := by
  have plain : ∀ fn ∈ [cmdHelp, cmdClear, cmdVersion, cmdUptime, cmdTime, cmdCpuinfo, cmdPci, cmdMeminfo,
      cmdHeapinfo, cmdMmap, cmdPanic, cmdReboot, cmdHalt], Says fn (ignoring fn) := by
    simp only [List.forall_mem_cons, List.not_mem_nil, false_imp_iff, implies_true, and_true]
    refine ⟨?_, ?_, ?_, ?_, ?_, ?_, ?_, ?_, ?_, ?_, ?_, ?_, ?_⟩ <;> exact says_ignoring fun _ _ _ _ => rfl
  simp only [List.forall_mem_cons, List.not_mem_nil, false_imp_iff, implies_true, and_true] at plain
  simp only [commands, answers, List.forall₂_cons, true_and, List.forall₂_nil_left_iff, plain, echo_says,
    color_says, rainbow_says, sleep_says, allocdemo_says]

/-! ## From the line to the words -/

/-- The argument loop stays on its line. -/
theorem argLoop_inside (str : StrAt m p s) (inside : p + s.length ≤ fin) (fits : fin < size)
    (run : argLoop size fuel m p args = some (m', out)) (before : ∀ a ∈ args, a ≤ fin) : ∀ a ∈ out, a ≤ fin := by
  induction fuel generalizing m p s args with
  | zero => cases run
  | succ fuel ih =>
    have byte : loadIn size m p = some (m p) := loadIn_of_lt (by omega)
    obtain ⟨start, stop, m₁, next, tok, rest, skipped, read, cut, lower, upper, order, -, -, str', -⟩ :=
      next_piece str (show p + s.length < size by omega)
    have startByte : loadIn size m start = some (m start) := loadIn_of_lt (by omega)
    simp only [argLoop, byte, Option.bind_eq_bind, Option.bind_some, skipped, startByte, read, cut] at run
    split at run
    · split at run
      · cases run
        exact before
      · refine ih str' (by omega) run fun a member => ?_
        rcases List.mem_append.1 member with old | new
        · exact before a old
        · rw [List.mem_singleton.1 new]
          omega
    · cases run
      exact before

/-- A string of a line ends with it. -/
theorem strAt_inside (str : StrAt m a t) (start : a ≤ fin) (nul : m fin = 0) : a + t.length ≤ fin := by
  by_contra beyond
  refine str.byte (i := fin - a) (by omega) ?_
  rw [Nat.add_sub_cancel' start]
  exact nul

/-- `shell_parse_command` finds the words. -/
theorem shellParseCommand_words (str : StrAt m 0 s) (short : s.length < cmdBufferSize) :
    ∃ m' cmd args, shellParseCommand cmdBufferSize m 0 = some (m', cmd, args) ∧
      StrAt m' cmd (command s) ∧ cmd + (command s).length < cmdBufferSize ∧
      Placed m' args (((tokens s).drop 1).take maxArgs) := by
  have inside : 0 + s.length < cmdBufferSize := by omega
  obtain ⟨m', cmd, args, run, cuts, word, room, words⟩ := shellParseCommand_spec str inside
  refine ⟨m', cmd, args, run, word, room, ?_⟩
  obtain ⟨start, stop, m₁, next, tok, rest, skipped, read, cut, -, upper, -, -, -, str', -⟩ := next_piece str inside
  simp only [shellParseCommand, skipped, read, cut, Option.bind_eq_bind, Option.bind_some] at run
  obtain ⟨r, loop, eq⟩ := Option.bind_eq_some_iff.1 run
  cases eq
  have start := argLoop_inside str' upper inside loop (by simp)
  have nul := cuts.nul str.nul
  refine List.forall₂_iff_get.2 ⟨words.length_eq, fun i hi hi' => ?_⟩
  have arg := words.get hi hi'
  exact ⟨arg, Nat.lt_of_le_of_lt (strAt_inside arg (start _ (List.get_mem _ _)) nul) inside⟩

/-- The entries of two tables that agree, found by one name. -/
theorem find_forall₂ {α β : Type*} {R : α → β → Prop} {f : α → Bool} {g : β → Bool} {as : List α} {bs : List β}
    (agree : List.Forall₂ R as bs) (same : ∀ a b, R a b → f a = g b) :
    Option.Rel R (as.find? f) (bs.find? g) := by
  induction agree with
  | nil => exact .none
  | @cons a b as bs head rest ih =>
    rw [List.find?_cons, List.find?_cons, same a b head]
    cases g b with
    | false => exact ih
    | true => exact .some head

/-- The first entry of a name, when no two entries share it. -/
theorem find_named {β : Type} {table : List (Line × β)} (apart : (table.map Prod.fst).Nodup) {x : Line × β}
    (member : x ∈ table) : table.find? (fun y => decide (x.1 = y.1)) = some x := by
  induction table with
  | nil => cases member
  | cons y table ih =>
    obtain ⟨fresh, apart⟩ := List.nodup_cons.1 apart
    rw [List.find?_cons]
    rcases List.mem_cons.1 member with rfl | later
    · rw [decide_eq_true rfl]
    · have differ : ¬ x.1 = y.1 := fun same => fresh (same ▸ List.mem_map_of_mem later)
      rw [decide_eq_false differ]
      exact ih apart later

theorem answers_names : answers.map Prod.fst = commands.map Prod.fst := rfl

/-- **Every command answers to its name.** -/
theorem answer_named {x : Line × WordCommand} (member : x ∈ answers) :
    answer e k (x.1 :: words) = (x.2 e k words).map fun r => ⟨r.1, r.2, false⟩ := by
  have apart := commands_apart
  rw [← answers_names, List.nodup_cons, List.nodup_cons] at apart
  obtain ⟨exits, -, apart⟩ := apart
  have differ : ¬ x.1 = exitName := fun same => exits (List.mem_cons_of_mem _ (same ▸ List.mem_map_of_mem member))
  rw [answer, if_neg differ, find_named apart member]

theorem exitName_nonzero : ∀ c ∈ exitName, c ≠ 0 := by decide

/-- `execute_command` on words. -/
theorem executeCommandFull_words (str : StrAt m cmd t) (inside : cmd + t.length < cmdBufferSize)
    (placed : Placed m args words) (e : Surroundings) (k : Kernel) :
    executeCommandFull e k m cmd args = if t = [] then some ⟨[], some k, false⟩ else answer e k (t :: words) := by
  have byte : loadIn cmdBufferSize m cmd = some (m cmd) := loadIn_of_lt (by omega)
  unfold executeCommandFull
  simp only [byte, Option.bind_eq_bind, Option.bind_some]
  cases t with
  | nil => rw [if_pos (strAt_nil.1 str), if_pos rfl]
  | cons c t =>
    have first : ¬ m cmd = 0 := by
      rw [(strAt_cons.1 str).1]
      exact (strAt_cons.1 str).2.1
    rw [if_neg first, if_neg (List.cons_ne_nil c t), isName_eq str inside exitName_nonzero, answer]
    by_cases exits : c :: t = exitName
    · rw [decide_eq_true exits, if_pos exits]
      rfl
    · rw [decide_eq_false exits, if_neg exits, lookupName_eq str inside commands_named, argText_eq str inside]
      have found := find_forall₂ (f := fun x => decide (c :: t = x.1))
        (g := fun x => decide (c :: t = x.1)) commands_say fun x y agree => by rw [agree.1]
      revert found
      cases commands.find? fun x => decide (c :: t = x.1) with
      | none =>
        cases answers.find? fun x => decide (c :: t = x.1) with
        | none => exact fun _ => rfl
        | some y => exact nofun
      | some x =>
        cases answers.find? fun x => decide (c :: t = x.1) with
        | none => exact nofun
        | some y =>
          intro found
          cases found with
          | some agree =>
            simp only [Option.map_some, Option.bind_some, Bool.false_eq_true, if_false, agree.2 e k m args words placed]
            rw [Option.map_eq_bind]
            rfl

/-- `execute_command` on what the parser finds in a line. -/
theorem execute_line (str : StrAt m 0 s) (short : s.length < cmdBufferSize)
    (run : shellParseCommand cmdBufferSize m 0 = some (m', cmd, args)) (e : Surroundings) (k : Kernel) :
    executeCommandFull e k m' cmd args = answer e k ((tokens s).take 17) := by
  obtain ⟨m₁, cmd₁, args₁, run₁, word, room, placed⟩ := shellParseCommand_words str short
  cases Option.some.inj (run.symm.trans run₁)
  rw [executeCommandFull_words word room placed]
  cases pieces : tokens s with
  | nil =>
    rw [command, pieces]
    exact if_pos rfl
  | cons first rest =>
    have nonempty : first ≠ [] := by
      have member : first ∈ tokens s := pieces ▸ List.mem_cons_self
      exact of_decide_eq_true (List.mem_filter.1 member).2
    rw [command, pieces, List.headD_cons, if_neg nonempty]
    rfl

end

end SimpleKernel.Shell
