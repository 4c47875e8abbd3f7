import Mathlib.Data.List.Destutter
import SimpleKernel.Lib.Ring
import SimpleKernel.Shell.Parser

/-!
# The history

Its purpose is a log of the lines submitted, without empty lines and without repeats of the
line before (`lineLog`); the ring keeps the last 32 of them (`history_log`).
-/

namespace SimpleKernel.Shell
set_option autoImplicit false
open Lib Kstring

abbrev Line := List (BitVec 8)

/-- The lines without the empty ones and without those equal to their predecessor. -/
def lineLog (lines : List Line) : List Line := (lines.filter fun l => decide (l ≠ [])).destutter (· ≠ ·)

/-- One more line in the log. -/
def record (log : List Line) (line : Line) : List Line :=
  if line = [] ∨ log.getLast? = some line then log else log ++ [line]

theorem destutter'_snoc {α : Type*} [DecidableEq α] (a b : α) (l : List α) :
    (l ++ [b]).destutter' (· ≠ ·) a =
      if (l.destutter' (· ≠ ·) a).getLast? = some b then l.destutter' (· ≠ ·) a else l.destutter' (· ≠ ·) a ++ [b] := by
  induction l generalizing a with
  | nil =>
    by_cases same : a = b
    · simp [same]
    · simp [same]
  | cons c l ih =>
    by_cases same : a = c
    · rw [List.cons_append, List.destutter'_cons_neg _ (not_not.2 same), ih,
        List.destutter'_cons_neg _ (not_not.2 same)]
    · obtain ⟨d, rest, eq⟩ := List.exists_cons_of_ne_nil (List.destutter'_ne_nil l (· ≠ ·) (a := c))
      rw [List.cons_append, List.destutter'_cons_pos _ same, ih, List.destutter'_cons_pos _ same, eq,
        List.getLast?_cons_cons]
      split
      · rfl
      · rfl

theorem lineLog_snoc (lines : List Line) (line : Line) : lineLog (lines ++ [line]) = record (lineLog lines) line := by
  unfold lineLog record
  rw [List.filter_append]
  by_cases empty : line = []
  · simp [empty]
  · have one : [line].filter (fun l => decide (l ≠ [])) = [line] := by simp [empty]
    rw [one]
    cases lines.filter fun l => decide (l ≠ []) with
    | nil => simp [empty]
    | cons l lines =>
      rw [List.cons_append, List.destutter_cons', List.destutter_cons', destutter'_snoc]
      simp only [empty, false_or]

/-! ## The ring -/

/-- The ring holds the last 32 lines of the log. -/
structure HoldsLog (s : State) (log : List Line) : Prop where
  head : s.historyHead = log.length % 32
  count : s.historyCount = min 32 log.length
  ring : Ring (fun row line => StrAt row 0 line) 32 s.history log (log.length - 32)
  short : ∀ line ∈ log, line.length ≤ 255

section

variable {s : State} {log : List Line} {line : Line} {m : Mem}

theorem HoldsLog.congr {s' : State} (h : HoldsLog s log) (history : s'.history = s.history)
    (head : s'.historyHead = s.historyHead) (count : s'.historyCount = s.historyCount) : HoldsLog s' log :=
  ⟨head.trans h.head, count.trans h.count, history ▸ h.ring, h.short⟩

/-- Position `i` of the history, oldest first. -/
theorem HoldsLog.get (h : HoldsLog s log) {i : Nat} (inside : log.length - s.historyCount + i < log.length) :
    StrAt (historyGet s i) 0 log[log.length - s.historyCount + i] := by
  have head := h.head
  have count := h.count
  have stored := h.ring.stored _ inside (by omega)
  have index : (historyOldestIndex s + i) % historySize = (log.length - s.historyCount + i) % 32 := by
    unfold historyOldestIndex
    rw [historySize_eq]
    omega
  rw [historyGet, index]
  exact stored

/-- A row copied from a buffer. -/
theorem row_copied (row : Mem) (str : StrAt m 0 line) (short : line.length ≤ 255) :
    StrAt (storeByte (kmemcpyFrom row m 0 0 cmdBufferSize) (cmdBufferSize - 1) 0) 0 line := by
  refine ⟨fun i hi => ?_, str.nonzero, ?_⟩
  · have byte := str.bytes i hi
    rw [cmdBufferSize_eq, storeByte_out (by omega), kmemcpyFrom_get, if_pos (by omega)]
    rw [Nat.zero_add] at *
    rw [Nat.sub_zero, Nat.zero_add]
    exact byte
  · have nul := str.nul
    rw [cmdBufferSize_eq]
    by_cases last : line.length = 255
    · rw [last]
      rfl
    · rw [storeByte_out (by omega), kmemcpyFrom_get, if_pos (by omega)]
      rw [Nat.zero_add] at *
      rw [Nat.sub_zero, Nat.zero_add]
      exact nul

theorem isRepeat_spec (h : HoldsLog s log) (str : StrAt m 0 line) (short : line.length ≤ 255) :
    isRepeat s m = some (decide (log.getLast? = some line)) := by
  have count := h.count
  unfold isRepeat
  by_cases empty : log = []
  · rw [if_neg (by simp [count, empty]), empty]
    rfl
  · have positive := List.length_pos_iff.2 empty
    have inside : log.length - s.historyCount + (s.historyCount - 1) < log.length := by omega
    have last := h.get inside
    have index : log.length - s.historyCount + (s.historyCount - 1) = log.length - 1 := by omega
    simp only [index] at last inside
    have shortLast := h.short _ (List.getElem_mem inside)
    obtain ⟨d, run, zero⟩ := @kstrcmp_spec cmdBufferSize cmdBufferSize _ _ _ _ cmdBufferSize _ _ last str
      (by rw [cmdBufferSize_eq]; omega) (by rw [cmdBufferSize_eq]; omega) (by rw [cmdBufferSize_eq]; omega)
    have same : log.getLast? = some line ↔ d = 0 := by
      rw [zero, List.getLast?_eq_getElem?, List.getElem?_eq_getElem inside, Option.some.injEq]
    rw [if_pos (by omega), run, Option.map_some, Option.some.injEq, Bool.eq_iff_iff, beq_iff_eq,
      decide_eq_true_iff, same]

/-- The row written at the head. -/
def storedRow (s : State) (m : Mem) : Mem :=
  storeByte (kmemcpyFrom (s.history s.historyHead) m 0 0 cmdBufferSize) (cmdBufferSize - 1) 0

theorem historyStore_spec (h : HoldsLog s log) (str : StrAt m 0 line) (short : line.length ≤ 255) :
    ∃ history head count, historyStore s m = some { s with history, historyHead := head, historyCount := count } ∧
      HoldsLog { s with history, historyHead := head, historyCount := count } (log ++ [line]) := by
  have head := h.head
  have count := h.count
  have index : s.historyHead < historySize := by
    rw [historySize_eq]
    omega
  have store : storeIn cmdBufferSize (kmemcpyFrom (s.history s.historyHead) m 0 0 cmdBufferSize) (cmdBufferSize - 1) 0 =
      some (storedRow s m) := storeIn_of_lt (by decide)
  refine ⟨setCell s.history s.historyHead (storedRow s m), (s.historyHead + 1) % historySize,
    if s.historyCount < historySize then s.historyCount + 1 else s.historyCount, ?_, ?_, ?_, ?_, ?_⟩
  · simp only [historyStore, if_pos index, store, Option.bind_eq_bind, Option.bind_some]
  · dsimp only
    rw [historySize_eq, List.length_append, List.length_singleton]
    omega
  · dsimp only
    rw [historySize_eq, List.length_append, List.length_singleton]
    split <;> omega
  · have later : log.length - 32 ≤ log.length - 31 := by omega
    have kept := h.ring.drop later (Nat.sub_le _ _)
    have pushed := kept.push (by omega) (row_copied (s.history s.historyHead) str short)
    rw [List.length_append, List.length_singleton, show log.length + 1 - 32 = log.length - 31 by omega]
    rw [← head] at pushed
    exact pushed
  · intro l hl
    rcases List.mem_append.1 hl with old | new
    · exact h.short l old
    · rw [List.mem_singleton.1 new]
      exact short

/-- **`history_add`** on a terminated buffer. -/
theorem historyAdd_spec (h : HoldsLog s log) (str : StrAt m 0 line) (short : line.length ≤ 255) :
    ∃ history head count, historyAdd s m = some { s with history, historyHead := head, historyCount := count } ∧
      HoldsLog { s with history, historyHead := head, historyCount := count } (record log line) := by
  have first : loadIn cmdBufferSize m 0 = some (m 0) := loadIn_of_lt (by decide)
  have nul : m 0 = 0 ↔ line = [] := by
    cases line with
    | nil => exact iff_of_true (strAt_nil.1 str) rfl
    | cons c line =>
      obtain ⟨byte, nonzero, -⟩ := strAt_cons.1 str
      rw [byte]
      exact iff_of_false nonzero (by simp)
  unfold record
  by_cases empty : line = []
  · refine ⟨s.history, s.historyHead, s.historyCount, ?_, ?_⟩
    · simp only [historyAdd, first, Option.bind_eq_bind, Option.bind_some, if_pos (nul.2 empty)]
    · rw [if_pos (.inl empty)]
      exact h
  · have repeated := isRepeat_spec h str short
    by_cases same : log.getLast? = some line
    · refine ⟨s.history, s.historyHead, s.historyCount, ?_, ?_⟩
      · simp only [historyAdd, first, Option.bind_eq_bind, Option.bind_some, if_neg (mt nul.1 empty), repeated, same,
          decide_true, if_true]
      · rw [if_pos (.inr same)]
        exact h
    · obtain ⟨history, head, count, store, holds⟩ := historyStore_spec h str short
      refine ⟨history, head, count, ?_, ?_⟩
      · simp only [historyAdd, first, Option.bind_eq_bind, Option.bind_some, if_neg (mt nul.1 empty), repeated, same,
          decide_false, if_false, store, Bool.false_eq_true]
      · rw [if_neg (not_or.2 ⟨empty, same⟩)]
        exact holds

/-! ## Submitted lines -/

theorem strAt_literal {text : Line} (nonzero : ∀ c ∈ text, c ≠ 0) : StrAt (literal text) 0 text := by
  refine ⟨fun i hi => ?_, nonzero, ?_⟩
  · rw [literal, Nat.zero_add, List.getD_eq_getElem?_getD, List.getElem?_eq_getElem hi, Option.getD_some]
  · rw [literal, Nat.zero_add, List.getD_eq_getElem?_getD, List.getElem?_eq_none le_rfl, Option.getD_none]

theorem executeCommand_spec {cmd : Nat} {word : Line} (str : StrAt m cmd word) (inside : cmd + word.length < 256) :
    executeCommand m cmd = some (decide (word = exitName)) := by
  have first : loadIn cmdBufferSize m cmd = some (m cmd) := loadIn_of_lt (by rw [cmdBufferSize_eq]; omega)
  cases word with
  | nil =>
    have nul := strAt_nil.1 str
    simp only [executeCommand, first, Option.bind_eq_bind, Option.bind_some, if_pos nul]
    rfl
  | cons c word =>
    obtain ⟨byte, nonzero, -⟩ := strAt_cons.1 str
    obtain ⟨d, run, zero⟩ := @kstrcmp_spec cmdBufferSize (exitName.length + 1) _ _ _ _ (cmdBufferSize + 1) _ _ str
      (@strAt_literal exitName (by decide)) (by rw [cmdBufferSize_eq]; omega) (by decide)
      (by rw [cmdBufferSize_eq]; omega)
    have go : ¬ m cmd = 0 := by
      rw [byte]
      exact nonzero
    simp only [executeCommand, first, Option.bind_eq_bind, Option.bind_some, if_neg go, run, Option.map_some,
      Option.some.injEq]
    rw [Bool.eq_iff_iff, beq_iff_eq, decide_eq_true_iff, zero]

/-- **The end of a line.** The line goes to the log, and the parser leaves NULs where the
buffer had spaces; without `exit` there is a new prompt. -/
theorem submitLine_spec (h : HoldsLog s log) (str : StrAt s.cmdBuffer 0 line)
    (short : line.length ≤ 255) (fresh : Mem) :
    ∃ s', submitLine s fresh = some (s', decide (command line ≠ exitName)) ∧ HoldsLog s' (record log line) ∧
      Cuts s.cmdBuffer s'.cmdBuffer 0 line.length ∧
      (if command line = exitName then
        s'.pos = s.pos ∧ s'.historyPosition = s.historyPosition ∧ s'.currentLine = s.currentLine
      else s'.pos = 0 ∧ s'.historyPosition = s'.historyCount ∧ s'.currentLine 0 = 0) := by
  obtain ⟨history, head, count, add, holds⟩ := historyAdd_spec h str short
  obtain ⟨cut, cmd, args, parse, cuts, word, inside, -⟩ := @shellParseCommand_spec _ 0 cmdBufferSize _ str
    (by rw [cmdBufferSize_eq]; omega)
  have exits := executeCommand_spec word inside
  rw [Nat.zero_add] at cuts
  by_cases isExit : command line = exitName
  · refine ⟨{ s with history, historyHead := head, historyCount := count, cmdBuffer := cut }, ?_,
      holds.congr rfl rfl rfl, cuts, ?_⟩
    swap
    · rw [if_pos isExit]
      exact ⟨rfl, rfl, rfl⟩
    simp only [submitLine, add, parse, exits, isExit, Option.bind_eq_bind, Option.bind_some, decide_true, if_true,
      ne_eq, not_true, decide_false]
  · have store : storeIn cmdBufferSize fresh 0 0 = some (storeByte fresh 0 0) := storeIn_of_lt (by decide)
    refine ⟨⟨cut, history, head, count, 0, count, storeByte fresh 0 0⟩, ?_,
      holds.congr rfl rfl rfl, cuts, ?_⟩
    swap
    · rw [if_neg isExit]
      exact ⟨rfl, rfl, storeByte_self fresh 0 0⟩
    simp only [submitLine, newPrompt, add, parse, exits, isExit, store, Option.bind_eq_bind, Option.bind_some,
      decide_false, if_false, Bool.false_eq_true, ne_eq, not_false_iff, decide_true]

end

/-- The submissions of a session: what `cmd_buffer` holds at each newline, and the stack under
the next prompt's `current_line`. -/
def submitLines : State → List (Mem × Mem) → Option State
  | s, [] => some s
  | s, (m, fresh) :: buffers => do
    let (s, _) ← submitLine { s with cmdBuffer := m } fresh
    submitLines s buffers

theorem holdsLog_start {s : State} (head : s.historyHead = 0) (count : s.historyCount = 0) : HoldsLog s [] :=
  ⟨head, count, .empty _ _ _, by simp⟩

theorem submitLines_spec {s : State} {lines done : List Line} {buffers : List (Mem × Mem)}
    (h : HoldsLog s (lineLog done))
    (strings : List.Forall₂ (fun line buffer => StrAt buffer.1 0 line ∧ line.length ≤ 255) lines buffers) :
    ∃ s', submitLines s buffers = some s' ∧ HoldsLog s' (lineLog (done ++ lines)) := by
  induction strings generalizing s done with
  | nil =>
    rw [List.append_nil]
    exact ⟨s, rfl, h⟩
  | cons one rest ih =>
    rename_i line buffer lines buffers
    have start : HoldsLog { s with cmdBuffer := buffer.1 } (lineLog done) := h.congr rfl rfl rfl
    obtain ⟨s₁, run, holds, -⟩ := submitLine_spec start one.1 one.2 buffer.2
    rw [← lineLog_snoc] at holds
    obtain ⟨s', runs, holds'⟩ := ih holds
    rw [List.append_assoc, List.singleton_append] at holds'
    refine ⟨s', ?_, holds'⟩
    simp only [submitLines, run, Option.bind_eq_bind, Option.bind_some]
    exact runs

/-- **The history is the end of the log.** It holds after any submissions, also while the
parser cuts up `cmd_buffer`. -/
theorem history_log {s : State} {lines : List Line} {buffers : List (Mem × Mem)} (head : s.historyHead = 0)
    (count : s.historyCount = 0)
    (strings : List.Forall₂ (fun line buffer => StrAt buffer.1 0 line ∧ line.length ≤ 255) lines buffers) :
    ∃ s', submitLines s buffers = some s' ∧ s'.historyCount = min 32 (lineLog lines).length ∧
      ∀ i < s'.historyCount, ∃ line, (lineLog lines)[(lineLog lines).length - s'.historyCount + i]? = some line ∧
        StrAt (historyGet s' i) 0 line := by
  obtain ⟨s', run, holds⟩ := @submitLines_spec s lines [] buffers (holdsLog_start head count) strings
  rw [List.nil_append] at holds
  refine ⟨s', run, holds.count, fun i hi => ?_⟩
  have kept := holds.count
  have inside : (lineLog lines).length - s'.historyCount + i < (lineLog lines).length := by omega
  exact ⟨_, List.getElem?_eq_getElem inside, holds.get inside⟩

/-- An empty line, a line twice and another one, on the memory the kernel boots with. -/
theorem history_log_repeat :
    lineLog [[], [0x61], [0x61], [0x62]] = [[0x61], [0x62]] ∧
      ∃ s', submitLines ⟨fun _ => 0, fun _ _ => 0, 0, 0, 0, 0, fun _ => 0⟩
          [(literal [], literal []), (literal [0x61], literal []), (literal [0x61], literal []),
            (literal [0x62], literal [])] =
            some s' ∧ s'.historyCount = 2 ∧ StrAt (historyGet s' 0) 0 [0x61] ∧ StrAt (historyGet s' 1) 0 [0x62] := by
  have log : lineLog [[], [0x61], [0x61], [0x62]] = [[0x61], [0x62]] := by decide
  have string : ∀ text : Line, (∀ c ∈ text, c ≠ 0) → text.length ≤ 255 →
      StrAt (literal text) 0 text ∧ text.length ≤ 255 :=
    fun text nonzero short => ⟨strAt_literal nonzero, short⟩
  obtain ⟨s', run, count, lines⟩ := @history_log ⟨fun _ => 0, fun _ _ => 0, 0, 0, 0, 0, fun _ => 0⟩
    [[], [0x61], [0x61], [0x62]]
    [(literal [], literal []), (literal [0x61], literal []), (literal [0x61], literal []), (literal [0x62], literal [])]
    rfl rfl (.cons (string [] (by decide) (by decide)) (.cons (string [0x61] (by decide) (by decide))
      (.cons (string [0x61] (by decide) (by decide)) (.cons (string [0x62] (by decide) (by decide)) .nil))))
  rw [log] at count lines
  have two : s'.historyCount = 2 := count
  rw [two] at lines
  obtain ⟨first, eq, str⟩ := lines 0 (by decide)
  obtain ⟨second, eq', str'⟩ := lines 1 (by decide)
  cases Option.some.inj eq
  cases Option.some.inj eq'
  exact ⟨log, s', run, two, str, str'⟩

end SimpleKernel.Shell
