import SimpleKernel.Input.Keyboard

/-!
# `shell.c`: the line editor

`shell_run` reads events into `cmd_buffer` until a newline, hands the line to the history
and to the parser and starts the next prompt. Its static variables and its locals are one
`State`. Every access goes through `loadIn` and `storeIn`: a function that returns `none`
has left an array. The commands do not touch the variables here; what they print and do is
in `SimpleKernel.Shell.Commands`.
-/

namespace SimpleKernel.Shell
set_option autoImplicit false
open Lib Kstring Input

def cmdBufferSize : Nat := 256
def maxArgs : Nat := 16
def historySize : Nat := 32

theorem cmdBufferSize_eq : cmdBufferSize = 256 := rfl
theorem maxArgs_eq : maxArgs = 16 := rfl
theorem historySize_eq : historySize = 32 := rfl

structure State where
  cmdBuffer : Mem
  history : Nat → Mem
  historyHead : Nat
  historyCount : Nat
  pos : Nat
  historyPosition : Nat
  currentLine : Mem

/-- What the shell sends to the console. -/
inductive Output where
  | kprint (text : List (BitVec 8))
  | kprintColored (text : List (BitVec 8)) (fg bg : BitVec 8)
  | scrollView (delta : Int)
  | scrollToBottom
  deriving DecidableEq

/-- The characters that `kprint` writes for an array of `cmdBufferSize` bytes. -/
def textOf (text : Mem) : Option (List (BitVec 8)) :=
  (scan cmdBufferSize text (fun c => c != 0) cmdBufferSize 0).map fun n => (List.range n).map text

/-! ## History -/

def historyOldestIndex (s : State) : Nat := (s.historyHead + historySize - s.historyCount) % historySize

def historyGet (s : State) (position : Nat) : Mem :=
  s.history ((historyOldestIndex s + position) % historySize)

/-- `kstrcmp(last, line) == 0`, when there is a last line. -/
def isRepeat (s : State) (line : Mem) : Option Bool :=
  if s.historyCount > 0 then
    (kstrcmp cmdBufferSize cmdBufferSize (historyGet s (s.historyCount - 1)) line cmdBufferSize 0 0).map (· == 0)
  else some false

/-- The copy of the line into the row at `history_head`. -/
def historyStore (s : State) (line : Mem) : Option State :=
  if s.historyHead < historySize then do
    let row ← storeIn cmdBufferSize (kmemcpyFrom (s.history s.historyHead) line 0 0 cmdBufferSize) (cmdBufferSize - 1) 0
    some { s with
      history := setCell s.history s.historyHead row
      historyHead := (s.historyHead + 1) % historySize
      historyCount := if s.historyCount < historySize then s.historyCount + 1 else s.historyCount }
  else none

def historyAdd (s : State) (line : Mem) : Option State := do
  let first ← loadIn cmdBufferSize line 0
  if first = 0 then some s
  else
    let same ← isRepeat s line
    if same then some s else historyStore s line

/-! ## Parser -/

section

variable (size : Nat)

def skipSpaces (m : Mem) (input : Nat) : Option Nat := scan size m (fun c => c == 0x20) (size + 1) input

def skipToken (m : Mem) (input : Nat) : Option Nat := scan size m (fun c => c != 0 && c != 0x20) (size + 1) input

/-- `if (*input != '\0') *input++ = '\0'`. -/
def cutToken (m : Mem) (input : Nat) : Option (Mem × Nat) := do
  let c ← loadIn size m input
  if c ≠ 0 then do
    let m ← storeIn size m input 0
    some (m, input + 1)
  else some (m, input)

/-- The loop over the arguments; `args` are the pointers stored so far. -/
def argLoop : Nat → Mem → Nat → List Nat → Option (Mem × List Nat)
  | 0, _, _, _ => none
  | fuel + 1, m, input, args => do
    let c ← loadIn size m input
    if c ≠ 0 ∧ args.length < maxArgs then do
      let start ← skipSpaces size m input
      let c ← loadIn size m start
      if c = 0 then some (m, args)
      else do
        let stop ← skipToken size m start
        let (m, input) ← cutToken size m stop
        argLoop fuel m input (args ++ [start])
    else some (m, args)

/-- The memory afterwards, `cmd` and the arguments; `argc`, also returned, is their number. -/
def shellParseCommand (m : Mem) (input : Nat) : Option (Mem × Nat × List Nat) := do
  let cmd ← skipSpaces size m input
  let stop ← skipToken size m cmd
  let (m, input) ← cutToken size m stop
  let (m, args) ← argLoop size (maxArgs + 1) m input []
  some (m, cmd, args)

end

/-! ## Editing -/

/-- The copy loop of `shell_set_buffer` from index `i` on, with `*pos`. -/
def setLoop (text : Mem) : Nat → Mem → Nat → Nat → Option (Mem × Nat)
  | 0, _, _, _ => none
  | fuel + 1, m, pos, i => do
    let c ← loadIn cmdBufferSize text i
    if c ≠ 0 ∧ i + 1 < cmdBufferSize then do
      let m ← storeIn cmdBufferSize m i c
      setLoop text fuel m (i + 1) (i + 1)
    else some (m, pos)

def shellSetBuffer (s : State) (text : Mem) : Option (State × List Output) := do
  let (m, pos) ← setLoop text cmdBufferSize s.cmdBuffer 0 0
  let m ← storeIn cmdBufferSize m pos 0
  let printed ← textOf text
  some ({ s with cmdBuffer := m, pos }, List.replicate s.pos (.kprint [0x08]) ++ [.kprint printed])

/-- `kmemcpy(current_line, cmd_buffer, CMD_BUFFER_SIZE)`. -/
def saveLine (s : State) : State :=
  { s with currentLine := kmemcpyFrom s.currentLine s.cmdBuffer 0 0 cmdBufferSize }

def handleUp (s : State) : Option (State × List Output) :=
  if s.historyCount = 0 ∨ s.historyPosition = 0 then some (s, [])
  else
    let s := if s.historyPosition = s.historyCount then saveLine s else s
    let s := { s with historyPosition := s.historyPosition - 1 }
    shellSetBuffer s (historyGet s s.historyPosition)

def handleDown (s : State) : Option (State × List Output) :=
  if s.historyPosition ≥ s.historyCount then some (s, [])
  else
    let s := { s with historyPosition := s.historyPosition + 1 }
    if s.historyPosition = s.historyCount then shellSetBuffer s s.currentLine
    else shellSetBuffer s (historyGet s s.historyPosition)

/-- Editing a recalled line makes it the current one. -/
def adoptLine (s : State) : State :=
  if s.historyPosition ≠ s.historyCount then { saveLine s with historyPosition := s.historyCount } else s

def handleBackspace (s : State) : Option (State × List Output) :=
  if s.pos > 0 then do
    let s := adoptLine s
    let m ← storeIn cmdBufferSize s.cmdBuffer (s.pos - 1) 0
    some ({ s with cmdBuffer := m, pos := s.pos - 1 }, [.kprint [0x08]])
  else some (s, [])

def handleChar (s : State) (c : BitVec 8) : Option (State × List Output) :=
  if s.pos + 1 < cmdBufferSize then do
    let s := adoptLine s
    let m ← storeIn cmdBufferSize s.cmdBuffer s.pos c
    let m ← storeIn cmdBufferSize m (s.pos + 1) 0
    -- `kprint(tmp)` of a NUL prints nothing
    some ({ s with cmdBuffer := m, pos := s.pos + 1 }, [.kprint (if c = 0 then [] else [c])])
  else some (s, [])

/-- An event that is not a newline. -/
def handleEvent (s : State) (event : InputEvent) : Option (State × List Output) :=
  match event.type with
  | .left => some (s, [.scrollView (-1)])
  | .right => some (s, [.scrollView 1])
  | .up => (handleUp s).map fun r => (r.1, .scrollToBottom :: r.2)
  | .down => (handleDown s).map fun r => (r.1, .scrollToBottom :: r.2)
  | .char =>
    (if event.ch = 0x08 ∨ event.ch = 0x7F then handleBackspace s else handleChar s event.ch).map
      fun r => (r.1, .scrollToBottom :: r.2)

def isNewline (event : InputEvent) : Prop := event.type = .char ∧ event.ch = 0x0A

instance (event : InputEvent) : Decidable (isNewline event) := inferInstanceAs (Decidable (_ ∧ _))

/-! ## Prompts -/

/-- A string literal. -/
def literal (s : List (BitVec 8)) : Mem := fun i => s.getD i 0

def exitName : List (BitVec 8) := [0x65, 0x78, 0x69, 0x74]

/-- What `execute_command` returns, whatever the commands do: `1` for `exit`. -/
def executeCommand (m : Mem) (cmd : Nat) : Option Bool := do
  let c ← loadIn cmdBufferSize m cmd
  if c = 0 then some false
  else
    (kstrcmp cmdBufferSize (exitName.length + 1) m (literal exitName) (cmdBufferSize + 1) cmd 0).map (· == 0)

/-- The start of a prompt; `fresh` is what the uninitialised `current_line` holds. -/
def newPrompt (s : State) (fresh : Mem) : Option State := do
  let line ← storeIn cmdBufferSize fresh 0 0
  some { s with pos := 0, historyPosition := s.historyCount, currentLine := line }

/-- The newline: `cmd_buffer` is terminated. -/
def terminateLine (s : State) : Option State := do
  let m ← storeIn cmdBufferSize s.cmdBuffer s.pos 0
  some { s with cmdBuffer := m }

/-- From the end of a line to the next event: history, parser, command, and a new prompt
unless the command was `exit`. -/
def submitLine (s : State) (fresh : Mem) : Option (State × Bool) := do
  let s ← historyAdd s s.cmdBuffer
  let (m, cmd, _) ← shellParseCommand cmdBufferSize s.cmdBuffer 0
  let s := { s with cmdBuffer := m }
  let exited ← executeCommand m cmd
  if exited then some (s, false)
  else do
    let s ← newPrompt s fresh
    some (s, true)

/-- The static variables at boot and the first prompt. -/
def boot (fresh : Mem) : Option State :=
  newPrompt ⟨fun _ => 0, fun _ _ => 0, 0, 0, 0, 0, fresh⟩ fresh

end SimpleKernel.Shell
