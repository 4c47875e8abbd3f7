import Mathlib.Algebra.Ring.Nat
import SimpleKernel.Lib.Lts
import SimpleKernel.Input.Keyboard

/-!
# `input.c` over the serial port

A byte on COM1 becomes visible to some poll of the line status after the bytes before it
have been read; the polls that come too early are counted with the byte, so that every
arrival timing is a list. `input_read_serial_event` looks up to two bytes ahead of an ESC
and has no way to put them back: a call accounts for the bytes it reads iff what it sees
behind an ESC goes on with a recognised sequence (`call_delivers`, `call_loses`).
-/

namespace SimpleKernel.Input
set_option autoImplicit false
open Lib

/-! ## The serial port -/

/-- A byte on COM1, with the number of polls that do not see it yet when it is the next. -/
structure Arrival where
  unseen : Nat
  byte : BitVec 8
  deriving DecidableEq

/-- The static variable of `serial.c` and the line. -/
structure Serial where
  initialized : Bool
  line : List Arrival

def serialHasInput (s : Serial) : Bool × Serial :=
  if s.initialized then
    match s.line with
    | [] => (false, s)
    | ⟨0, _⟩ :: _ => (true, s)
    | ⟨n + 1, byte⟩ :: line => (false, { s with line := ⟨n, byte⟩ :: line })
  else (false, s)

/-- `inb(COM1_PORT)`. -/
def dataPort (s : Serial) : Option (BitVec 8 × Serial) :=
  match s.line with
  | [] => none
  | a :: line => some (a.byte, { s with line })

/-- The polls that do not see the next byte. -/
def Serial.unseen (s : Serial) : Nat :=
  match s.line with
  | [] => 0
  | a :: _ => a.unseen

/-- The loop of `serial_read_char`, a poll a unit of fuel. -/
def readCharLoop : Nat → Serial → Option (BitVec 8 × Serial)
  | 0, _ => none
  | polls + 1, s =>
    match serialHasInput s with
    | (true, s) => dataPort s
    | (false, s) => readCharLoop polls s

/-- `none` where it waits for ever: what the poll after `unseen` others does not see, no poll sees. -/
def serialReadChar (s : Serial) : Option (BitVec 8 × Serial) := readCharLoop (s.unseen + 1) s

/-! ## Events -/

/-- The `switch` over the last byte of a sequence. -/
def arrow (c : BitVec 8) : Option InputEventType :=
  if c = 0x41 then some .up
  else if c = 0x42 then some .down
  else if c = 0x43 then some .right
  else if c = 0x44 then some .left
  else none

/-- Carriage return as newline. -/
def newline (c : BitVec 8) : BitVec 8 := if c = 0x0D then 0x0A else c

def inputEventChar (c : BitVec 8) : InputEvent := ⟨.char, c⟩

def inputEventSpecial (type : InputEventType) : InputEvent := ⟨type, 0⟩

/-- `input_read_serial_event` from the second byte on; `c` is the ESC. -/
def readSequence (c : BitVec 8) (s : Serial) : Option (InputEvent × Serial) := do
  let (second, s) ← serialReadChar s
  if second ≠ 0x5B then some (inputEventChar c, s)
  else
    let (third, s) ← serialReadChar s
    match arrow third with
    | some type => some (inputEventSpecial type, s)
    | none => some (inputEventChar c, s)

def inputReadSerialEvent (s : Serial) : Option (InputEvent × Serial) := do
  let (c, s) ← serialReadChar s
  let c := newline c
  if c ≠ 0x1B then some (inputEventChar c, s)
  else
    match serialHasInput s with
    | (false, s) => some (inputEventChar c, s)
    | (true, s) => readSequence c s

/-- The loop of `input_getevent`, a poll a unit of fuel. -/
def geteventLoop : Nat → Keyboard → Serial → Option (InputEvent × Keyboard × Serial)
  | 0, _, _ => none
  | polls + 1, k, s =>
    match serialHasInput s with
    | (true, s) => (inputReadSerialEvent s).map fun (event, s) => (event, k, s)
    | (false, s) =>
      if keyboardHasInput k then (keyboardGetevent k).map fun (event, k) => (event, k, s)
      else geteventLoop polls k s

/-- `none` where it waits for ever, without another key. -/
def inputGetevent (k : Keyboard) (s : Serial) : Option (InputEvent × Keyboard × Serial) :=
  geteventLoop (s.unseen + 1) k s

/-! ## Reading -/

section

variable {k : Keyboard} {a : Arrival} {line : List Arrival}

theorem serialReadChar_cons : serialReadChar ⟨true, a :: line⟩ = some (a.byte, ⟨true, line⟩) := by
  obtain ⟨unseen, byte⟩ := a
  show readCharLoop (unseen + 1) ⟨true, ⟨unseen, byte⟩ :: line⟩ = _
  induction unseen with
  | zero => rfl
  | succ n ih => exact ih

theorem inputGetevent_nil (idle : keyboardHasInput k = false) : inputGetevent k ⟨true, []⟩ = none := by
  show (if keyboardHasInput k = true then _ else none) = none
  rw [idle]
  rfl

/-- With the keyboard idle the next byte is waited for and decoded. -/
theorem inputGetevent_cons (idle : keyboardHasInput k = false) : inputGetevent k ⟨true, a :: line⟩ =
    (inputReadSerialEvent ⟨true, ⟨0, a.byte⟩ :: line⟩).map fun (event, s) => (event, k, s) := by
  obtain ⟨unseen, byte⟩ := a
  show geteventLoop (unseen + 1) k ⟨true, ⟨unseen, byte⟩ :: line⟩ = _
  induction unseen with
  | zero => rfl
  | succ n ih =>
    show (if keyboardHasInput k = true then _ else geteventLoop (n + 1) k ⟨true, ⟨n, byte⟩ :: line⟩) = _
    rw [idle]
    exact ih

end

/-! ## What a call accounts for -/

/-- The bytes on the line. -/
def bytes (line : List Arrival) : List (BitVec 8) := line.map Arrival.byte

/-- The event `e` delivers the bytes: one character, or a sequence that stands for an arrow. -/
inductive Delivers : List (BitVec 8) → InputEvent → Prop
  | char (c : BitVec 8) : Delivers [c] (inputEventChar (newline c))
  | arrow {c : BitVec 8} {type : InputEventType} :
    arrow c = some type → Delivers [0x1B, 0x5B, c] (inputEventSpecial type)

/-- The events account for all the bytes, each once and in order. -/
inductive Accounts : List (BitVec 8) → List InputEvent → Prop
  | nil : Accounts [] []
  | snoc {read taken : List (BitVec 8)} {events : List InputEvent} {e : InputEvent} :
    Accounts read events → Delivers taken e → Accounts (read ++ taken) (events ++ [e])

/-- **The condition on what comes in**: if the poll after an ESC sees the next byte, then this
byte and the one behind it complete a sequence. -/
def Continues : List Arrival → Prop
  | ⟨_, first⟩ :: ⟨0, second⟩ :: rest =>
    first = 0x1B → second = 0x5B ∧ ∃ third line, rest = third :: line ∧ (arrow third.byte).isSome = true
  | _ => True

/-- How many bytes an event can deliver. -/
def weight (e : InputEvent) : Nat := if e.type = .char then 1 else 3

theorem arrow_not_char {c : BitVec 8} {type : InputEventType} (eq : arrow c = some type) : type ≠ .char := by
  unfold arrow at eq
  intro char
  subst char
  split_ifs at eq <;> cases eq

theorem Delivers.length {taken : List (BitVec 8)} {e : InputEvent} (h : Delivers taken e) :
    taken.length = weight e := by
  cases h with
  | char c => rfl
  | arrow eq => exact (if_neg (arrow_not_char eq)).symm

theorem Accounts.length {read : List (BitVec 8)} {events : List InputEvent} (h : Accounts read events) :
    read.length = (events.map weight).sum := by
  induction h with
  | nil => rfl
  | snoc _ delivers ih =>
    rw [List.length_append, ih, delivers.length, List.map_append, List.sum_append, List.map_singleton,
      List.sum_singleton]

/-! ## One call -/

theorem newline_escape {c : BitVec 8} : newline c = 0x1B ↔ c = 0x1B := by
  unfold newline
  split_ifs with h
  · subst h
    decide
  · rfl

section

variable {c : BitVec 8} {n : Nat} {line : List Arrival}

theorem readSerialEvent_char (plain : c ≠ 0x1B) : inputReadSerialEvent ⟨true, ⟨n, c⟩ :: line⟩ =
    some (inputEventChar (newline c), ⟨true, line⟩) := by
  unfold inputReadSerialEvent
  rw [serialReadChar_cons]
  exact if_pos (mt newline_escape.1 plain)

/-- An ESC, and the poll behind it. -/
theorem readSerialEvent_escape : inputReadSerialEvent ⟨true, ⟨n, 0x1B⟩ :: line⟩ =
    match serialHasInput ⟨true, line⟩ with
    | (false, s) => some (inputEventChar 0x1B, s)
    | (true, s) => readSequence 0x1B s := by
  unfold inputReadSerialEvent
  rw [serialReadChar_cons]
  rfl

theorem readSequence_other (other : c ≠ 0x5B) :
    readSequence 0x1B ⟨true, ⟨n, c⟩ :: line⟩ = some (inputEventChar 0x1B, ⟨true, line⟩) := by
  unfold readSequence
  rw [serialReadChar_cons]
  exact if_pos other

theorem readSequence_bracket_nil : readSequence 0x1B ⟨true, [⟨n, 0x5B⟩]⟩ = none := by
  unfold readSequence
  rw [serialReadChar_cons]
  rfl

theorem readSequence_bracket (third : Arrival) : readSequence 0x1B ⟨true, ⟨n, 0x5B⟩ :: third :: line⟩ =
    some (((arrow third.byte).map inputEventSpecial).getD (inputEventChar 0x1B), ⟨true, line⟩) := by
  unfold readSequence
  rw [serialReadChar_cons]
  show (do let (third, s) ← serialReadChar ⟨true, third :: line⟩; _) = _
  rw [serialReadChar_cons]
  show (match arrow third.byte with
    | some type => some (inputEventSpecial type, (⟨true, line⟩ : Serial))
    | none => some (inputEventChar 0x1B, (⟨true, line⟩ : Serial))) = _
  cases arrow third.byte with
  | none => rfl
  | some type => rfl

end

/-- A call returns the event `e` and has read the bytes `taken`. -/
structure Returns (k : Keyboard) (line : List Arrival) (e : InputEvent) (taken : List (BitVec 8))
    (line' : List Arrival) : Prop where
  call : inputGetevent k ⟨true, line⟩ = some (e, k, ⟨true, line'⟩)
  read : bytes line = taken ++ bytes line'

section

variable {k : Keyboard} {line : List Arrival}

/-- With the keyboard idle a call decodes the next byte. -/
theorem Returns.of_event (idle : keyboardHasInput k = false) {n : Nat} {c : BitVec 8} {e : InputEvent}
    {taken : List (BitVec 8)} {line' : List Arrival}
    (event : inputReadSerialEvent ⟨true, ⟨0, c⟩ :: line⟩ = some (e, ⟨true, line'⟩))
    (read : c :: bytes line = taken ++ bytes line') : Returns k (⟨n, c⟩ :: line) e taken line' := by
  refine ⟨?_, read⟩
  rw [inputGetevent_cons idle, event]
  rfl

/-- **What a call does when sequences go on.** -/
theorem call_delivers (idle : keyboardHasInput k = false) (some : line ≠ []) (continues : Continues line) :
    ∃ e taken line', Returns k line e taken line' ∧ Delivers taken e := by
  cases line with
  | nil => exact absurd rfl some
  | cons a line =>
    obtain ⟨n, c⟩ := a
    by_cases escape : c = 0x1B
    · subst escape
      cases line with
      | nil => exact ⟨_, _, _, .of_event idle readSerialEvent_escape rfl, .char 0x1B⟩
      | cons b line =>
        obtain ⟨unseen, second⟩ := b
        cases unseen with
        | succ m => exact ⟨_, _, ⟨m, second⟩ :: line, .of_event idle readSerialEvent_escape rfl, .char 0x1B⟩
        | zero =>
          obtain ⟨bracket, third, rest, eq, letter⟩ := continues rfl
          obtain ⟨type, letter⟩ := Option.isSome_iff_exists.1 letter
          subst bracket eq
          refine ⟨_, _, _, .of_event idle ?_ rfl, .arrow letter⟩
          rw [readSerialEvent_escape]
          show readSequence 0x1B ⟨true, ⟨0, 0x5B⟩ :: third :: rest⟩ = _
          rw [readSequence_bracket, letter]
          rfl
    · exact ⟨_, _, _, .of_event idle (readSerialEvent_char escape) rfl, .char c⟩

/-- **What a call does when a sequence breaks off**: it waits with bytes in its hands, or drops
some. -/
theorem call_loses (idle : keyboardHasInput k = false) (breaks : ¬ Continues line) :
    inputGetevent k ⟨true, line⟩ = none ∨
      ∃ e taken line', Returns k line e taken line' ∧ weight e < taken.length := by
  match line with
  | [] => exact absurd trivial breaks
  | [_] => exact absurd trivial breaks
  | _ :: ⟨_ + 1, _⟩ :: _ => exact absurd trivial breaks
  | ⟨n, first⟩ :: ⟨0, second⟩ :: rest =>
    have escape : first = 0x1B := by
      by_contra other
      exact breaks fun eq => absurd eq other
    subst escape
    have event : inputReadSerialEvent ⟨true, ⟨0, 0x1B⟩ :: ⟨0, second⟩ :: rest⟩ =
        readSequence 0x1B ⟨true, ⟨0, second⟩ :: rest⟩ := readSerialEvent_escape
    by_cases bracket : second = 0x5B
    · subst bracket
      cases rest with
      | nil =>
        left
        rw [inputGetevent_cons idle, event, readSequence_bracket_nil]
        rfl
      | cons third rest =>
        have no : arrow third.byte = none := by
          by_contra letter
          exact breaks fun _ => ⟨rfl, third, rest, rfl, Option.isSome_iff_ne_none.2 letter⟩
        right
        rw [readSequence_bracket, no] at event
        refine ⟨_, [0x1B, 0x5B, third.byte], rest, .of_event idle event rfl, ?_⟩
        show 1 < 3
        decide
    · right
      rw [readSequence_other bracket] at event
      refine ⟨_, [0x1B, second], rest, .of_event idle event rfl, ?_⟩
      show 1 < 2
      decide

end

/-! ## Successive calls -/

/-- The bytes that came in, what is left of them, and the events so far. -/
structure SerialRun where
  stream : List Arrival
  line : List Arrival
  returned : List InputEvent

/-- `input_getevent` again and again, the keyboard as it is. -/
def serialInput (k : Keyboard) : Lts SerialRun Unit where
  Init q := q.line = q.stream ∧ q.returned = []
  Step q _ q' := ∃ e k' s, inputGetevent k ⟨true, q.line⟩ = some (e, k', s) ∧
    q' = ⟨q.stream, s.line, q.returned ++ [e]⟩

/-- The events account for the bytes that are gone. -/
def Accounted (q : SerialRun) : Prop := ∃ read, bytes q.stream = read ++ bytes q.line ∧ Accounts read q.returned

/-- The bytes that the events can deliver, with those left, are all that came in. -/
def Lossless (q : SerialRun) : Prop := (q.returned.map weight).sum + q.line.length = q.stream.length

/-- They are never more. -/
def Covered (q : SerialRun) : Prop := (q.returned.map weight).sum + q.line.length ≤ q.stream.length

section

variable {k : Keyboard} {q q' : SerialRun}

/-- What the step is, from what the call is. -/
theorem Returns.step {e : InputEvent} {taken : List (BitVec 8)} {line' : List Arrival} {label : Unit}
    (returns : Returns k q.line e taken line') (step : (serialInput k).Step q label q') :
    q' = ⟨q.stream, line', q.returned ++ [e]⟩ := by
  obtain ⟨e', k', s, call, eq⟩ := step
  rw [returns.call] at call
  cases call
  exact eq

theorem step_accounted (idle : keyboardHasInput k = false) {label : Unit} (continues : Continues q.line)
    (accounted : Accounted q) (step : (serialInput k).Step q label q') : Accounted q' := by
  have some : q.line ≠ [] := by
    intro empty
    obtain ⟨e, k', s, call, -⟩ := step
    rw [empty, inputGetevent_nil idle] at call
    cases call
  obtain ⟨e, taken, line', returns, delivers⟩ := call_delivers idle some continues
  obtain ⟨read, split, accounts⟩ := accounted
  rw [returns.step step]
  refine ⟨read ++ taken, ?_, accounts.snoc delivers⟩
  rw [split, returns.read, List.append_assoc]

theorem Accounted.lossless (h : Accounted q) : Lossless q := by
  obtain ⟨read, split, accounts⟩ := h
  have lengths := congrArg List.length split
  rw [List.length_append, bytes, bytes, List.length_map, List.length_map, accounts.length] at lengths
  exact lengths.symm

/-- **What one step does to the count**: a byte that is dropped is never made up for. -/
theorem step_covered (idle : keyboardHasInput k = false) {label : Unit} (covered : Covered q)
    (step : (serialInput k).Step q label q') : Covered q' ∧ (Lossless q' → Lossless q ∧ Continues q.line) := by
  have effect : ∃ e taken line', Returns k q.line e taken line' ∧ weight e ≤ taken.length ∧
      (weight e = taken.length → Continues q.line) := by
    by_cases continues : Continues q.line
    · have some : q.line ≠ [] := by
        intro empty
        obtain ⟨e, k', s, call, -⟩ := step
        rw [empty, inputGetevent_nil idle] at call
        cases call
      obtain ⟨e, taken, line', returns, delivers⟩ := call_delivers idle some continues
      exact ⟨e, taken, line', returns, Nat.le_of_eq delivers.length.symm, fun _ => continues⟩
    · cases call_loses idle continues with
      | inl waits =>
        obtain ⟨e, k', s, call, -⟩ := step
        rw [waits] at call
        cases call
      | inr dropped =>
        obtain ⟨e, taken, line', returns, fewer⟩ := dropped
        exact ⟨e, taken, line', returns, Nat.le_of_lt fewer, fun eq => absurd eq (Nat.ne_of_lt fewer)⟩
  obtain ⟨e, taken, line', returns, fewer, exact⟩ := effect
  have lengths := congrArg List.length returns.read
  rw [List.length_append, bytes, bytes, List.length_map, List.length_map] at lengths
  rw [returns.step step]
  unfold Covered Lossless at *
  rw [List.map_append, List.map_singleton, List.sum_append, List.sum_singleton]
  dsimp only
  constructor
  · omega
  · intro lossless
    have all : weight e = taken.length := by omega
    exact ⟨by omega, exact all⟩

variable {as : List Unit}

theorem run_covered (idle : keyboardHasInput k = false) (run : (serialInput k).Run as q) : Covered q := by
  apply run.invariant
  · intro q init
    obtain ⟨whole, nothing⟩ := init
    rw [Covered, whole, nothing]
    exact Nat.le_of_eq (Nat.zero_add _)
  · intro q a q' covered step
    exact (step_covered idle covered step).1

/-- The steps at which sequences go on. -/
abbrev continuing (k : Keyboard) : Lts SerialRun Unit := (serialInput k).restrict fun q _ => Continues q.line

theorem run_accounted (idle : keyboardHasInput k = false) (run : (continuing k).Run as q) : Accounted q := by
  apply run.invariant
  · intro q init
    obtain ⟨whole, nothing⟩ := init
    refine ⟨[], ?_, ?_⟩
    · rw [whole, List.nil_append]
    · rw [nothing]
      exact .nil
  · intro q a q' accounted step
    exact step_accounted idle step.1 accounted step.2

theorem run_continuing (idle : keyboardHasInput k = false) (run : (serialInput k).Run as q) (lossless : Lossless q) :
    (continuing k).Run as q := by
  induction run with
  | start init => exact .start init
  | snoc run step ih =>
    obtain ⟨before, continues⟩ := (step_covered idle (run_covered idle run) step).2 lossless
    exact (ih before).snoc ⟨continues, step⟩

/-- **When no byte is lost.** After any run of calls the events account for the bytes that are
gone iff at each call an ESC whose successor was seen went on to a whole sequence; where that is
so of the next call too, it returns as long as a byte is left. -/
theorem serial_bytes_accounted (idle : keyboardHasInput k = false) (run : (serialInput k).Run as q) :
    (Accounted q ↔ (continuing k).Run as q) ∧
      (Continues q.line → q.line ≠ [] → ∃ e s, inputGetevent k ⟨true, q.line⟩ = some (e, k, s)) := by
  constructor
  · constructor
    · intro accounted
      exact run_continuing idle run accounted.lossless
    · intro restricted
      exact run_accounted idle restricted
  · intro continues some
    obtain ⟨e, taken, line', returns, -⟩ := call_delivers idle some continues
    exact ⟨e, _, returns.call⟩

end

/-- A keyboard without input. -/
def idleKeyboard : Keyboard := ⟨false, false, fun _ => ⟨.char, 0⟩, 0, 0⟩

/-- The up arrow, then a carriage return that the first poll misses. -/
def arrowThenReturn : List Arrival := [⟨0, 0x1B⟩, ⟨0, 0x5B⟩, ⟨0, 0x41⟩, ⟨1, 0x0D⟩]

theorem serial_bytes_accounted_arrow :
    Accounted ⟨arrowThenReturn, [], [⟨.up, 0⟩, ⟨.char, 0x0A⟩]⟩ := by
  have start : (continuing idleKeyboard).Run [] ⟨arrowThenReturn, arrowThenReturn, []⟩ := .start ⟨rfl, rfl⟩
  have arrow : (continuing idleKeyboard).Run [()] ⟨arrowThenReturn, [⟨1, 0x0D⟩], [⟨.up, 0⟩]⟩ :=
    start.snoc ⟨fun _ => ⟨rfl, _, _, rfl, rfl⟩, _, _, _, rfl, rfl⟩
  have both : (continuing idleKeyboard).Run [(), ()] ⟨arrowThenReturn, [], [⟨.up, 0⟩, ⟨.char, 0x0A⟩]⟩ :=
    arrow.snoc ⟨trivial, _, _, _, rfl, rfl⟩
  exact (serial_bytes_accounted rfl both.unrestrict).1.2 both

/-- An ESC, and a newline that is there at the next poll. -/
def escapeThenNewline : List Arrival := [⟨0, 0x1B⟩, ⟨0, 0x0A⟩]

/-- The newline is gone. -/
theorem newline_after_escape_lost :
    (serialInput idleKeyboard).Run [()] ⟨escapeThenNewline, [], [⟨.char, 0x1B⟩]⟩ ∧
      ¬ Accounted ⟨escapeThenNewline, [], [⟨.char, 0x1B⟩]⟩ := by
  constructor
  · have start : (serialInput idleKeyboard).Run [] ⟨escapeThenNewline, escapeThenNewline, []⟩ := .start ⟨rfl, rfl⟩
    exact start.snoc ⟨_, _, _, rfl, rfl⟩
  · intro accounted
    have count := accounted.lossless
    revert count
    unfold Lossless
    decide

end SimpleKernel.Input
