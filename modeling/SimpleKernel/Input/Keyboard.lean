import SimpleKernel.Kstring

/-!
# `keyboard.c`: scancodes and the event queue

`keyboard_process_scancode` runs in the keyboard interrupt, the other functions in the
interrupted code. The queue is an array of 256 slots with 16-bit indices: `head` is the
next slot to write, `tail` the next to read.
-/

namespace SimpleKernel.Input
set_option autoImplicit false
open Kstring

inductive InputEventType where
  | char
  | up
  | down
  | left
  | right
  deriving DecidableEq, Repr

structure InputEvent where
  type : InputEventType
  ch : BitVec 8
  deriving DecidableEq, Repr

def inputBufferSize : Nat := 256

theorem inputBufferSize_eq : inputBufferSize = 256 := rfl

def keyExtendedPrefix : BitVec 8 := 0xE0
def keyLshift : BitVec 8 := 0x2A
def keyRshift : BitVec 8 := 0x36
def keyLshiftRelease : BitVec 8 := 0xAA
def keyRshiftRelease : BitVec 8 := 0xB6
def keyArrowUp : BitVec 8 := 0x48
def keyArrowLeft : BitVec 8 := 0x4B
def keyArrowRight : BitVec 8 := 0x4D
def keyArrowDown : BitVec 8 := 0x50

/-- US layout, eight scancodes a row. -/
def scancodeToAscii : List (BitVec 8) := [
  0, 0, 0x31, 0x32, 0x33, 0x34, 0x35, 0x36,
  0x37, 0x38, 0x39, 0x30, 0x2D, 0x3D, 0x08, 0x09,
  0x71, 0x77, 0x65, 0x72, 0x74, 0x79, 0x75, 0x69,
  0x6F, 0x70, 0x5B, 0x5D, 0x0A, 0, 0x61, 0x73,
  0x64, 0x66, 0x67, 0x68, 0x6A, 0x6B, 0x6C, 0x3B,
  0x27, 0x60, 0, 0x5C, 0x7A, 0x78, 0x63, 0x76,
  0x62, 0x6E, 0x6D, 0x2C, 0x2E, 0x2F, 0, 0x2A,
  0, 0x20, 0, 0, 0, 0, 0, 0]

def scancodeToAsciiShift : List (BitVec 8) := [
  0, 0, 0x21, 0x40, 0x23, 0x24, 0x25, 0x5E,
  0x26, 0x2A, 0x28, 0x29, 0x5F, 0x2B, 0x08, 0x09,
  0x51, 0x57, 0x45, 0x52, 0x54, 0x59, 0x55, 0x49,
  0x4F, 0x50, 0x7B, 0x7D, 0x0A, 0, 0x41, 0x53,
  0x44, 0x46, 0x47, 0x48, 0x4A, 0x4B, 0x4C, 0x3A,
  0x22, 0x7E, 0, 0x7C, 0x5A, 0x58, 0x43, 0x56,
  0x42, 0x4E, 0x4D, 0x3C, 0x3E, 0x3F, 0, 0x2A,
  0, 0x20, 0, 0, 0, 0, 0, 0]

/-- The static variables of `keyboard.c`. -/
structure Keyboard where
  shiftPressed : Bool
  extendedPrefix : Bool
  inputQueue : Nat → InputEvent
  inputQueueHead : Nat
  inputQueueTail : Nat

def keyboardEventChar (c : BitVec 8) : InputEvent := ⟨.char, c⟩

def keyboardEventSpecial (type : InputEventType) : InputEvent := ⟨type, 0⟩

/-- The slot after the head, where `queue_event` would stop. -/
def nextHead (k : Keyboard) : Nat := (k.inputQueueHead + 1) % inputBufferSize

def queueEvent (k : Keyboard) (event : InputEvent) : Keyboard :=
  if nextHead k ≠ k.inputQueueTail then
    { k with inputQueue := setCell k.inputQueue k.inputQueueHead event, inputQueueHead := nextHead k }
  else k

/-- `ascii` of `keyboard_process_scancode`, `0` outside the tables. -/
def scancodeAscii (shift : Bool) (scancode : BitVec 8) : BitVec 8 :=
  if scancode.toNat < scancodeToAscii.length then
    if shift then scancodeToAsciiShift.getD scancode.toNat 0 else scancodeToAscii.getD scancode.toNat 0
  else 0

/-- The two flags after a scancode and the event that it queues, if any. -/
def decodeScancode (shift extended : Bool) (scancode : BitVec 8) : Bool × Bool × Option InputEvent :=
  if scancode = keyExtendedPrefix then (shift, true, none)
  else if extended then
    if scancode &&& 0x80 ≠ 0 then (shift, false, none)
    else if scancode = keyArrowUp then (shift, false, some (keyboardEventSpecial .up))
    else if scancode = keyArrowDown then (shift, false, some (keyboardEventSpecial .down))
    else if scancode = keyArrowLeft then (shift, false, some (keyboardEventSpecial .left))
    else if scancode = keyArrowRight then (shift, false, some (keyboardEventSpecial .right))
    else (shift, false, none)
  else if scancode = keyLshift ∨ scancode = keyRshift then (true, false, none)
  else if scancode = keyLshiftRelease ∨ scancode = keyRshiftRelease then (false, false, none)
  else if scancode &&& 0x80 ≠ 0 then (shift, false, none)
  else
    let ascii := scancodeAscii shift scancode
    (shift, false, if ascii ≠ 0 then some (keyboardEventChar ascii) else none)

def keyboardProcessScancode (k : Keyboard) (scancode : BitVec 8) : Keyboard :=
  let (shift, extended, event) := decodeScancode k.shiftPressed k.extendedPrefix scancode
  let k := { k with shiftPressed := shift, extendedPrefix := extended }
  match event with
  | some event => queueEvent k event
  | none => k

def keyboardHasInput (k : Keyboard) : Bool := k.inputQueueHead != k.inputQueueTail

/-- `input_queue[input_queue_tail]`. -/
def tailEvent (k : Keyboard) : InputEvent := k.inputQueue k.inputQueueTail

/-- `input_queue_tail = (input_queue_tail + 1) % INPUT_BUFFER_SIZE`. -/
def advanceTail (k : Keyboard) : Keyboard :=
  { k with inputQueueTail := (k.inputQueueTail + 1) % inputBufferSize }

/-- One pass of `keyboard_getevent` when there is input; without input it waits. -/
def keyboardGetevent (k : Keyboard) : Option (InputEvent × Keyboard) :=
  if keyboardHasInput k then some (tailEvent k, advanceTail k) else none

def keyboardResetState (k : Keyboard) : Keyboard :=
  { k with shiftPressed := false, extendedPrefix := false, inputQueueHead := 0, inputQueueTail := 0 }

end SimpleKernel.Input
