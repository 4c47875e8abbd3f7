import Mathlib.Logic.Function.Iterate
import Mathlib.Tactic.Common

/-!
# The transmitter of a serial port

A 16550 UART. A byte that is written waits in the queue of the transmitter and leaves it for the line between two
accesses of the program; how many leave is up to the line (`Turns`). What is on the line and what waits is one stream
of frames: the transmitter does not change it (`stream_transmits`), and a byte written while there is room goes to its
end (`stream_write`).
-/

namespace Lib
set_option autoImplicit false

/-- A byte on the line, with the divisor of the clock and the format it is sent in. -/
structure Frame where
  byte : BitVec 8
  divisor : BitVec 16
  format : BitVec 8
  deriving DecidableEq, Repr

structure Uart where
  ier : BitVec 8
  lcr : BitVec 8
  mcr : BitVec 8
  fifos : Bool
  divisor : BitVec 16
  pending : List (BitVec 8)
  line : List Frame
  lost : List (BitVec 8)

namespace Uart

/-- The first two registers are the divisor latch. -/
def dlab (u : Uart) : Bool := u.lcr.getLsbD 7

/-- The transmitter is connected to the receiver and not to the line. -/
def loop (u : Uart) : Bool := u.mcr.getLsbD 4

def depth (u : Uart) : Nat := if u.fifos then 16 else 1

def frame (u : Uart) (b : BitVec 8) : Frame := ⟨b, u.divisor, u.lcr &&& 0x7F⟩

/-- A byte leaves the queue. -/
def transmit (u : Uart) : Uart :=
  match u.pending with
  | [] => u
  | b :: rest => { u with pending := rest, line := if u.loop then u.line else u.line ++ [u.frame b] }

/-- A write to the register at an offset. -/
def write (u : Uart) (offset : Nat) (v : BitVec 8) : Uart :=
  match offset with
  | 0 =>
    if u.dlab then { u with divisor := (u.divisor &&& 0xFF00#16) ||| v.setWidth 16 }
    else if u.pending.length < u.depth then { u with pending := u.pending ++ [v] }
    else { u with lost := u.lost ++ [v] }
  | 1 =>
    if u.dlab then { u with divisor := (u.divisor &&& 0x00FF#16) ||| v.setWidth 16 <<< 8 }
    else { u with ier := v &&& 0x0F }
  -- the queue is cleared by its bit, and when it is turned on or off
  | 2 => { u with
      fifos := v.getLsbD 0
      pending := if v.getLsbD 2 || v.getLsbD 0 != u.fifos then [] else u.pending }
  | 3 => { u with lcr := v }
  | 4 => { u with mcr := v }
  | _ => u

/-- The bit of the line status for an empty queue. -/
def empty (u : Uart) : Bool := u.pending.isEmpty

/-- What is on the line and what will be. -/
def stream (u : Uart) : List Frame := u.line ++ u.pending.map u.frame

/-- As it was but for the queue and the line. -/
def moved (u : Uart) (pending : List (BitVec 8)) (line : List Frame) : Uart := { u with pending, line }

section

variable {u : Uart} {b : BitVec 8} {n : Nat}

/-- **The transmitter**: the first bytes of the queue go to the line in order. -/
theorem transmits_eq (open' : u.loop = false) (n : Nat) :
    transmit^[n] u = u.moved (u.pending.drop n) (u.line ++ (u.pending.take n).map u.frame) := by
  induction n generalizing u with
  | zero =>
    show u = u.moved u.pending (u.line ++ [])
    rw [List.append_nil]
    rfl
  | succ n ih =>
    rw [Function.iterate_succ_apply]
    cases queue : u.pending with
    | nil =>
      have still : u.transmit = u := by rw [transmit, queue]
      rw [still, ih open', queue, List.drop_nil, List.take_nil, List.drop_nil, List.take_nil]
    | cons b rest =>
      have one : u.transmit = u.moved rest (u.line ++ [u.frame b]) := by
        rw [transmit, queue, open']
        rfl
      rw [one, @ih (u.moved rest (u.line ++ [u.frame b])) open']
      show u.moved (rest.drop n) (u.line ++ [u.frame b] ++ (rest.take n).map u.frame) = _
      rw [List.append_assoc]
      rfl

theorem stream_transmits (open' : u.loop = false) (n : Nat) : (transmit^[n] u).stream = u.stream := by
  rw [transmits_eq open']
  show u.line ++ (u.pending.take n).map u.frame ++ (u.pending.drop n).map u.frame = u.stream
  rw [List.append_assoc, ← List.map_append, List.take_append_drop]
  rfl

/-- A byte that there is room for. -/
theorem write_room (data : u.dlab = false) (room : u.pending.length < u.depth) :
    u.write 0 b = u.moved (u.pending ++ [b]) u.line := by
  unfold write
  rw [data]
  exact if_pos room

theorem stream_write (data : u.dlab = false) (room : u.pending.length < u.depth) :
    (u.write 0 b).stream = u.stream ++ [u.frame b] := by
  rw [write_room data room]
  show u.line ++ (u.pending ++ [b]).map u.frame = u.line ++ u.pending.map u.frame ++ [u.frame b]
  rw [List.map_append, List.append_assoc]
  rfl

theorem depth_pos (u : Uart) : 0 < u.depth := by
  unfold depth
  split <;> decide

theorem transmits_empty (queue : u.pending = []) (n : Nat) : transmit^[n] u = u :=
  Function.iterate_fixed (by rw [transmit, queue]) n

/-- Whatever is connected, only the queue changes and the line. -/
theorem transmits_moved (u : Uart) (n : Nat) :
    ∃ pending line, transmit^[n] u = u.moved pending line ∧ u.line <+: line := by
  induction n generalizing u with
  | zero => exact ⟨_, _, rfl, List.prefix_rfl⟩
  | succ n ih =>
    rw [Function.iterate_succ_apply]
    cases queue : u.pending with
    | nil =>
      have still : u.transmit = u := by rw [transmit, queue]
      rw [still]
      exact ih u
    | cons b rest =>
      obtain ⟨line, one, longer⟩ : ∃ line, u.transmit = u.moved rest line ∧ u.line <+: line := by
        rw [transmit, queue]
        refine ⟨_, rfl, ?_⟩
        split
        · exact List.prefix_rfl
        · exact List.prefix_append _ _
      obtain ⟨pending', line', eq, longer'⟩ := ih (u.moved rest line)
      rw [one]
      exact ⟨pending', line', eq, longer.trans longer'⟩

/-- A register does not depend on what waits. -/
theorem write_moved {offset : Nat} (register : offset ≠ 0 ∨ u.dlab = true) (v : BitVec 8) (pending : List (BitVec 8))
    (line : List Frame) :
    ∃ pending', (u.moved pending line).write offset v = (u.write offset v).moved pending' line := by
  have same : (u.moved pending line).dlab = u.dlab := rfl
  match offset with
  | 0 =>
    have latch : u.dlab = true := register.resolve_left fun other => other rfl
    refine ⟨pending, ?_⟩
    rw [write, write, same, latch]
    rfl
  | 1 =>
    refine ⟨pending, ?_⟩
    rw [write, write, same]
    cases u.dlab with
    | true => rfl
    | false => rfl
  | 2 => exact ⟨_, rfl⟩
  | 3 => exact ⟨_, rfl⟩
  | 4 => exact ⟨_, rfl⟩
  | _ + 5 => exact ⟨_, rfl⟩

end

/-- The bytes have been sent in the format that is set, after those before; nothing else has changed. -/
def Sent (u : Uart) (bytes : List (BitVec 8)) (u' : Uart) : Prop :=
  ∃ pending line, u' = u.moved pending line ∧ u'.stream = u.stream ++ bytes.map u.frame

section

variable {u u' u'' : Uart} {bytes bytes' : List (BitVec 8)}

theorem Sent.refl (u : Uart) : Sent u [] u := ⟨_, _, rfl, (List.append_nil _).symm⟩

theorem Sent.trans (h : Sent u bytes u') (h' : Sent u' bytes' u'') : Sent u (bytes ++ bytes') u'' := by
  obtain ⟨pending, line, rfl, stream⟩ := h
  obtain ⟨pending', line', rfl, stream'⟩ := h'
  refine ⟨pending', line', rfl, ?_⟩
  rw [stream', stream, List.map_append, List.append_assoc]
  rfl

/-- The transmitter goes on. -/
theorem Sent.transmits (h : Sent u bytes u') (open' : u.loop = false) (n : Nat) : Sent u bytes (transmit^[n] u') := by
  obtain ⟨pending, line, rfl, stream⟩ := h
  obtain ⟨pending', line', eq, -⟩ := transmits_moved (u.moved pending line) n
  exact ⟨pending', line', eq, (@stream_transmits (u.moved pending line) open' n).trans stream⟩

/-- One byte more. -/
theorem Sent.write (h : Sent u bytes u') (data : u.dlab = false) (room : u'.pending.length < u'.depth) (b : BitVec 8) :
    Sent u (bytes ++ [b]) (u'.write 0 b) := by
  obtain ⟨pending, line, rfl, stream⟩ := h
  have still : (u.moved pending line).dlab = false := data
  refine ⟨pending ++ [b], line, write_room still room, ?_⟩
  rw [stream_write still room, stream, List.map_append, List.append_assoc]
  rfl

end

end Uart

/-! ## Accesses -/

/-- Before an access: how many bytes leave, and the bits of the line status that the queue does not decide. -/
structure Turn where
  leaving : Nat
  status : BitVec 8

abbrev Turns := Nat → Turn

/-- The line never stops for good. -/
def Turns.Fair (turns : Turns) : Prop := ∀ n, ∃ k, n ≤ k ∧ 0 < (turns k).leaving

/-- The device and the accesses so far. -/
structure Port where
  uart : Uart
  accesses : Nat

namespace Port

/-- The registers are those of `u`, and the line has gone on from `start`. -/
def Like (u : Uart) (start : List Frame) (p : Port) : Prop :=
  ∃ pending line, start <+: line ∧ p.uart = u.moved pending line

variable (turns : Turns)

/-- The device at the next access. -/
def next (p : Port) : Uart := Uart.transmit^[(turns p.accesses).leaving] p.uart

def outb (p : Port) (offset : Nat) (v : BitVec 8) : Port := ⟨(p.next turns).write offset v, p.accesses + 1⟩

/-- The line status register, and the device after it is read. -/
def lineStatus (p : Port) : BitVec 8 × Port :=
  let status := (turns p.accesses).status &&& 0xDF
  (if (p.next turns).empty then status ||| 0x20 else status, ⟨p.next turns, p.accesses + 1⟩)

section

variable {turns} {p : Port}

theorem next_pending (open' : p.uart.loop = false) :
    (p.next turns).pending = p.uart.pending.drop (turns p.accesses).leaving := by
  rw [next, Uart.transmits_eq open']
  rfl

theorem next_loop (p : Port) : (p.next turns).loop = p.uart.loop := by
  obtain ⟨pending, line, eq, -⟩ := p.uart.transmits_moved (turns p.accesses).leaving
  rw [next, eq]
  rfl

theorem next_like (turns : Turns) {u : Uart} {start : List Frame} (h : Like u start p) :
    ∃ pending line, start <+: line ∧ p.next turns = u.moved pending line := by
  obtain ⟨pending, line, longer, eq⟩ := h
  obtain ⟨pending', line', moved, longer'⟩ := p.uart.transmits_moved (turns p.accesses).leaving
  rw [eq] at moved longer'
  refine ⟨pending', line', longer.trans longer', ?_⟩
  rw [next, eq, moved]
  rfl

theorem Like.outb {u : Uart} {start : List Frame} (h : Like u start p) (turns : Turns) (offset : Nat)
    (v : BitVec 8) (register : offset ≠ 0 ∨ u.dlab = true) : Like (u.write offset v) start (p.outb turns offset v) := by
  obtain ⟨pending, line, longer, eq⟩ := next_like turns h
  obtain ⟨pending', written⟩ := u.write_moved register v pending line
  refine ⟨pending', line, longer, ?_⟩
  rw [Port.outb, eq, written]

/-- The bit that drivers wait for. -/
theorem status_empty (p : Port) : (p.lineStatus turns).1 &&& 0x20 ≠ 0 ↔ (p.next turns).pending = [] := by
  have masked : ∀ v : BitVec 8, v &&& 0x20 ≠ 0 ↔ v.getLsbD 5 = true := by decide
  have cleared : ((turns p.accesses).status &&& 0xDF).getLsbD 5 = false := by
    rw [BitVec.getLsbD_and]
    exact Bool.and_false _
  rw [masked, lineStatus, Uart.empty]
  cases (p.next turns).pending with
  | nil =>
    refine iff_of_true ?_ rfl
    show ((turns p.accesses).status &&& 0xDF ||| 0x20).getLsbD 5 = true
    rw [BitVec.getLsbD_or]
    exact Bool.or_true _
  | cons b rest =>
    refine iff_of_false ?_ (List.cons_ne_nil b rest)
    show ¬ ((turns p.accesses).status &&& 0xDF).getLsbD 5 = true
    rw [cleared]
    exact Bool.false_ne_true

end

end Port

end Lib
