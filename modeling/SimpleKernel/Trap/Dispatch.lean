import SimpleKernel.Lib.Pic
import SimpleKernel.Input.Queue
import SimpleKernel.SystemTimer

/-!
# `trap.c`: the interrupt controllers and `trap_dispatch`

Two controllers: the lines of the slave reach the processor over line 2 of the master. `trap_dispatch`
is modelled for the vectors of the controllers; what it prints of an exception is left out.
-/

namespace SimpleKernel.Trap
set_option autoImplicit false
open Lib Input SystemTimer

def pic1Command : BitVec 16 := 0x20
def pic1Data : BitVec 16 := 0x21
def pic2Command : BitVec 16 := 0xA0
def pic2Data : BitVec 16 := 0xA1

structure Pics where
  master : Pic
  slave : Pic

/-- `outb` to a port of a controller; `none` for other ports, and for words that `Pic` does not describe. -/
def outb (p : Pics) (port : BitVec 16) (value : BitVec 8) : Option Pics :=
  if port = pic1Command then (p.master.command value).map fun master => { p with master }
  else if port = pic1Data then (p.master.data value).map fun master => { p with master }
  else if port = pic2Command then (p.slave.command value).map fun slave => { p with slave }
  else if port = pic2Data then (p.slave.data value).map fun slave => { p with slave }
  else none

def picRemap (p : Pics) : Option Pics := do
  let p ← outb p pic1Command 0x11
  let p ← outb p pic2Command 0x11
  let p ← outb p pic1Data 0x20
  let p ← outb p pic2Data 0x28
  let p ← outb p pic1Data 0x04
  let p ← outb p pic2Data 0x02
  let p ← outb p pic1Data 0x01
  let p ← outb p pic2Data 0x01
  let p ← outb p pic1Data 0xF8
  outb p pic2Data 0xFF

def picSendEoi (p : Pics) (irq : BitVec 8) : Option Pics := do
  let p ← if irq ≥ 8 then outb p pic2Command 0x20 else some p
  outb p pic1Command 0x20

/-- The acknowledge cycles of the processor: the vector, named by the slave for its line. -/
def inta (p : Pics) : Nat × Pics :=
  let (n, master) := p.master.acknowledge
  if p.master.int && p.master.cascade.getLsbD n then
    let (k, slave) := p.slave.acknowledge
    (p.slave.base.toNat + k.val, ⟨master, slave⟩)
  else (p.master.base.toNat + n.val, { p with master })

/-- The keyboard controller: the byte that waits at port `0x60`, and the one read last. -/
structure KeyboardPort where
  outputBuffer : Option (BitVec 8)
  last : BitVec 8

/-- `inb(KEYBOARD_DATA_PORT)`. -/
def inbKeyboard (p : KeyboardPort) : BitVec 8 × KeyboardPort :=
  match p.outputBuffer with
  | none => (p.last, p)
  | some byte => (byte, ⟨none, byte⟩)

/-- What the handlers change. -/
structure Handled where
  timerTicks : Nat
  port : KeyboardPort
  queue : QueueState

def keyboardHandler (h : Handled) : Handled :=
  let (scancode, port) := inbKeyboard h.port
  { h with port, queue := interrupt h.queue scancode }

/-- `trap_dispatch` up to its call of `pic_send_eoi`, with the argument of that. `none` where it does not
return: for an exception, and where it panics. -/
def trapDispatch (vector : Nat) (h : Handled) : Option (BitVec 8 × Handled) :=
  if vector < 32 then none
  else
    match vector with
    | 32 => some (0, { h with timerTicks := systemTimerTick h.timerTicks })
    | 33 => some (1, keyboardHandler h)
    | 39 => some (7, h)
    | _ => none

/-! ## After `pic_remap` -/

/-- A controller that has been set up. -/
structure SetUp (p : Pic) (base cascade imr : BitVec 8) : Prop where
  expects : p.expects = .ocw1
  base : p.base = base
  cascade : p.cascade = cascade
  auto : p.auto = false
  imr : p.imr = imr

/-- **`pic_remap`**, from any state of the controllers. -/
theorem picRemap_spec (p : Pics) :
    ∃ q, picRemap p = some q ∧ SetUp q.master 0x20 0x04 0xF8 ∧ SetUp q.slave 0x28 0x02 0xFF ∧
    q.master.irr = noLines ∧ q.master.isr = noLines ∧ q.slave.irr = noLines ∧ q.slave.isr = noLines :=
  ⟨_, rfl, ⟨rfl, rfl, rfl, rfl, rfl⟩, ⟨rfl, rfl, rfl, rfl, rfl⟩, rfl, rfl, rfl, rfl⟩

/-- The end of an interrupt of the master. -/
theorem picSendEoi_master {p : Pics} {irq : BitVec 8} (low : irq < 8) :
    picSendEoi p irq = some { p with master := p.master.endOfInterrupt } := by
  have first : ¬ irq ≥ 8 := BitVec.not_le.2 low
  unfold picSendEoi
  rw [if_neg first]
  rfl

end SimpleKernel.Trap
