import SimpleKernel.Input.Scancodes
import SimpleKernel.Trap.Dispatch

/-!
# Hardware interrupts

The devices, the controllers, the processor and `trap_dispatch` take steps in any order. The gates are
interrupt gates, so that no interrupt is accepted while one is served. A state also remembers what the
devices have done (`Ledger`). Only the vectors of the timer, of the keyboard and of a request that is gone ever
get to `trap_dispatch` (`irq_served`); every tick that the controller has latched is counted once (`ticks_conserved`),
and in time (`tick_latency`); every byte of the keyboard is processed once and in order (`keys_conserved`).
-/

namespace SimpleKernel.Trap
set_option autoImplicit false
open Lib Input SystemTimer

/-! ## The system -/

/-- What the processor does next about interrupts. -/
inductive Phase where
  | interruptible
  | acknowledging
  | entered (vector : Nat)
  | ending (irq : BitVec 8)
  | stopped
  deriving DecidableEq, Repr

/-- What the devices have done: ticks that the controller latched, those that were gone when the processor
asked, and the bytes sent and processed. `stale` was waiting when the controllers were set up. -/
structure Ledger where
  latched : Nat
  lapsed : Nat
  sent : List (BitVec 8)
  processed : List (BitVec 8)
  stale : Option (BitVec 8)

structure Machine extends Handled where
  pics : Pics
  phase : Phase
  ledger : Ledger

inductive IrqAction where
  /-- An edge of the timer. -/
  | tick
  /-- The timer's line falls again. -/
  | lapse
  /-- A byte of the keyboard, which waits until the one before has been read. -/
  | key (byte : BitVec 8)
  /-- An edge on another line of the master. -/
  | line (n : Fin 8)
  /-- An edge on a line of the slave. -/
  | slaveLine (n : Fin 8)
  /-- The slave's output goes to line 2. -/
  | cascade
  /-- The next step of the processor towards or in a handler. -/
  | cpu
  /-- A step of `keyboard_getevent`, called by the interrupted code. -/
  | consume
  deriving DecidableEq, Repr

/-- Line 0 latches a tick unless one is latched already. -/
def tick (s : Machine) : Machine :=
  { s with
    pics.master := s.pics.master.request 0
    ledger.latched := if s.pics.master.irr 0 then s.ledger.latched else s.ledger.latched + 1 }

def lapse (s : Machine) : Machine :=
  { s with
    pics.master := s.pics.master.withdraw 0
    ledger.lapsed := if s.pics.master.irr 0 then s.ledger.lapsed + 1 else s.ledger.lapsed }

def key (s : Machine) (byte : BitVec 8) : Machine :=
  { s with
    port.outputBuffer := some byte
    pics.master := s.pics.master.request 1
    ledger.sent := s.ledger.sent ++ [byte] }

/-- Sampling the controllers' output, the acknowledge cycles, `trap_dispatch` up to `pic_send_eoi`, and that. -/
def cpuStep (s : Machine) : Option Machine :=
  match s.phase with
  | .interruptible => if s.pics.master.int then some { s with phase := .acknowledging } else none
  | .acknowledging =>
    let (vector, pics) := inta s.pics
    some { s with pics, phase := .entered vector }
  | .entered vector =>
    match trapDispatch vector s.toHandled with
    | none => some { s with phase := .stopped }
    | some (irq, handled) =>
      some { s with
        toHandled := handled
        phase := .ending irq
        ledger.processed :=
          if vector = 33 then s.ledger.processed ++ [(inbKeyboard s.port).1] else s.ledger.processed }
  | .ending irq => (picSendEoi s.pics irq).map fun pics => { s with pics, phase := .interruptible }
  | .stopped => none

def irqStep (s : Machine) : IrqAction → Option Machine
  | .tick => some (tick s)
  | .lapse => some (lapse s)
  | .key byte => if s.port.outputBuffer = none then some (key s byte) else none
  | .line n => if 3 ≤ n then some { s with pics.master := s.pics.master.request n } else none
  | .slaveLine n => some { s with pics.slave := s.pics.slave.request n }
  | .cascade => if s.pics.slave.int then some { s with pics.master := s.pics.master.request 2 } else none
  | .cpu => cpuStep s
  | .consume => if s.phase = .interruptible then some { s with queue := consume s.queue } else none

/-- From the `cpu_sti` of `kernel_main` on: `trap_init` has set up the controllers, whatever they did before,
`keyboard_init` and `system_init_timer` the variables. -/
def interrupts : Lts Machine IrqAction where
  Init s := (∃ p, picRemap p = some s.pics) ∧ s.phase = .interruptible ∧ s.timerTicks = 0 ∧
    (∃ k, s.queue = ⟨keyboardResetState k, .compare, [], []⟩) ∧
    s.ledger = ⟨0, 0, [], [], s.port.outputBuffer⟩
  Step s a s' := irqStep s a = some s'

/-! ## The invariant -/

/-- The line in service. -/
def Phase.line : Phase → Option (Fin 8)
  | .entered 32 => some 0
  | .entered 33 => some 1
  | .ending irq => if irq = 0 then some 0 else if irq = 1 then some 1 else none
  | _ => none

/-- The phases that occur: `trap_dispatch` is entered for three vectors. -/
def Phase.Expected : Phase → Prop
  | .interruptible => True
  | .acknowledging => True
  | .entered vector => vector = 32 ∨ vector = 33 ∨ vector = 39
  | .ending irq => irq = 0 ∨ irq = 1 ∨ irq = 7
  | .stopped => False

/-- **The controllers between and during handlers.** The slave is masked and never heard; of the master
the line being served is in service, and no other. -/
structure Served (s : Machine) : Prop where
  master : SetUp s.pics.master 0x20 0x04 0xF8
  slave : SetUp s.pics.slave 0x28 0x02 0xFF
  noSlave : s.pics.master.irr 2 = false
  service : ∀ n, s.pics.master.isr n = decide (s.phase.line = some n)
  expected : s.phase.Expected

/-- The tick that is being served, before it is counted. -/
def Phase.ticking (phase : Phase) : Nat := if phase = .entered 32 then 1 else 0

/-- **What becomes of a tick** that the controller has latched: it is gone, still latched, about to be counted, or
one of the `counted`. -/
structure TicksKept (s : Machine) (counted : Nat) : Prop where
  value : s.timerTicks = u64 counted
  sum : s.ledger.latched = s.ledger.lapsed + (s.pics.master.irr 0).toNat + s.phase.ticking + counted

/-- **What becomes of a byte**: it is processed or waits, and one that waits is requested or about to be read. A
byte that waited when the controllers were set up waits for ever. -/
structure KeysKept (s : Machine) : Prop where
  order : s.ledger.stale = none → s.ledger.processed ++ s.port.outputBuffer.toList = s.ledger.sent
  waiting : s.ledger.stale = none →
    (s.port.outputBuffer.isSome = true ↔ s.pics.master.irr 1 = true ∨ s.phase = .entered 33)
  once : s.phase = .entered 33 → s.pics.master.irr 1 = false
  stuck : ∀ byte, s.ledger.stale = some byte → s.port.outputBuffer = some byte ∧ s.pics.master.irr 1 = false ∧
    s.phase ≠ .entered 33 ∧ s.ledger.processed = [] ∧ s.ledger.sent = []

section

variable {s s' : Machine} {n : Fin 8} {byte : BitVec 8} {p q : Pic} {base cascade imr : BitVec 8}

/-! ## The controllers -/

theorem SetUp.request (h : SetUp p base cascade imr) (n : Fin 8) : SetUp (p.request n) base cascade imr :=
  ⟨h.expects, h.base, h.cascade, h.auto, h.imr⟩

theorem SetUp.withdraw (h : SetUp p base cascade imr) (n : Fin 8) : SetUp (p.withdraw n) base cascade imr :=
  ⟨h.expects, h.base, h.cascade, h.auto, h.imr⟩

/-- `0xF8` masks the lines from 3 on. -/
theorem unmasked_iff : (0xF8 : BitVec 8).getLsbD n = false ↔ n < 3 := by
  revert n
  decide

/-- `0xFF` masks them all. -/
theorem masked (n : Fin 8) : (0xFF : BitVec 8).getLsbD n = true := by
  revert n
  decide

theorem SetUp.silent (h : SetUp p base cascade 0xFF) : p.int = false := by
  have ineligible : ∀ n, p.eligible n = false := by
    intro n
    by_contra heard
    obtain ⟨-, unmasked, -⟩ := Pic.eligible_iff.1 (Bool.not_eq_false _ ▸ heard)
    rw [h.imr, masked] at unmasked
    cases unmasked
  rw [Pic.int, Pic.next_eq_none.2 ineligible]
  rfl

theorem Served.idle (h : Served s) (none' : s.phase.line = none) : s.pics.master.isr = noLines := by
  funext n
  rw [h.service, none']
  rfl

/-- With nothing in service the timer comes first, then the keyboard. -/
theorem Served.next_cases (h : Served s) (none' : s.phase.line = none) :
    (s.pics.master.next = none ∧ s.pics.master.irr 0 = false ∧ s.pics.master.irr 1 = false) ∨
      (s.pics.master.next = some 0 ∧ s.pics.master.irr 0 = true) ∨
      (s.pics.master.next = some 1 ∧ s.pics.master.irr 0 = false ∧ s.pics.master.irr 1 = true) := by
  have idle := h.idle none'
  have eligible : ∀ n, s.pics.master.eligible n = true ↔ s.pics.master.irr n = true ∧ n < 3 := by
    intro n
    rw [Pic.eligible_iff, h.master.imr, unmasked_iff]
    exact and_congr_right fun _ => and_iff_left fun m _ => congrFun idle m
  have ineligible : ∀ n, s.pics.master.irr n = false → s.pics.master.eligible n = false := by
    intro n quiet
    by_contra heard
    have requested := ((eligible n).1 (Bool.not_eq_false _ ▸ heard)).1
    rw [quiet] at requested
    cases requested
  cases timer : s.pics.master.irr 0 with
  | true =>
    refine .inr (.inl ⟨?_, rfl⟩)
    exact Pic.next_zero idle timer (by rw [h.master.imr]; rfl)
  | false =>
    cases keyboard : s.pics.master.irr 1 with
    | true =>
      refine .inr (.inr ⟨Pic.next_eq_some.2 ⟨(eligible 1).2 ⟨keyboard, by decide⟩, fun m before => ?_⟩, rfl, rfl⟩)
      obtain rfl : m = 0 := by omega
      exact ineligible 0 timer
    | false =>
      refine .inl ⟨Pic.next_eq_none.2 fun n => ?_, rfl, rfl⟩
      by_contra heard
      obtain ⟨requested, below⟩ := (eligible n).1 (Bool.not_eq_false _ ▸ heard)
      obtain rfl | rfl | rfl : n = 0 ∨ n = 1 ∨ n = 2 := by omega
      · rw [timer] at requested
        cases requested
      · rw [keyboard] at requested
        cases requested
      · rw [h.noSlave] at requested
        cases requested

/-! ## The processor -/

/-- The lines that are heard are the master's own. -/
theorem inta_of_next (h : SetUp p 0x20 0x04 0xF8) {k : Fin 8} (low : k < 2) (next : p.next = some k) :
    inta ⟨p, q⟩ = (32 + k.val, ⟨{ p with
      irr := Function.update p.irr k false, isr := Function.update p.isr k true }, q⟩) := by
  have own : p.cascade.getLsbD k = false := by
    rw [h.cascade]
    obtain rfl | rfl : k = 0 ∨ k = 1 := by omega
    · rfl
    · rfl
  unfold inta
  dsimp only
  rw [Pic.acknowledge_of_next next, own, Bool.and_false, if_neg Bool.false_ne_true, h.auto, h.base]
  rfl

theorem inta_none (h : SetUp p 0x20 0x04 0xF8) (next : p.next = none) : inta ⟨p, q⟩ = (39, ⟨p, q⟩) := by
  have silent : p.int = false := by
    rw [Pic.int, next]
    rfl
  unfold inta
  dsimp only
  rw [silent, Bool.false_and, if_neg Bool.false_ne_true, Pic.acknowledge_none next, h.base]
  rfl

/-- **A step of the processor**, from a state as it should be. -/
inductive Turn (s : Machine) : Machine → Prop
  | sample (phase : s.phase = .interruptible) (int : s.pics.master.int = true) :
      Turn s { s with phase := .acknowledging }
  | accept (n : Fin 8) (low : n < 2) (phase : s.phase = .acknowledging) (next : s.pics.master.next = some n) :
      Turn s { s with
        pics.master.irr := Function.update s.pics.master.irr n false
        pics.master.isr := Function.update s.pics.master.isr n true
        phase := .entered (32 + n.val) }
  | gone (phase : s.phase = .acknowledging) (quiet : s.pics.master.irr 0 = false ∧ s.pics.master.irr 1 = false) :
      Turn s { s with phase := .entered 39 }
  | timer (phase : s.phase = .entered 32) :
      Turn s { s with timerTicks := systemTimerTick s.timerTicks, phase := .ending 0 }
  | keyboard (phase : s.phase = .entered 33) :
      Turn s { s with
        toHandled := keyboardHandler s.toHandled
        phase := .ending 1
        ledger.processed := s.ledger.processed ++ [(inbKeyboard s.port).1] }
  | spurious (phase : s.phase = .entered 39) : Turn s { s with phase := .ending 7 }
  | done (irq : BitVec 8) (phase : s.phase = .ending irq) :
      Turn s { s with pics.master.isr := noLines, phase := .interruptible }

/-- The end of an interrupt leaves nothing in service. -/
theorem Served.eoi (h : Served s) {irq : BitVec 8} (phase : s.phase = .ending irq) :
    picSendEoi s.pics irq = some { s.pics with master.isr := noLines } := by
  have expected := h.expected
  have service := h.service
  rw [phase] at expected service
  rw [picSendEoi_master (by rcases expected with rfl | rfl | rfl <;> decide)]
  have line {n : Fin 8} (serving : (Phase.ending irq).line = some n) :
      s.pics.master.endOfInterrupt = { s.pics.master with isr := noLines } := by
    refine Pic.end_acknowledge (p := { s.pics.master with isr := noLines }) (n := n) (fun m _ => rfl) ?_
    funext m
    rw [service, serving]
    unfold Function.update noLines
    by_cases here : m = n
    · subst here
      simp
    · simp [here, Ne.symm here]
  rcases expected with rfl | rfl | rfl
  · rw [line (n := 0) rfl]
  · rw [line (n := 1) rfl]
  · have idle : s.pics.master.isr = noLines := by
      funext m
      rw [service]
      rfl
    rw [Pic.end_idle idle, ← idle]

theorem Served.turn (h : Served s) (step : cpuStep s = some s') : Turn s s' := by
  unfold cpuStep at step
  cases phase : s.phase with
  | interruptible =>
    rw [phase] at step
    dsimp only at step
    split at step
    · rename_i int
      cases step
      exact .sample phase int
    · cases step
  | acknowledging =>
    rw [phase] at step
    dsimp only at step
    rcases h.next_cases (by rw [phase]; rfl) with ⟨next, quiet⟩ | ⟨next, -⟩ | ⟨next, -, -⟩
    · rw [inta_none h.master next] at step
      cases step
      exact .gone phase quiet
    · rw [inta_of_next h.master (by decide) next] at step
      cases step
      exact .accept 0 (by decide) phase next
    · rw [inta_of_next h.master (by decide) next] at step
      cases step
      exact .accept 1 (by decide) phase next
  | entered vector =>
    have expected := h.expected
    rw [phase] at step expected
    rcases expected with rfl | rfl | rfl
    · cases step
      exact .timer phase
    · cases step
      exact .keyboard phase
    · cases step
      exact .spurious phase
  | ending irq =>
    rw [phase] at step
    dsimp only at step
    rw [h.eoi phase] at step
    cases step
    exact .done irq phase
  | stopped =>
    have expected := h.expected
    rw [phase] at expected
    exact expected.elim

/-! ## The invariant is kept -/

theorem Served.cpu (h : Served s) (turn : Turn s s') : Served s' := by
  have quiet {serving : Phase} (phase : s.phase = serving) (none' : serving.line = none) :
      s.pics.master.isr = noLines :=
    h.idle (by rw [phase, none'])
  cases turn with
  | sample phase int =>
    refine ⟨h.master, h.slave, h.noSlave, fun n => ?_, trivial⟩
    rw [h.service, phase]
    rfl
  | accept n low phase next =>
    have other : (2 : Fin 8) ≠ n := by omega
    have line : (Phase.entered (32 + n.val)).line = some n := by
      obtain rfl | rfl : n = 0 ∨ n = 1 := by omega
      · rfl
      · rfl
    refine ⟨⟨h.master.expects, h.master.base, h.master.cascade, h.master.auto, h.master.imr⟩, h.slave, ?_,
      fun m => ?_, ?_⟩
    · exact (Function.update_of_ne other _ _).trans h.noSlave
    · rw [quiet phase rfl]
      dsimp only
      rw [line]
      unfold Function.update noLines
      by_cases here : m = n
      · subst here
        simp
      · simp [here, Ne.symm here]
    · show _ ∨ _ ∨ _
      omega
  | gone phase _ =>
    refine ⟨h.master, h.slave, h.noSlave, fun n => ?_, .inr (.inr rfl)⟩
    rw [h.service, phase]
    rfl
  | timer phase =>
    refine ⟨h.master, h.slave, h.noSlave, fun n => ?_, .inl rfl⟩
    rw [h.service, phase]
    rfl
  | keyboard phase =>
    refine ⟨h.master, h.slave, h.noSlave, fun n => ?_, .inr (.inl rfl)⟩
    rw [h.service, phase]
    rfl
  | spurious phase =>
    refine ⟨h.master, h.slave, h.noSlave, fun n => ?_, .inr (.inr rfl)⟩
    rw [h.service, phase]
    rfl
  | done irq phase =>
    exact ⟨⟨h.master.expects, h.master.base, h.master.cascade, h.master.auto, h.master.imr⟩, h.slave, h.noSlave,
      fun n => rfl, trivial⟩

/-- **The step lemma** for the controllers. -/
theorem Served.step (h : Served s) {a : IrqAction} (step : irqStep s a = some s') : Served s' := by
  have two (n : Fin 8) (v : Bool) (ne : (2 : Fin 8) ≠ n) : Function.update s.pics.master.irr n v 2 = false :=
    (Function.update_of_ne ne _ _).trans h.noSlave
  cases a with
  | tick =>
    cases step
    exact ⟨h.master.request 0, h.slave, two 0 true (by decide), h.service, h.expected⟩
  | lapse =>
    cases step
    exact ⟨h.master.withdraw 0, h.slave, two 0 false (by decide), h.service, h.expected⟩
  | key byte =>
    obtain ⟨-, eq⟩ := Option.ite_none_right_eq_some.1 step
    cases eq
    exact ⟨h.master.request 1, h.slave, two 1 true (by decide), h.service, h.expected⟩
  | line n =>
    obtain ⟨high, eq⟩ := Option.ite_none_right_eq_some.1 step
    cases eq
    exact ⟨h.master.request n, h.slave, two n true (by omega), h.service, h.expected⟩
  | slaveLine n =>
    cases step
    exact ⟨h.master, h.slave.request n, h.noSlave, h.service, h.expected⟩
  | cascade =>
    obtain ⟨int, -⟩ := Option.ite_none_right_eq_some.1 step
    rw [h.slave.silent] at int
    cases int
  | cpu => exact h.cpu (h.turn step)
  | consume =>
    obtain ⟨-, eq⟩ := Option.ite_none_right_eq_some.1 step
    cases eq
    exact ⟨h.master, h.slave, h.noSlave, h.service, h.expected⟩

theorem systemTimerTick_u64 (n : Nat) : systemTimerTick (u64 n) = u64 (n + 1) := iterate_systemTimerTick 1 n

/-- The ticks that a step counts. -/
def counts (s : Machine) (a : IrqAction) : Nat := if a = .cpu then s.phase.ticking else 0

theorem TicksKept.cpu {counted : Nat} (h : TicksKept s counted) (turn : Turn s s') :
    TicksKept s' (counted + s.phase.ticking) := by
  obtain ⟨value, sum⟩ := h
  cases turn with
  | sample phase int =>
    rw [phase] at sum ⊢
    exact ⟨value, sum⟩
  | accept n low phase next =>
    have requested := Pic.requested_of_next next
    rw [phase] at sum ⊢
    obtain rfl | rfl : n = 0 ∨ n = 1 := by omega
    · rw [requested] at sum
      exact ⟨value, sum⟩
    · exact ⟨value, sum⟩
  | gone phase _ =>
    rw [phase] at sum ⊢
    exact ⟨value, sum⟩
  | timer phase =>
    rw [phase] at sum ⊢
    have one : (Phase.entered 32).ticking = 1 := rfl
    rw [one] at sum ⊢
    constructor
    · exact (congrArg systemTimerTick value).trans (systemTimerTick_u64 counted)
    · show s.ledger.latched = s.ledger.lapsed + (s.pics.master.irr 0).toNat + 0 + (counted + 1)
      omega
  | keyboard phase =>
    rw [phase] at sum ⊢
    exact ⟨value, sum⟩
  | spurious phase =>
    rw [phase] at sum ⊢
    exact ⟨value, sum⟩
  | done irq phase =>
    rw [phase] at sum ⊢
    exact ⟨value, sum⟩

/-- **The step lemma** for the ticks. -/
theorem TicksKept.step {counted : Nat} (h : TicksKept s counted) (served : Served s) {a : IrqAction}
    (step : irqStep s a = some s') : TicksKept s' (counted + counts s a) := by
  cases a with
  | tick =>
    obtain ⟨value, sum⟩ := h
    cases step
    refine ⟨value, ?_⟩
    show (if s.pics.master.irr 0 then s.ledger.latched else s.ledger.latched + 1) =
      s.ledger.lapsed + 1 + s.phase.ticking + counted
    cases latched : s.pics.master.irr 0 with
    | true =>
      rw [latched] at sum
      exact sum
    | false =>
      rw [latched, Bool.toNat_false] at sum
      rw [if_neg Bool.false_ne_true]
      omega
  | lapse =>
    obtain ⟨value, sum⟩ := h
    cases step
    refine ⟨value, ?_⟩
    show s.ledger.latched =
      (if s.pics.master.irr 0 then s.ledger.lapsed + 1 else s.ledger.lapsed) + 0 + s.phase.ticking + counted
    cases latched : s.pics.master.irr 0 with
    | true =>
      rw [latched] at sum
      exact sum
    | false =>
      rw [latched] at sum
      exact sum
  | key byte =>
    obtain ⟨-, eq⟩ := Option.ite_none_right_eq_some.1 step
    cases eq
    exact ⟨h.value, h.sum⟩
  | line n =>
    obtain ⟨high, eq⟩ := Option.ite_none_right_eq_some.1 step
    cases eq
    have same : Function.update s.pics.master.irr n true 0 = s.pics.master.irr 0 := Function.update_of_ne (by omega) _ _
    refine ⟨h.value, ?_⟩
    show s.ledger.latched =
      s.ledger.lapsed + (Function.update s.pics.master.irr n true 0).toNat + s.phase.ticking + counted
    rw [same]
    exact h.sum
  | slaveLine n =>
    cases step
    exact ⟨h.value, h.sum⟩
  | cascade =>
    obtain ⟨int, -⟩ := Option.ite_none_right_eq_some.1 step
    rw [served.slave.silent] at int
    cases int
  | cpu => exact h.cpu (served.turn step)
  | consume =>
    obtain ⟨-, eq⟩ := Option.ite_none_right_eq_some.1 step
    cases eq
    exact ⟨h.value, h.sum⟩

/-- The keyboard's line and the bytes are left alone. -/
theorem KeysKept.congr (h : KeysKept s) (line : s'.pics.master.irr 1 = s.pics.master.irr 1)
    (phase : s'.phase = .entered 33 ↔ s.phase = .entered 33) (port : s'.port = s.port)
    (sent : s'.ledger.sent = s.ledger.sent) (processed : s'.ledger.processed = s.ledger.processed)
    (stale : s'.ledger.stale = s.ledger.stale) : KeysKept s' := by
  constructor
  · rw [stale, sent, processed, port]
    exact h.order
  · rw [stale, port, line, phase]
    exact h.waiting
  · rw [phase, line]
    exact h.once
  · intro byte waits
    rw [port, line, Ne, phase, processed, sent]
    exact h.stuck byte (stale ▸ waits)

/-- **Reading the byte**: `keyboard_handler` finds one. -/
theorem KeysKept.read (h : KeysKept s) (phase : s.phase = .entered 33) :
    ∃ byte, s.ledger.stale = none ∧ s.port.outputBuffer = some byte ∧ inbKeyboard s.port = (byte, ⟨none, byte⟩) := by
  cases stale : s.ledger.stale with
  | some byte =>
    obtain ⟨-, -, apart, -⟩ := h.stuck byte stale
    exact absurd phase apart
  | none =>
    obtain ⟨byte, full⟩ := Option.isSome_iff_exists.1 ((h.waiting stale).2 (.inr phase))
    refine ⟨byte, rfl, full, ?_⟩
    unfold inbKeyboard
    rw [full]

/-- A change of another line. -/
theorem line_one (p : Pic) (n : Fin 8) (v : Bool) (ne : (1 : Fin 8) ≠ n) : Function.update p.irr n v 1 = p.irr 1 :=
  Function.update_of_ne ne _ _

theorem KeysKept.cpu (h : KeysKept s) (turn : Turn s s') : KeysKept s' := by
  have other {p : Phase} (phase : s.phase = p) (np : p ≠ .entered 33) (q : Phase) (nq : q ≠ .entered 33) :
      q = .entered 33 ↔ s.phase = .entered 33 := by
    rw [phase]
    exact iff_of_false nq np
  cases turn with
  | sample phase int => exact h.congr rfl (other phase (by decide) .acknowledging (by decide)) rfl rfl rfl rfl
  | accept n low phase next =>
    have requested := Pic.requested_of_next next
    obtain rfl | rfl : n = 0 ∨ n = 1 := by omega
    · exact h.congr (line_one s.pics.master 0 false (by decide))
        (other phase (by decide) (.entered 32) (by decide)) rfl rfl rfl rfl
    · refine ⟨h.order, fun fresh => ?_, fun _ => Function.update_self 1 false s.pics.master.irr, fun byte waits => ?_⟩
      · exact iff_of_true ((h.waiting fresh).2 (.inl requested)) (.inr rfl)
      · obtain ⟨-, quiet, -⟩ := h.stuck byte waits
        rw [requested] at quiet
        cases quiet
  | gone phase _ => exact h.congr rfl (other phase (by decide) (.entered 39) (by decide)) rfl rfl rfl rfl
  | timer phase => exact h.congr rfl (other phase (by decide) (.ending 0) (by decide)) rfl rfl rfl rfl
  | keyboard phase =>
    obtain ⟨byte, fresh, full, read⟩ := h.read phase
    have order := h.order fresh
    have port : (keyboardHandler s.toHandled).port = ⟨none, byte⟩ := congrArg Prod.snd read
    have first : (inbKeyboard s.port).1 = byte := congrArg Prod.fst read
    refine ⟨fun _ => ?_, fun _ => ?_, (fun wrong => nomatch wrong), fun byte' waits => ?_⟩
    · rw [full] at order
      rw [port, first, ← order]
      exact List.append_nil _
    · rw [port]
      refine iff_of_false Bool.false_ne_true (not_or.2 ⟨?_, nofun⟩)
      exact Bool.not_eq_true _ ▸ h.once phase
    · dsimp only at waits
      rw [fresh] at waits
      cases waits
  | spurious phase => exact h.congr rfl (other phase (by decide) (.ending 7) (by decide)) rfl rfl rfl rfl
  | done irq phase => exact h.congr rfl (other phase nofun .interruptible (by decide)) rfl rfl rfl rfl

/-- **The step lemma** for the bytes. -/
theorem KeysKept.step (h : KeysKept s) (served : Served s) {a : IrqAction} (step : irqStep s a = some s') :
    KeysKept s' := by
  cases a with
  | tick =>
    cases step
    exact h.congr (line_one s.pics.master 0 true (by decide)) Iff.rfl rfl rfl rfl rfl
  | lapse =>
    cases step
    exact h.congr (line_one s.pics.master 0 false (by decide)) Iff.rfl rfl rfl rfl rfl
  | key byte =>
    obtain ⟨empty, eq⟩ := Option.ite_none_right_eq_some.1 step
    cases eq
    have fresh : s.ledger.stale = none := by
      cases stale : s.ledger.stale with
      | none => rfl
      | some byte =>
        obtain ⟨full, -⟩ := h.stuck byte stale
        rw [empty] at full
        cases full
    have waiting := h.waiting fresh
    rw [empty] at waiting
    refine ⟨fun _ => ?_, fun _ => iff_of_true rfl (.inl (s.pics.master.request_self 1)), fun reading => ?_,
      fun byte' waits => ?_⟩
    · have order := h.order fresh
      rw [empty, Option.toList_none, List.append_nil] at order
      exact congrArg (· ++ [byte]) order
    · cases waiting.2 (.inr reading)
    · have still : s.ledger.stale = some byte' := waits
      rw [fresh] at still
      cases still
  | line n =>
    obtain ⟨high, eq⟩ := Option.ite_none_right_eq_some.1 step
    cases eq
    exact h.congr (line_one s.pics.master n true (by omega)) Iff.rfl rfl rfl rfl rfl
  | slaveLine n =>
    cases step
    exact h.congr rfl Iff.rfl rfl rfl rfl rfl
  | cascade =>
    obtain ⟨int, -⟩ := Option.ite_none_right_eq_some.1 step
    rw [served.slave.silent] at int
    cases int
  | cpu => exact h.cpu (served.turn step)
  | consume =>
    obtain ⟨-, eq⟩ := Option.ite_none_right_eq_some.1 step
    cases eq
    exact h.congr rfl Iff.rfl rfl rfl rfl rfl

/-! ## Runs -/

/-- The handlers are whole interrupts of the keyboard queue. -/
def QueueKept (s : Machine) : Prop :=
  ∃ actions, keyboardQueue.Run actions s.queue ∧ scancodes actions = s.ledger.processed

theorem QueueKept.step (h : QueueKept s) (served : Served s) {a : IrqAction} (step : irqStep s a = some s') :
    QueueKept s' := by
  obtain ⟨actions, run, same⟩ := h
  cases a with
  | tick =>
    cases step
    exact ⟨actions, run, same⟩
  | lapse =>
    cases step
    exact ⟨actions, run, same⟩
  | key byte =>
    obtain ⟨-, eq⟩ := Option.ite_none_right_eq_some.1 step
    cases eq
    exact ⟨actions, run, same⟩
  | line n =>
    obtain ⟨-, eq⟩ := Option.ite_none_right_eq_some.1 step
    cases eq
    exact ⟨actions, run, same⟩
  | slaveLine n =>
    cases step
    exact ⟨actions, run, same⟩
  | cascade =>
    obtain ⟨-, eq⟩ := Option.ite_none_right_eq_some.1 step
    cases eq
    exact ⟨actions, run, same⟩
  | cpu =>
    cases served.turn step with
    | keyboard phase =>
      refine ⟨actions ++ [.interrupt (inbKeyboard s.port).1], run.snoc (a := .interrupt (inbKeyboard s.port).1) rfl, ?_⟩
      rw [scancodes, List.flatMap_append, ← scancodes, same]
      rfl
    | _ => exact ⟨actions, run, same⟩
  | consume =>
    obtain ⟨-, eq⟩ := Option.ite_none_right_eq_some.1 step
    cases eq
    refine ⟨actions ++ [.consume], run.snoc (a := .consume) rfl, ?_⟩
    rw [scancodes, List.flatMap_append, ← scancodes, same]
    exact List.append_nil _

/-- **The invariant of a run.** -/
structure Sound (s : Machine) : Prop where
  served : Served s
  ticks : ∃ counted, TicksKept s counted
  keys : KeysKept s
  queue : QueueKept s

theorem Sound.step (h : Sound s) {a : IrqAction} (step : irqStep s a = some s') : Sound s' := by
  obtain ⟨counted, ticks⟩ := h.ticks
  exact ⟨h.served.step step, ⟨_, ticks.step h.served step⟩, h.keys.step h.served step, h.queue.step h.served step⟩

theorem sound_init (init : interrupts.Init s) : Sound s := by
  obtain ⟨⟨p, remap⟩, phase, ticks, ⟨k, queue⟩, ledger⟩ := init
  obtain ⟨q, remap', master, slave, irr, isr, -, -⟩ := picRemap_spec p
  rw [remap] at remap'
  cases remap'
  have none' : s.phase.line = none := by
    rw [phase]
    rfl
  refine ⟨⟨master, slave, congrFun irr 2, fun n => ?_, ?_⟩, ⟨0, ticks, ?_⟩, ⟨?_, ?_, ?_, ?_⟩, ⟨[], ?_, ?_⟩⟩
  · rw [isr, none']
    rfl
  · rw [phase]
    trivial
  · rw [irr, phase, ledger]
    rfl
  · intro fresh
    rw [ledger] at fresh ⊢
    exact congrArg Option.toList fresh
  · intro fresh
    rw [ledger] at fresh
    have empty : s.port.outputBuffer = none := fresh
    rw [empty, irr, phase]
    exact iff_of_false Bool.false_ne_true (not_or.2 ⟨Bool.false_ne_true, nofun⟩)
  · intro reading
    rw [phase] at reading
    cases reading
  · intro byte waits
    rw [ledger] at waits ⊢
    rw [irr, phase]
    exact ⟨waits, rfl, nofun, rfl, rfl⟩
  · rw [queue]
    exact .start ⟨k, rfl⟩
  · rw [ledger]
    rfl

theorem sound_run {as : List IrqAction} (run : interrupts.Run as s) : Sound s :=
  run.invariant (fun _ init => sound_init init) fun _ _ _ sound step => sound.step step

/-- The processor gets on with an interrupt that it has accepted. -/
theorem Served.progress (h : Served s) (busy : s.phase ≠ .interruptible) : ∃ s', cpuStep s = some s' := by
  unfold cpuStep
  cases phase : s.phase with
  | interruptible => exact absurd phase busy
  | acknowledging => exact ⟨_, rfl⟩
  | entered vector =>
    have expected := h.expected
    rw [phase] at expected
    rcases expected with rfl | rfl | rfl
    · exact ⟨_, rfl⟩
    · exact ⟨_, rfl⟩
    · exact ⟨_, rfl⟩
  | ending irq =>
    dsimp only
    rw [h.eoi phase]
    exact ⟨_, rfl⟩
  | stopped =>
    have expected := h.expected
    rw [phase] at expected
    exact expected.elim

/-! ## Latency -/

/-- Whether a step of `t` takes back a tick that was latched in `s`: the line falls, and no other
tick has been latched since. -/
def losing (s t : Machine) (a : IrqAction) : Nat :=
  if a = .lapse ∧ t.pics.master.irr 0 = true ∧ t.ledger.latched = s.ledger.latched then 1 else 0

/-- What follows a state, with the number of steps of the processor, and of the ticks of that state
which lapse on the way. -/
inductive Later (s : Machine) : Machine → Nat → Nat → Prop
  | refl : Later s s 0 0
  | step {t u : Machine} {n lost : Nat} (a : IrqAction) : Later s t n lost → irqStep t a = some u →
      Later s u (if a = .cpu then n + 1 else n) (lost + losing s t a)

theorem Later.cpu {t u : Machine} {n lost : Nat} (later : Later s t n lost) (step : cpuStep t = some u) :
    Later s u (n + 1) lost := by
  have none' : losing s t .cpu = 0 := if_neg fun h => nomatch h.1
  have next := later.step .cpu step
  rwa [none', if_pos rfl] at next

theorem Later.device {t u : Machine} {n lost : Nat} {a : IrqAction} (later : Later s t n lost) (notCpu : a ≠ .cpu)
    (none' : losing s t a = 0) (step : irqStep t a = some u) : Later s u n lost := by
  have next := later.step a step
  rwa [none', if_neg notCpu] at next

/-- The steps of the processor from a phase until a latched tick is counted. -/
def Phase.distance : Phase → Nat
  | .acknowledging => 2
  | .interruptible => 3
  | .ending _ => 4
  | .entered _ => 5
  | .stopped => 0

/-- In at most `k` steps of the processor at least `target` ticks will have been counted; one that
is latched still is the last of the `latched`. -/
def Due (latched target k counted : Nat) (s : Machine) : Prop :=
  target ≤ counted ∨ (target ≤ counted + s.phase.ticking ∧ 1 ≤ k) ∨
    (target ≤ counted + s.phase.ticking + 1 ∧ (s.pics.master.irr 0 = true ∧ s.ledger.latched = latched) ∧
    s.phase.distance ≤ k)

/-- A step of the processor brings it nearer. -/
theorem Due.cpu {latched target k counted : Nat} (due : Due latched target k counted s) (served : Served s)
    (step : cpuStep s = some s') : Due latched target (k - 1) (counted + s.phase.ticking) s' := by
  have turn := served.turn step
  rcases due with done | ⟨serving, -⟩ | ⟨more, ⟨line, last⟩, near⟩
  · exact .inl (Nat.le_add_right_of_le done)
  · exact .inl serving
  · -- a latched tick comes before everything else, so that it is accepted next
    cases turn with
    | sample phase int =>
      rw [phase] at more near ⊢
      exact .inr (.inr ⟨more, ⟨line, last⟩, Nat.le_sub_of_add_le near⟩)
    | accept n low phase next =>
      have first := served.next_cases (by rw [phase]; rfl)
      rw [next, line] at first
      obtain rfl : n = 0 := by
        rcases first with ⟨none', -⟩ | ⟨zero, -⟩ | ⟨-, quiet, -⟩
        · cases none'
        · exact Option.some.inj zero
        · cases quiet
      rw [phase] at more near ⊢
      exact .inr (.inl ⟨more, Nat.le_sub_of_add_le near⟩)
    | gone phase quiet =>
      rw [line] at quiet
      cases quiet.1
    | timer phase =>
      rw [phase] at more near ⊢
      exact .inr (.inr ⟨more, ⟨line, last⟩, Nat.le_sub_of_add_le near⟩)
    | keyboard phase =>
      rw [phase] at more near ⊢
      exact .inr (.inr ⟨more, ⟨line, last⟩, Nat.le_sub_of_add_le near⟩)
    | spurious phase =>
      rw [phase] at more near ⊢
      exact .inr (.inr ⟨more, ⟨line, last⟩, Nat.le_sub_of_add_le near⟩)
    | done irq phase =>
      rw [phase] at more near ⊢
      exact .inr (.inr ⟨more, ⟨line, last⟩, Nat.le_sub_of_add_le near⟩)

theorem Phase.Expected.distance_pos {phase : Phase} (h : phase.Expected) : 1 ≤ phase.distance := by
  cases phase with
  | stopped => exact h.elim
  | _ => simp [distance]

/-- The line falls: the tick that was latched is not due any more. -/
theorem Due.lapse {target k counted : Nat} {t : Machine} (due : Due s.ledger.latched target k counted t)
    (served : Served t) :
    Due s.ledger.latched (target - losing s t .lapse) k counted (lapse t) := by
  rcases due with done | ⟨serving, soon⟩ | ⟨more, ⟨line, last⟩, near⟩
  · exact .inl (Nat.le_trans (Nat.sub_le _ _) done)
  · exact .inr (.inl ⟨Nat.le_trans (Nat.sub_le _ _) serving, soon⟩)
  · have one : losing s t .lapse = 1 := if_pos ⟨rfl, line, last⟩
    rw [one]
    exact .inr (.inl ⟨Nat.sub_le_of_le_add more, Nat.le_trans served.expected.distance_pos near⟩)

/-- No other step takes it back. -/
theorem Due.device {latched target k counted : Nat} (due : Due latched target k counted s)
    (served : Served s) {a : IrqAction} (notCpu : a ≠ .cpu) (notLapse : a ≠ .lapse)
    (step : irqStep s a = some s') : Due latched target k counted s' := by
  have kept : s'.phase = s.phase ∧ (s.pics.master.irr 0 = true → s'.pics.master.irr 0 = true ∧
      s'.ledger.latched = s.ledger.latched) := by
    cases a with
    | tick =>
      cases step
      exact ⟨rfl, fun line => ⟨s.pics.master.request_self 0, if_pos line⟩⟩
    | lapse => exact absurd rfl notLapse
    | key byte =>
      obtain ⟨-, eq⟩ := Option.ite_none_right_eq_some.1 step
      cases eq
      exact ⟨rfl, fun line => ⟨Pic.request_keeps line, rfl⟩⟩
    | line n =>
      obtain ⟨high, eq⟩ := Option.ite_none_right_eq_some.1 step
      cases eq
      exact ⟨rfl, fun line => ⟨Pic.request_keeps line, rfl⟩⟩
    | slaveLine n =>
      cases step
      exact ⟨rfl, fun line => ⟨line, rfl⟩⟩
    | cascade =>
      obtain ⟨int, -⟩ := Option.ite_none_right_eq_some.1 step
      rw [served.slave.silent] at int
      cases int
    | cpu => exact absurd rfl notCpu
    | consume =>
      obtain ⟨-, eq⟩ := Option.ite_none_right_eq_some.1 step
      cases eq
      exact ⟨rfl, fun line => ⟨line, rfl⟩⟩
  unfold Due at due ⊢
  rw [kept.1]
  rcases due with done | serving | ⟨more, ⟨line, last⟩, near⟩
  · exact .inl done
  · exact .inr (.inl serving)
  · obtain ⟨line', same⟩ := kept.2 line
    exact .inr (.inr ⟨more, ⟨line', same.trans last⟩, near⟩)

theorem Phase.distance_le (phase : Phase) : phase.distance ≤ 5 := by
  cases phase <;> simp [distance]

/-- A step of any kind. -/
theorem Due.step {target k counted : Nat} {t u : Machine} (due : Due s.ledger.latched target k counted t)
    (served : Served t) {a : IrqAction} (step : irqStep t a = some u) :
    Due s.ledger.latched (target - losing s t a) (if a = .cpu then k - 1 else k) (counted + counts t a) u := by
  by_cases lapses : a = .lapse
  · subst lapses
    cases step
    exact due.lapse served
  · have none' : losing s t a = 0 := if_neg fun h => lapses h.1
    rw [none', Nat.sub_zero]
    by_cases cpu : a = .cpu
    · rw [cpu] at step ⊢
      exact due.cpu served step
    · rw [if_neg cpu, counts, if_neg cpu]
      exact due.device served cpu lapses step

theorem Later.due {t : Machine} {n lost : Nat} (later : Later s t n lost) (sound : Sound s) :
    Sound t ∧ ∃ counted, TicksKept t counted ∧
      Due s.ledger.latched (s.ledger.latched - s.ledger.lapsed - lost) (5 - n) counted t := by
  induction later with
  | refl =>
    obtain ⟨counted, ticks⟩ := sound.ticks
    have sum := ticks.sum
    refine ⟨sound, counted, ticks, ?_⟩
    cases line : s.pics.master.irr 0 with
    | true =>
      rw [line, Bool.toNat_true] at sum
      exact .inr (.inr ⟨by omega, ⟨line, rfl⟩, s.phase.distance_le⟩)
    | false =>
      rw [line, Bool.toNat_false] at sum
      exact .inr (.inl ⟨by omega, by decide⟩)
  | @step t u n lost a _ next ih =>
    obtain ⟨sound', counted, ticks, due⟩ := ih
    have left : 5 - (if a = .cpu then n + 1 else n) = if a = .cpu then 5 - n - 1 else 5 - n := by
      split <;> omega
    refine ⟨sound'.step next, _, ticks.step sound'.served next, ?_⟩
    rw [← Nat.sub_sub, left]
    exact due.step sound'.served next

end

/-! ## What interrupts do -/

section

variable {s s' : Machine} {as : List IrqAction}

/-- **Only three vectors get to `trap_dispatch`**, neither an exception nor one that it panics on. While none is
being served nothing is in service, so that a request of the timer or the keyboard is heard; the slave never is;
and an interrupt that has been accepted goes on to its end. -/
theorem irq_served (run : interrupts.Run as s) :
    s.phase ≠ .stopped ∧ (∀ vector, s.phase = .entered vector → vector = 32 ∨ vector = 33 ∨ vector = 39) ∧
      s.pics.slave.int = false ∧
      (s.phase = .interruptible → s.pics.master.isr = noLines ∧
        ∀ n, n < 2 → s.pics.master.irr n = true → s.pics.master.int = true) ∧
      (s.phase ≠ .interruptible → ∃ s', irqStep s .cpu = some s') := by
  have served := (sound_run run).served
  have expected := served.expected
  refine ⟨?_, ?_, served.slave.silent, fun phase => ?_, served.progress⟩
  · intro stopped
    rw [stopped] at expected
    exact expected
  · intro vector phase
    rw [phase] at expected
    exact expected
  · have idle := served.idle (by rw [phase]; rfl)
    refine ⟨idle, fun n low requested => Pic.int_of_request idle requested ?_⟩
    rw [served.master.imr]
    exact unmasked_iff.2 (by omega)

/-- **No tick is lost or counted twice**: each one latched is gone, still latched, being served, or counted. -/
theorem ticks_conserved (run : interrupts.Run as s) : ∃ counted, s.timerTicks = u64 counted ∧
    s.ledger.latched = s.ledger.lapsed + (s.pics.master.irr 0).toNat + s.phase.ticking + counted := by
  obtain ⟨counted, ticks⟩ := (sound_run run).ticks
  exact ⟨counted, ticks.value, ticks.sum⟩

/-- **Every byte of the keyboard is processed once and in order**, by a whole run of the handler. If one was waiting
when the controllers were set up, its edge is past, and no byte ever is. -/
theorem keys_conserved (run : interrupts.Run as s) :
    (s.ledger.stale = none → s.ledger.processed ++ s.port.outputBuffer.toList = s.ledger.sent) ∧
      (∀ byte, s.ledger.stale = some byte → s.ledger.processed = [] ∧ s.ledger.sent = []) ∧
      ∃ actions, keyboardQueue.Run actions s.queue ∧ scancodes actions = s.ledger.processed := by
  have sound := sound_run run
  refine ⟨sound.keys.order, fun byte waits => ?_, sound.queue⟩
  obtain ⟨-, -, -, processed, sent⟩ := sound.keys.stuck byte waits
  exact ⟨processed, sent⟩

end

/-! ## A run -/

/-- Controllers in the middle of an initialisation, and a keyboard that has sent nothing. -/
def bootPic : Pic := ⟨.icw3, true, 0x70, 0, true, 0, fun _ => true, fun _ => true⟩

def bootMachine (stale : Option (BitVec 8)) : Machine where
  timerTicks := 0
  port := ⟨stale, 0⟩
  queue := ⟨keyboardResetState bootKeyboard, .compare, [], []⟩
  pics := (picRemap ⟨bootPic, bootPic⟩).getD ⟨bootPic, bootPic⟩
  phase := .interruptible
  ledger := ⟨0, 0, [], [], stale⟩

theorem interrupts_run {stale : Option (BitVec 8)} {as : List IrqAction} {s : Machine}
    (steps : as.foldlM irqStep (bootMachine stale) = some s) : interrupts.Run as s := by
  induction as using List.reverseRecOn generalizing s with
  | nil =>
    cases steps
    exact .start ⟨⟨_, rfl⟩, rfl, rfl, ⟨bootKeyboard, rfl⟩, rfl⟩
  | append_singleton as a ih =>
    rw [List.foldlM_append] at steps
    obtain ⟨t, before, last⟩ := Option.bind_eq_some_iff.1 steps
    rw [List.foldlM_cons] at last
    obtain ⟨u, step, done⟩ := Option.bind_eq_some_iff.1 last
    cases done
    exact (ih before).snoc step

/-- A tick that falls before it is acknowledged. -/
def lapsedTick : List IrqAction := [.tick, .cpu, .lapse, .cpu]

theorem irq_served_lapsed : ∃ s, lapsedTick.foldlM irqStep (bootMachine none) = some s ∧ s.phase = .entered 39 ∧
    ∃ s', irqStep s .cpu = some s' := by
  obtain ⟨s, steps, phase⟩ : ∃ s, lapsedTick.foldlM irqStep (bootMachine none) = some s ∧ s.phase = .entered 39 :=
    ⟨_, rfl, rfl⟩
  obtain ⟨-, -, -, -, goes⟩ := irq_served (interrupts_run steps)
  exact ⟨s, steps, phase, goes (by rw [phase]; nofun)⟩

theorem ticks_conserved_lapsed : ∃ s counted, lapsedTick.foldlM irqStep (bootMachine none) = some s ∧
    s.timerTicks = u64 counted ∧ counted = 0 := by
  obtain ⟨s, steps, latched, lapsed⟩ : ∃ s, lapsedTick.foldlM irqStep (bootMachine none) = some s ∧
      s.ledger.latched = 1 ∧ s.ledger.lapsed = 1 := ⟨_, rfl, rfl, rfl⟩
  obtain ⟨counted, value, sum⟩ := ticks_conserved (interrupts_run steps)
  exact ⟨s, counted, steps, value, by omega⟩

theorem keys_conserved_letter : ∃ s, [IrqAction.key 0x1E, .cpu, .cpu, .cpu, .key 0x9E].foldlM irqStep
    (bootMachine none) = some s ∧ s.ledger.processed ++ s.port.outputBuffer.toList = [0x1E, 0x9E] := by
  obtain ⟨s, steps, fresh, sent⟩ : ∃ s, [IrqAction.key 0x1E, .cpu, .cpu, .cpu, .key 0x9E].foldlM irqStep
      (bootMachine none) = some s ∧ s.ledger.stale = none ∧ s.ledger.sent = [0x1E, 0x9E] := ⟨_, rfl, rfl, rfl⟩
  obtain ⟨order, -⟩ := keys_conserved (interrupts_run steps)
  exact ⟨s, steps, (order fresh).trans sent⟩

end SimpleKernel.Trap
