import SimpleKernel.Lib.Uart
import SimpleKernel.Lib.Wait

/-!
# `serial.c`: the transmitter

`serial_write_char` polls the line status until the queue is empty and then writes one byte, after a carriage return if
it is a newline. So the queue never holds more than a byte, and what goes out is the text with every newline expanded
(`serialWrite_sent`); it can be read back (`uncrlf_crlf`).
-/

namespace SimpleKernel.Console
set_option autoImplicit false
open Lib

/-- The static variable of `serial.c` and `COM1_PORT`. -/
structure Serial where
  initialized : Bool
  port : Port

section

variable (turns : Turns)

def serialInit (s : Serial) : Serial :=
  let p := s.port.outb turns 1 0x00
  let p := p.outb turns 3 0x80
  let p := p.outb turns 0 0x01
  let p := p.outb turns 1 0x00
  let p := p.outb turns 3 0x03
  let p := p.outb turns 2 0xC7
  let p := p.outb turns 4 0x0B
  ⟨true, p⟩

def serialTxReady (p : Port) : Bool × Port :=
  let (status, p) := p.lineStatus turns
  (status &&& 0x20 != 0, p)

/-- `while (!serial_tx_ready())`, a poll a unit of fuel. -/
def waitTxReady : Nat → Port → Option Port
  | 0, _ => none
  | polls + 1, p =>
    match serialTxReady turns p with
    | (true, p) => some p
    | (false, p) => waitTxReady polls p

/-- The loop and the write behind it. -/
def sendChar (polls : Nat) (s : Serial) (c : BitVec 8) : Option Serial := do
  let p ← waitTxReady turns polls s.port
  some { s with port := p.outb turns 0 c }

/-- The call for the carriage return goes straight to the loop: the port is initialised, and it is no newline. -/
def serialWriteChar (polls : Nat) (s : Serial) (c : BitVec 8) : Option Serial :=
  if s.initialized then
    (if c = 0x0A then sendChar turns polls s 0x0D else some s).bind fun s => sendChar turns polls s c
  else some s

def serialWrite (polls : Nat) (s : Serial) (text : List (BitVec 8)) : Option Serial :=
  text.foldlM (serialWriteChar turns polls) s

end

/-! ## The text on the line -/

/-- What goes out for a text. -/
def crlf : List (BitVec 8) → List (BitVec 8)
  | [] => []
  | c :: text => if c = 0x0A then 0x0D :: 0x0A :: crlf text else c :: crlf text

/-- The reading of it: a carriage return in front of a newline is not part of the text. -/
def uncrlf : List (BitVec 8) → List (BitVec 8)
  | [] => []
  | [c] => [c]
  | c :: d :: rest => if c = 0x0D ∧ d = 0x0A then uncrlf (d :: rest) else c :: uncrlf (d :: rest)

section

variable {c : BitVec 8} {text : List (BitVec 8)}

theorem crlf_newline : crlf (0x0A :: text) = 0x0D :: 0x0A :: crlf text := if_pos rfl

theorem crlf_cons (other : c ≠ 0x0A) : crlf (c :: text) = c :: crlf text := if_neg other

theorem crlf_append (text text' : List (BitVec 8)) : crlf (text ++ text') = crlf text ++ crlf text' := by
  induction text with
  | nil => rfl
  | cons c text ih =>
    by_cases newline : c = 0x0A
    · subst newline
      rw [List.cons_append, crlf_newline, crlf_newline, ih]
      rfl
    · rw [List.cons_append, crlf_cons newline, crlf_cons newline, ih]
      rfl

/-- No newline comes first: there is a carriage return before it. -/
theorem crlf_head (text : List (BitVec 8)) : (crlf text).head? ≠ some 0x0A := by
  cases text with
  | nil => exact nofun
  | cons c text =>
    by_cases newline : c = 0x0A
    · subst newline
      rw [crlf_newline]
      exact fun eq => absurd (Option.some.inj eq) (by decide)
    · rw [crlf_cons newline]
      exact fun eq => newline (Option.some.inj eq)

/-- A character is kept unless it is the carriage return of a newline. -/
theorem uncrlf_cons (rest : List (BitVec 8)) (single : c = 0x0D → rest.head? ≠ some 0x0A) :
    uncrlf (c :: rest) = c :: uncrlf rest := by
  cases rest with
  | nil => rfl
  | cons d rest => exact if_neg fun both => single both.1 (congrArg some both.2)

/-- **The round trip.** -/
theorem uncrlf_crlf (text : List (BitVec 8)) : uncrlf (crlf text) = text := by
  induction text with
  | nil => rfl
  | cons c text ih =>
    by_cases newline : c = 0x0A
    · subst newline
      rw [crlf_newline]
      have dropped : uncrlf (0x0D :: 0x0A :: crlf text) = uncrlf (0x0A :: crlf text) := if_pos ⟨rfl, rfl⟩
      rw [dropped, uncrlf_cons _ fun eq => absurd eq (by decide), ih]
    · rw [crlf_cons newline, uncrlf_cons _ fun _ => crlf_head text, ih]

end

/-! ## The loop -/

section

variable {turns : Turns} {polls : Nat} {p q : Port}

theorem serialTxReady_eq (p : Port) :
    serialTxReady turns p = (decide ((p.next turns).pending = []), (p.lineStatus turns).2) := by
  unfold serialTxReady
  refine Prod.ext (Bool.eq_iff_iff.2 ?_) rfl
  rw [bne_iff_ne, decide_eq_true_iff]
  exact Port.status_empty p

theorem waitTxReady_succ (polls : Nat) (p : Port) : waitTxReady turns (polls + 1) p =
    if (p.next turns).pending = [] then some (p.lineStatus turns).2
    else waitTxReady turns polls (p.lineStatus turns).2 := by
  rw [waitTxReady, serialTxReady_eq]
  by_cases empty : (p.next turns).pending = []
  · rw [decide_eq_true empty, if_pos empty]
  · rw [decide_eq_false empty, if_neg empty]

/-- **What the loop waits for**: the queue is empty, and all of it is on the line. -/
theorem waitTxReady_spec (open' : p.uart.loop = false) (returns : waitTxReady turns polls p = some q) :
    Uart.Sent p.uart [] q.uart ∧ q.uart.pending = [] := by
  induction polls generalizing p with
  | zero => cases returns
  | succ polls ih =>
    have sent : Uart.Sent p.uart [] (p.next turns) := (Uart.Sent.refl p.uart).transmits open' _
    rw [waitTxReady_succ] at returns
    split at returns
    · rename_i empty
      cases returns
      exact ⟨sent, empty⟩
    · obtain ⟨later, empty⟩ := @ih (p.lineStatus turns).2 ((Port.next_loop p).trans open') returns
      exact ⟨sent.trans later, empty⟩

/-- More polls change nothing. -/
theorem waitTxReady_mono {polls' : Nat} (more : polls ≤ polls') (returns : waitTxReady turns polls p = some q) :
    waitTxReady turns polls' p = some q := by
  induction polls generalizing p polls' with
  | zero => cases returns
  | succ polls ih =>
    obtain ⟨polls', rfl⟩ : ∃ k, polls' = k + 1 := ⟨polls' - 1, by omega⟩
    rw [waitTxReady_succ] at returns ⊢
    split at returns
    · rename_i empty
      rw [if_pos empty]
      exact returns
    · rename_i busy
      rw [if_neg busy]
      exact ih (by omega) returns

/-- The line takes bytes until none is left. -/
theorem waitTxReady_returns (fair : turns.Fair) (open' : p.uart.loop = false) :
    ∃ q, Settles (fun polls => waitTxReady turns polls p) q := by
  suffices returns : ∃ polls q, waitTxReady turns polls p = some q by
    obtain ⟨polls, q, returns⟩ := returns
    exact ⟨q, .of_some returns fun fuel more => waitTxReady_mono more⟩
  obtain ⟨left, bound⟩ : ∃ left, p.uart.pending.length ≤ left := ⟨_, Nat.le_refl _⟩
  induction left generalizing p with
  | zero =>
    have empty : (p.next turns).pending = [] := by
      rw [Port.next_pending open', List.length_eq_zero_iff.1 (Nat.le_zero.1 bound), List.drop_nil]
    exact ⟨1, _, (waitTxReady_succ 0 p).trans (if_pos empty)⟩
  | succ left ih =>
    -- the polls before the next byte leaves
    obtain ⟨k, later, leaves⟩ := fair p.accesses
    obtain ⟨wait, due⟩ : ∃ wait, p.accesses + wait = k := ⟨_, Nat.add_sub_of_le later⟩
    clear later
    induction wait generalizing p with
    | zero =>
      by_cases empty : (p.next turns).pending = []
      · exact ⟨1, _, (waitTxReady_succ 0 p).trans (if_pos empty)⟩
      · have shorter : (p.next turns).pending.length ≤ left := by
          rw [Port.next_pending open', List.length_drop]
          rw [← due, Nat.add_zero] at leaves
          omega
        obtain ⟨polls, q, returns⟩ := @ih (p.lineStatus turns).2 ((Port.next_loop p).trans open') shorter
        exact ⟨polls + 1, q, (waitTxReady_succ polls p).trans ((if_neg empty).trans returns)⟩
    | succ wait step =>
      by_cases empty : (p.next turns).pending = []
      · exact ⟨1, _, (waitTxReady_succ 0 p).trans (if_pos empty)⟩
      · have fewer : (p.next turns).pending.length ≤ left + 1 := by
          rw [Port.next_pending open', List.length_drop]
          omega
        have sooner : (p.lineStatus turns).2.accesses + wait = k := by
          rw [← due, Nat.add_comm wait 1, ← Nat.add_assoc]
          rfl
        obtain ⟨polls, q, returns⟩ := @step (p.lineStatus turns).2 ((Port.next_loop p).trans open') fewer sooner
        exact ⟨polls + 1, q, (waitTxReady_succ polls p).trans ((if_neg empty).trans returns)⟩

end

/-! ## Writing -/

/-- The port is initialised and sends to the line what is written to it; at most one byte waits. -/
structure Serial.Opened (s : Serial) : Prop where
  initialized : s.initialized = true
  loop : s.port.uart.loop = false
  data : s.port.uart.dlab = false
  queue : s.port.uart.pending.length ≤ 1

/-- `serial_init` has set the port up: 115200 baud, eight bits, no parity, one stop bit, an empty queue. -/
structure Serial.Configured (before after : Serial) : Prop where
  initialized : after.initialized = true
  registers : ∃ ier line, before.port.uart.line <+: line ∧
    (ier = if before.port.uart.dlab then before.port.uart.ier else 0) ∧
    after.port.uart = ⟨ier, 0x03, 0x0B, true, 1, [], line, before.port.uart.lost⟩

section

variable {turns : Turns} {s s' : Serial} {c : BitVec 8}

theorem Serial.Configured.opened (h : s.Configured s') : s'.Opened := by
  obtain ⟨ier, line, -, -, eq⟩ := h.registers
  refine ⟨h.initialized, ?_, ?_, ?_⟩
  · rw [eq]
    exact (by decide : (0x0B : BitVec 8).getLsbD 4 = false)
  · rw [eq]
    exact (by decide : (0x03 : BitVec 8).getLsbD 7 = false)
  · rw [eq]
    exact Nat.zero_le 1

/-- **`sendChar`**: one byte, in turn. -/
theorem sendChar_spec (fair : turns.Fair) (h : s.Opened) (c : BitVec 8) :
    ∃ s', Settles (fun polls => sendChar turns polls s c) s' ∧ Uart.Sent s.port.uart [c] s'.port.uart ∧ s'.Opened := by
  obtain ⟨q, enough, returns⟩ := @waitTxReady_returns turns s.port fair h.loop
  obtain ⟨waited, empty⟩ := waitTxReady_spec h.loop (returns enough (Nat.le_refl _))
  have ready : Uart.Sent s.port.uart [] (q.next turns) := waited.transmits h.loop _
  have idle : (q.next turns).pending = [] := by
    obtain ⟨pending, line, eq, -⟩ := waited
    rw [Port.next_pending (eq ▸ h.loop), empty, List.drop_nil]
  have room : (q.next turns).pending.length < (q.next turns).depth := by
    rw [idle]
    exact Uart.depth_pos _
  obtain ⟨pending, line, eq, stream⟩ := ready.write h.data room c
  refine ⟨{ s with port := q.outb turns 0 c }, Settles.bind ⟨enough, returns⟩ (.pure _), ⟨pending, line, eq, stream⟩,
    h.initialized, (congrArg Uart.loop eq).trans h.loop, (congrArg Uart.dlab eq).trans h.data, ?_⟩
  have data : (q.next turns).dlab = false := by
    obtain ⟨pending, line, eq, -⟩ := ready
    exact (congrArg Uart.dlab eq).trans h.data
  show ((q.next turns).write 0 c).pending.length ≤ 1
  rw [Uart.write_room data room, idle]
  exact Nat.le_refl 1

/-- **`serial_write_char`** sends a newline with a carriage return. -/
theorem serialWriteChar_spec (fair : turns.Fair) (h : s.Opened) (c : BitVec 8) :
    ∃ s', Settles (fun polls => serialWriteChar turns polls s c) s' ∧ Uart.Sent s.port.uart (crlf [c]) s'.port.uart ∧
      s'.Opened := by
  unfold serialWriteChar
  rw [h.initialized]
  by_cases newline : c = 0x0A
  · subst newline
    obtain ⟨s₁, run₁, sent₁, opened₁⟩ := sendChar_spec fair h 0x0D
    obtain ⟨s₂, run₂, sent₂, opened₂⟩ := sendChar_spec fair opened₁ 0x0A
    exact ⟨s₂, run₁.bind (g := fun polls s => sendChar turns polls s 0x0A) run₂, sent₁.trans sent₂, opened₂⟩
  · obtain ⟨s', run, sent, opened⟩ := sendChar_spec fair h c
    rw [crlf_cons newline]
    refine ⟨s', run.congr fun polls => ?_, sent, opened⟩
    rw [if_pos rfl, if_neg newline]
    rfl

/-- **`serial_write`.** -/
theorem serialWrite_spec (fair : turns.Fair) (h : s.Opened) (text : List (BitVec 8)) :
    ∃ s', Settles (fun polls => serialWrite turns polls s text) s' ∧ Uart.Sent s.port.uart (crlf text) s'.port.uart ∧
      s'.Opened := by
  refine settles_foldlM (fun s text (s' : Serial) => Uart.Sent s.port.uart (crlf text) s'.port.uart)
    (fun s => .refl _) ?_ (fun s c h => serialWriteChar_spec fair h c) text h
  intro s c s' text s'' first rest
  have both := first.trans rest
  rwa [← crlf_append] at both

/-- The divisor after both of its halves are written. -/
theorem latched (d : BitVec 16) : (((d &&& 0xFF00#16) ||| (0x01#8).setWidth 16) &&& 0x00FF#16) |||
    (0x00#8).setWidth 16 <<< 8 = 1 := by
  have masks : d &&& 0xFF00#16 &&& 0x00FF#16 = 0 := by
    rw [BitVec.and_assoc]
    exact BitVec.and_zero
  rw [BitVec.and_or_distrib_right, masks]
  decide

/-- The registers once both halves of the divisor, the format, the queue and the modem lines are set. -/
theorem setup_writes (ier lcr mcr : BitVec 8) (fifos : Bool) (d : BitVec 16) (pending lost : List (BitVec 8))
    (line : List Frame) :
    ((((Uart.mk ier lcr mcr fifos d pending line lost).write 3 0x80).write 0 0x01).write 1 0x00).write 3 0x03 =
      ⟨ier, 0x03, mcr, fifos, 1, pending, line, lost⟩ := by
  have on : (0x80#8).getLsbD 7 = true := by decide
  have first : (Uart.mk ier 0x80 mcr fifos d pending line lost).write 0 0x01 =
      ⟨ier, 0x80, mcr, fifos, (d &&& 0xFF00#16) ||| (0x01#8).setWidth 16, pending, line, lost⟩ := if_pos on
  have second : ∀ d, (Uart.mk ier 0x80 mcr fifos d pending line lost).write 1 0x00 =
      ⟨ier, 0x80, mcr, fifos, (d &&& 0x00FF#16) ||| (0x00#8).setWidth 16 <<< 8, pending, line, lost⟩ :=
    fun d => if_pos on
  show (((Uart.mk ier 0x80 mcr fifos d pending line lost).write 0 0x01).write 1 0x00).write 3 0x03 = _
  rw [first, second, latched]
  rfl

/-- **`serial_init`**, from any state of the port. -/
theorem serialInit_configured (turns : Turns) (s : Serial) : s.Configured (serialInit turns s) := by
  obtain ⟨initialized, p⟩ := s
  have start : Port.Like p.uart p.uart.line p := ⟨_, _, List.prefix_rfl, rfl⟩
  -- the first write goes to the divisor latch or to the interrupts
  have first : ∃ d, p.uart.write 1 0x00 = ⟨if p.uart.dlab then p.uart.ier else 0, p.uart.lcr, p.uart.mcr,
      p.uart.fifos, d, p.uart.pending, p.uart.line, p.uart.lost⟩ := by
    rw [Uart.write]
    cases p.uart.dlab with
    | true => exact ⟨_, rfl⟩
    | false => exact ⟨_, rfl⟩
  obtain ⟨d, first⟩ := first
  have h₁ := start.outb turns 1 0x00 (.inl Nat.one_ne_zero)
  rw [first] at h₁
  generalize interrupts : (if p.uart.dlab then p.uart.ier else 0) = ier at *
  have h₂ := h₁.outb turns 3 0x80 (.inl (by decide))
  have h₃ := h₂.outb turns 0 0x01 (.inr (by decide : (0x80#8).getLsbD 7 = true))
  have h₅ := (h₃.outb turns 1 0x00 (.inl Nat.one_ne_zero)).outb turns 3 0x03 (.inl (by decide))
  rw [setup_writes] at h₅
  generalize named :
    ((((p.outb turns 1 0x00).outb turns 3 0x80).outb turns 0 0x01).outb turns 1 0x00).outb turns 3 0x03 = p₅ at *
  obtain ⟨pending, line, longer, eq⟩ := Port.next_like turns h₅
  have cleared : (p₅.outb turns 2 0xC7).uart = ⟨ier, 0x03, p.uart.mcr, true, 1, [], line, p.uart.lost⟩ := by
    rw [Port.outb, eq]
    have on : (0xC7#8).getLsbD 0 = true := by decide
    have clears : (0xC7#8).getLsbD 2 = true := by decide
    show Uart.mk _ _ _ ((0xC7#8).getLsbD 0) _
      (if (0xC7#8).getLsbD 2 || (0xC7#8).getLsbD 0 != p.uart.fifos then [] else pending) _ _ = _
    rw [on, clears]
    rfl
  refine ⟨rfl, ier, line, longer, interrupts.symm, ?_⟩
  show (serialInit turns ⟨initialized, p⟩).port.uart = _
  unfold serialInit
  dsimp only
  rw [named, Port.outb, Port.next, Uart.transmits_empty, cleared]
  · rfl
  · rw [cleared]

end

end SimpleKernel.Console
