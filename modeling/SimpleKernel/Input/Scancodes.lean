import SimpleKernel.Input.Queue

/-!
# Scancodes and the keys that are held

A set-1 keyboard sends a message for each key that goes down, repeats or comes up. What
should be typed depends on the keys held at that moment (`typed`); the decoder remembers a
flag in their place, which every release of a Shift key clears. So the two agree as long as
no key that Shift changes is pressed while one Shift key is held and the other was the last
to be released (`scancodes_typed_iff`).
-/

namespace SimpleKernel.Input
set_option autoImplicit false
open Lib

/-! ## Messages -/

/-- A key by its make code, behind `0xE0` if it is an extended one. -/
structure Key where
  extended : Bool
  code : Fin 0x59
  deriving DecidableEq

/-- A key goes down or repeats, or comes up. -/
structure Message where
  key : Key
  make : Bool
  deriving DecidableEq

def Message.lastByte (m : Message) : BitVec 8 :=
  if m.make then BitVec.ofNat 8 m.key.code else BitVec.ofNat 8 m.key.code ||| 0x80

def Message.bytes (m : Message) : List (BitVec 8) :=
  if m.key.extended then [0xE0, m.lastByte] else [m.lastByte]

/-! ## What is typed -/

def leftShift : Key := ⟨false, 0x2A⟩
def rightShift : Key := ⟨false, 0x36⟩

/-- One of the two unprefixed Shift keys. -/
def Key.isShift (k : Key) : Bool := k = leftShift ∨ k = rightShift

/-- The keys held after a message. -/
def press (held : List Key) (m : Message) : List Key :=
  if m.make then m.key :: held else held.filter fun k => decide (k ≠ m.key)

/-- The keys held after the messages, none at the start. -/
def heldAfter (ms : List Message) : List Key := ms.foldl press []

def shiftHeld (held : List Key) : Bool := held.any Key.isShift

/-- The event of an extended key. -/
def arrowEvent (code : Fin 0x59) : Option InputEvent :=
  if code = 0x48 then some ⟨.up, 0⟩
  else if code = 0x50 then some ⟨.down, 0⟩
  else if code = 0x4B then some ⟨.left, 0⟩
  else if code = 0x4D then some ⟨.right, 0⟩
  else none

/-- The character in one of the two tables. -/
def tableChar (shift : Bool) (code : Fin 0x59) : BitVec 8 :=
  if shift then scancodeToAsciiShift.getD code 0 else scancodeToAscii.getD code 0

/-- No character is no event. -/
def charEvent (c : BitVec 8) : Option InputEvent := if c = 0 then none else some ⟨.char, c⟩

/-- What a message types when a Shift key counts as held or not. -/
def messageEvent (shift : Bool) (m : Message) : Option InputEvent :=
  if m.make = false then none
  else if m.key.extended then arrowEvent m.key.code
  else charEvent (tableChar shift m.key.code)

/-- **The events of the messages**, by the keys held at each. -/
def typed (ms : List Message) : List InputEvent :=
  (ms.foldl (fun (s : List Key × List InputEvent) m =>
    (press s.1 m, s.2 ++ (messageEvent (shiftHeld s.1) m).toList)) ([], [])).2

/-! ## What the decoder makes of them -/

/-- The flags and the events so far, one scancode on. -/
def decodeStep (s : Bool × Bool × List InputEvent) (scancode : BitVec 8) : Bool × Bool × List InputEvent :=
  let (shift, extended, event) := decodeScancode s.1 s.2.1 scancode
  (shift, extended, s.2.2 ++ event.toList)

/-- The last message of a Shift key was a make. -/
def shiftFlag (ms : List Message) : Bool := ms.foldl (fun flag m => if m.key.isShift then m.make else flag) false

theorem decodeScancode_message : ∀ (code : Fin 0x59) (extended make shift : Bool),
    decodeScancode shift extended (Message.lastByte ⟨⟨extended, code⟩, make⟩) =
      (if Key.isShift ⟨extended, code⟩ then make else shift, false, messageEvent shift ⟨⟨extended, code⟩, make⟩) := by
  decide +kernel

/-- **One message**: an `0xE0` changes the meaning of the next byte only. -/
theorem decode_message (m : Message) (shift : Bool) (events : List InputEvent) :
    m.bytes.foldl decodeStep (shift, false, events) =
      (if m.key.isShift then m.make else shift, false, events ++ (messageEvent shift m).toList) := by
  obtain ⟨⟨extended, code⟩, make⟩ := m
  have last := decodeScancode_message code extended make shift
  unfold Message.bytes
  cases extended with
  | false =>
    show decodeStep (shift, false, events) _ = _
    rw [decodeStep, last]
  | true =>
    show decodeStep (shift, true, events ++ []) _ = _
    rw [decodeStep, last, List.append_nil]

/-! ## When the two agree -/

section

variable {ms : List Message} {m : Message}

theorem heldAfter_snoc : heldAfter (ms ++ [m]) = press (heldAfter ms) m := by
  rw [heldAfter, List.foldl_append]
  rfl

theorem shiftFlag_snoc : shiftFlag (ms ++ [m]) = if m.key.isShift then m.make else shiftFlag ms := by
  rw [shiftFlag, List.foldl_append]
  rfl

theorem typed_held (ms : List Message) : (ms.foldl (fun (s : List Key × List InputEvent) m =>
    (press s.1 m, s.2 ++ (messageEvent (shiftHeld s.1) m).toList)) ([], [])).1 = heldAfter ms := by
  induction ms using List.reverseRecOn with
  | nil => rfl
  | append_singleton ms m ih =>
    rw [List.foldl_append, heldAfter_snoc, ← ih]
    rfl

theorem typed_snoc : typed (ms ++ [m]) = typed ms ++ (messageEvent (shiftHeld (heldAfter ms)) m).toList := by
  rw [typed, List.foldl_append, ← typed_held]
  rfl

/-- The key of a Shift message that was the last of these and a make is held. -/
theorem shiftHeld_of_flag (flag : shiftFlag ms = true) : shiftHeld (heldAfter ms) = true := by
  induction ms using List.reverseRecOn with
  | nil => cases flag
  | append_singleton ms m ih =>
    rw [shiftFlag_snoc] at flag
    rw [heldAfter_snoc, press]
    unfold shiftHeld at *
    by_cases shift : m.key.isShift = true
    · rw [if_pos shift] at flag
      rw [if_pos flag, List.any_cons, shift]
      rfl
    · rw [if_neg shift] at flag
      obtain ⟨k, member, held⟩ := List.any_eq_true.1 (ih flag)
      have other : k ≠ m.key := by
        rintro rfl
        exact shift held
      rw [List.any_eq_true]
      refine ⟨k, ?_, held⟩
      split
      · exact List.mem_cons_of_mem _ member
      · exact List.mem_filter.2 ⟨member, decide_eq_true other⟩

/-- Shift makes a difference to what the message types. -/
def Distinguishes (m : Message) : Prop :=
  m.make = true ∧ m.key.extended = false ∧ tableChar true m.key.code ≠ tableChar false m.key.code

/-- **The condition on the messages**: where a key that Shift changes is pressed while a Shift key
is held, the last message of a Shift key was a make. -/
def ShiftsInOrder (ms : List Message) : Prop :=
  ∀ before m after, ms = before ++ m :: after → Distinguishes m → shiftHeld (heldAfter before) = true →
    shiftFlag before = true

theorem tableChar_zero : ∀ code : Fin 0x59, tableChar true code = 0 ↔ tableChar false code = 0 := by
  decide +kernel

/-- A message types as many events with Shift as without, and the same unless Shift makes a
difference. -/
theorem messageEvent_length (m : Message) (a b : Bool) :
    (messageEvent a m).toList.length = (messageEvent b m).toList.length := by
  have zero (shift : Bool) : tableChar shift m.key.code = 0 ↔ tableChar false m.key.code = 0 := by
    cases shift with
    | false => rfl
    | true => exact tableChar_zero m.key.code
  unfold messageEvent
  split
  · rfl
  · split
    · rfl
    · simp only [charEvent, zero]
      split <;> rfl

theorem toList_inj {x y : Option InputEvent} (eq : x.toList = y.toList) : x = y := by
  have heads := congrArg List.head? eq
  rw [Option.head?_toList, Option.head?_toList] at heads
  exact heads

theorem charEvent_inj {c d : BitVec 8} (eq : charEvent c = charEvent d) : c = d := by
  unfold charEvent at eq
  split_ifs at eq with c0 d0
  · rw [c0, d0]
  · exact congrArg InputEvent.ch (Option.some.inj eq)

theorem messageEvent_eq_iff {a b : Bool} : messageEvent a m = messageEvent b m ↔ (Distinguishes m → a = b) := by
  constructor
  · intro eq differs
    obtain ⟨make, plain, chars⟩ := differs
    have up : ¬ m.make = false := fun no => by rw [make] at no; cases no
    have first : ¬ m.key.extended = true := fun yes => by rw [plain] at yes; cases yes
    unfold messageEvent at eq
    rw [if_neg up, if_neg up, if_neg first, if_neg first] at eq
    have same := charEvent_inj eq
    cases a <;> cases b
    · rfl
    · exact absurd same.symm chars
    · exact absurd same chars
    · rfl
  · intro agree
    by_cases differs : Distinguishes m
    · rw [agree differs]
    · unfold messageEvent
      split
      · rfl
      · rename_i up
        split
        · rfl
        · rename_i first
          have make : m.make = true := eq_true_of_ne_false up
          have plain : m.key.extended = false := eq_false_of_ne_true first
          have same : tableChar true m.key.code = tableChar false m.key.code := by
            by_contra chars
            exact differs ⟨make, plain, chars⟩
          cases a <;> cases b
          · rfl
          · rw [same]
          · rw [same]
          · rfl

/-- Either flag gives the same event iff the keys are in order here. -/
theorem event_agrees_iff : messageEvent (shiftFlag ms) m = messageEvent (shiftHeld (heldAfter ms)) m ↔
    (Distinguishes m → shiftHeld (heldAfter ms) = true → shiftFlag ms = true) := by
  rw [messageEvent_eq_iff]
  apply imp_congr_right
  intro _
  constructor
  · intro eq held
    rw [eq, held]
  · intro order
    cases flag : shiftFlag ms with
    | true => exact (shiftHeld_of_flag flag).symm
    | false =>
      cases held : shiftHeld (heldAfter ms) with
      | false => rfl
      | true => exact flag.symm.trans (order held)

theorem shiftsInOrder_snoc : ShiftsInOrder (ms ++ [m]) ↔
    ShiftsInOrder ms ∧ (Distinguishes m → shiftHeld (heldAfter ms) = true → shiftFlag ms = true) := by
  constructor
  · intro order
    constructor
    · rintro before m' after rfl
      exact order before m' (after ++ [m]) (by rw [List.append_assoc, List.cons_append])
    · exact order ms m [] rfl
  · rintro ⟨order, last⟩ before m' after split
    induction after using List.reverseRecOn with
    | nil =>
      obtain ⟨rfl, eq⟩ := List.append_inj' split rfl
      cases eq
      exact last
    | append_singleton after m'' _ =>
      rw [← List.cons_append, ← List.append_assoc] at split
      obtain ⟨rfl, -⟩ := List.append_inj' split rfl
      exact order before m' after rfl

end

/-! ## Messages through the decoder -/

/-- **The decoder over a sequence of messages**, as far as the flags and the events go. -/
theorem decode_messages (ms : List Message) : ∃ events,
    (ms.flatMap Message.bytes).foldl decodeStep (false, false, []) = (shiftFlag ms, false, events) ∧
      events.length = (typed ms).length ∧ (events = typed ms ↔ ShiftsInOrder ms) := by
  induction ms using List.reverseRecOn with
  | nil =>
    refine ⟨[], rfl, rfl, iff_of_true rfl ?_⟩
    intro before m after split
    exact absurd split (by simp)
  | append_singleton ms m ih =>
    obtain ⟨events, run, length, iff⟩ := ih
    have count := messageEvent_length m (shiftFlag ms) (shiftHeld (heldAfter ms))
    refine ⟨events ++ (messageEvent (shiftFlag ms) m).toList, ?_, ?_, ?_⟩
    · rw [List.flatMap_append, List.foldl_append, run, List.flatMap_singleton, decode_message, shiftFlag_snoc]
    · rw [typed_snoc, List.length_append, List.length_append, length, count]
    · rw [typed_snoc, shiftsInOrder_snoc, ← iff, ← event_agrees_iff]
      constructor
      · intro eq
        obtain ⟨same, last⟩ := List.append_inj eq length
        exact ⟨same, toList_inj last⟩
      · rintro ⟨same, last⟩
        rw [same, last]

/-! ## Messages in the interrupt -/

/-- The scancodes of the interrupts, in order. -/
def scancodes (as : List QueueAction) : List (BitVec 8) :=
  as.flatMap fun a => match a with
    | .interrupt scancode => [scancode]
    | .consume => []

/-- The queue where no interrupt finds it full. -/
def neverFull : Lts QueueState QueueAction :=
  keyboardQueue.restrict fun q a => ∀ scancode, a = .interrupt scancode → Accepts q.keyboard

/-- The decoder as part of a state. -/
def decoderState (q : QueueState) : Bool × Bool × List InputEvent :=
  (q.keyboard.shiftPressed, q.keyboard.extendedPrefix, q.accepted)

theorem decoderState_interrupt {q : QueueState} {scancode : BitVec 8} (room : Accepts q.keyboard) :
    decoderState (interrupt q scancode) = decodeStep (decoderState q) scancode := by
  unfold interrupt decoderState decodeStep decoded keyboardProcessScancode
  rw [if_pos room]
  dsimp only
  generalize decodeScancode q.keyboard.shiftPressed q.keyboard.extendedPrefix scancode = r
  obtain ⟨shift, extended, event⟩ := r
  cases event with
  | none => rfl
  | some event =>
    have taken : queueEvent { q.keyboard with shiftPressed := shift, extendedPrefix := extended } event = _ :=
      if_pos room
    dsimp only
    rw [taken]

theorem decoderState_consume (q : QueueState) : decoderState (consume q) = decoderState q := by
  obtain ⟨keyboard, pc, accepted, returned⟩ := q
  cases pc with
  | compare =>
    unfold consume
    dsimp only
    split <;> rfl
  | load => rfl
  | store event => rfl

/-- The interrupts of a run are the decoder over their scancodes. -/
theorem decoderState_run {as : List QueueAction} {q : QueueState} (run : neverFull.Run as q) :
    decoderState q = (scancodes as).foldl decodeStep (false, false, []) := by
  induction run with
  | start init =>
    obtain ⟨k, rfl⟩ := init
    rfl
  | @snoc as q q' a run step ih =>
    obtain ⟨room, step⟩ := step
    cases step
    rw [scancodes, List.flatMap_append, List.foldl_append]
    cases a with
    | interrupt scancode =>
      rw [queueStep, decoderState_interrupt (room scancode rfl), ih]
      rfl
    | consume =>
      rw [queueStep, decoderState_consume, ih]
      rfl

/-- **When the decoder tracks the keyboard.** Whatever the messages and however the interrupts are
mixed with reads of the queue: as long as the queue is never full, the events accepted are those
of the keys held iff the Shift keys are in order. -/
theorem scancodes_typed_iff {as : List QueueAction} {q : QueueState} {ms : List Message} (run : neverFull.Run as q)
    (sent : scancodes as = ms.flatMap Message.bytes) : q.accepted = typed ms ↔ ShiftsInOrder ms := by
  obtain ⟨events, decode, -, iff⟩ := decode_messages ms
  have state := decoderState_run run
  rw [sent, decode] at state
  have accepted : q.accepted = events := congrArg (fun s => s.2.2) state
  rw [accepted]
  exact iff

theorem scancodes_interrupts (bytes : List (BitVec 8)) : scancodes (bytes.map .interrupt) = bytes := by
  rw [scancodes, List.flatMap_map]
  exact List.flatMap_singleton' bytes

/-- A few interrupts do not fill the queue. -/
theorem neverFull_interrupts {bytes : List (BitVec 8)} (few : bytes.length ≤ 255) :
    ∃ q, neverFull.Run (bytes.map .interrupt) q ∧ q.accepted.length ≤ bytes.length ∧ Exact q := by
  induction bytes using List.reverseRecOn with
  | nil => exact ⟨_, .start ⟨bootKeyboard, rfl⟩, Nat.le_refl 0, Exact.run (.start ⟨bootKeyboard, rfl⟩)⟩
  | append_singleton bytes byte ih =>
    rw [List.length_append, List.length_singleton] at few
    obtain ⟨q, run, length, exact⟩ := ih (by omega)
    have room : Accepts q.keyboard := exact.accepts_iff.2 (by omega)
    refine ⟨interrupt q byte, ?_, ?_, exact.interrupt byte⟩
    · rw [List.map_append]
      exact run.snoc ⟨fun _ _ => room, rfl⟩
    · rw [interrupt, List.length_append, List.length_append, List.length_singleton, if_pos room]
      exact Nat.add_le_add length Option.length_toList_le

/-- Shift, A, and both up. -/
def shiftA : List Message := [⟨leftShift, true⟩, ⟨⟨false, 0x1E⟩, true⟩, ⟨⟨false, 0x1E⟩, false⟩, ⟨leftShift, false⟩]

theorem scancodes_typed_iff_shiftA :
    ∃ q, neverFull.Run ((shiftA.flatMap Message.bytes).map .interrupt) q ∧ q.accepted = [⟨.char, 0x41⟩] := by
  obtain ⟨q, run, -⟩ := @neverFull_interrupts (shiftA.flatMap Message.bytes) (by decide)
  have empty : ShiftsInOrder [] := by
    intro before m after split
    exact absurd split (by simp)
  have inOrder : ShiftsInOrder shiftA := by
    refine @shiftsInOrder_snoc [_, _, _] _ |>.2 ⟨@shiftsInOrder_snoc [_, _] _ |>.2 ⟨@shiftsInOrder_snoc [_] _ |>.2
      ⟨@shiftsInOrder_snoc [] _ |>.2 ⟨empty, fun _ => ?_⟩, fun _ => ?_⟩, fun _ => ?_⟩, fun _ => ?_⟩
    all_goals decide
  have typed : typed shiftA = [⟨.char, 0x41⟩] := by decide
  refine ⟨q, run, ?_⟩
  rw [(scancodes_typed_iff run (scancodes_interrupts _)).2 inOrder, typed]

/-- Both Shift keys go down, one comes up, and A is pressed. -/
def twoShifts : List Message := [⟨leftShift, true⟩, ⟨rightShift, true⟩, ⟨rightShift, false⟩, ⟨⟨false, 0x1E⟩, true⟩]

/-- With the left Shift key still held the decoder queues a small letter. -/
theorem held_shift_forgotten : ∃ q, neverFull.Run ((twoShifts.flatMap Message.bytes).map .interrupt) q ∧
    q.accepted = [⟨.char, 0x61⟩] ∧ typed twoShifts = [⟨.char, 0x41⟩] := by
  obtain ⟨q, run, -⟩ := @neverFull_interrupts (twoShifts.flatMap Message.bytes) (by decide)
  have state := decoderState_run run
  rw [scancodes_interrupts] at state
  have accepted : q.accepted = _ := congrArg (fun s => s.2.2) state
  exact ⟨q, run, accepted.trans (by decide), by decide⟩

end SimpleKernel.Input
