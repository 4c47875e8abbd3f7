import Mathlib.Data.List.Induction
import SimpleKernel.Lib.Lts
import SimpleKernel.Lib.Ring
import SimpleKernel.Input.Keyboard

/-!
# The event queue under interrupts

`keyboard_getevent` compares the indices, loads the event and stores the new tail; the
keyboard interrupt may run between any two of these steps. Beside the keyboard a state
remembers what was accepted and what was returned. However the steps interleave, what was
returned is a prefix of what was accepted (`keyboard_queue_exact`).
-/

namespace SimpleKernel.Input
set_option autoImplicit false
open Lib Kstring

/-- The next step of `keyboard_getevent`. -/
inductive Pc where
  | compare
  | load
  | store (event : InputEvent)
  deriving DecidableEq

structure QueueState where
  keyboard : Keyboard
  pc : Pc
  accepted : List InputEvent
  returned : List InputEvent

/-- The test of `queue_event`. -/
def Accepts (k : Keyboard) : Prop := nextHead k ≠ k.inputQueueTail

instance (k : Keyboard) : Decidable (Accepts k) := inferInstanceAs (Decidable (_ ≠ _))

/-- The event of a scancode. -/
def decoded (k : Keyboard) (scancode : BitVec 8) : Option InputEvent :=
  (decodeScancode k.shiftPressed k.extendedPrefix scancode).2.2

inductive QueueAction where
  | interrupt (scancode : BitVec 8)
  | consume
  deriving DecidableEq

/-- One whole `keyboard_process_scancode`. -/
def interrupt (q : QueueState) (scancode : BitVec 8) : QueueState :=
  { q with
    keyboard := keyboardProcessScancode q.keyboard scancode
    accepted := q.accepted ++ if Accepts q.keyboard then (decoded q.keyboard scancode).toList else [] }

/-- One step of `keyboard_getevent`, called again when it has returned. -/
def consume (q : QueueState) : QueueState :=
  match q.pc with
  | .compare => if keyboardHasInput q.keyboard then { q with pc := .load } else q
  | .load => { q with pc := .store (tailEvent q.keyboard) }
  | .store event =>
    { q with keyboard := advanceTail q.keyboard, pc := .compare, returned := q.returned ++ [event] }

def queueStep (q : QueueState) : QueueAction → QueueState
  | .interrupt scancode => interrupt q scancode
  | .consume => consume q

def keyboardQueue : Lts QueueState QueueAction where
  Init q := ∃ k, q = ⟨keyboardResetState k, .compare, [], []⟩
  Step q a q' := q' = queueStep q a

/-- Without interrupts three steps are `keyboard_getevent`. -/
theorem consume_getevent {q : QueueState} {event : InputEvent} {k : Keyboard} (start : q.pc = .compare)
    (returns : keyboardGetevent q.keyboard = some (event, k)) :
    consume (consume (consume q)) = { q with keyboard := k, returned := q.returned ++ [event] } := by
  obtain ⟨keyboard, pc, accepted, returned⟩ := q
  cases start
  rw [keyboardGetevent] at returns
  split at returns
  · rename_i input
    cases returns
    have first : consume ⟨keyboard, .compare, accepted, returned⟩ = ⟨keyboard, .load, accepted, returned⟩ :=
      if_pos input
    rw [first]
    rfl
  · cases returns

/-! ## One scancode -/

section

variable {k : Keyboard} {scancode : BitVec 8}

theorem processScancode_ignored (nothing : decoded k scancode = none ∨ ¬ Accepts k) :
    ∃ shift extended,
      keyboardProcessScancode k scancode = { k with shiftPressed := shift, extendedPrefix := extended } := by
  unfold keyboardProcessScancode decoded at *
  generalize decodeScancode k.shiftPressed k.extendedPrefix scancode = r at *
  obtain ⟨shift, extended, event⟩ := r
  refine ⟨shift, extended, ?_⟩
  cases event with
  | none => rfl
  | some event =>
    have full : ¬ nextHead k ≠ k.inputQueueTail := nothing.resolve_left (Option.some_ne_none event)
    exact if_neg full

theorem processScancode_accepted {event : InputEvent} (eq : decoded k scancode = some event) (room : Accepts k) :
    ∃ shift extended, keyboardProcessScancode k scancode =
      { k with
        shiftPressed := shift
        extendedPrefix := extended
        inputQueue := setCell k.inputQueue k.inputQueueHead event
        inputQueueHead := nextHead k } := by
  unfold keyboardProcessScancode decoded at *
  generalize decodeScancode k.shiftPressed k.extendedPrefix scancode = r at *
  obtain ⟨shift, extended, found⟩ := r
  cases eq
  exact ⟨shift, extended, if_pos room⟩

end

/-! ## The invariant -/

/-- The queue is a ring with the accepted events from the first that was not returned on, never
more than 255, and the event in the hands of `keyboard_getevent` is that first one. -/
structure Exact (q : QueueState) : Prop where
  head : q.keyboard.inputQueueHead = q.accepted.length % 256
  tail : q.keyboard.inputQueueTail = q.returned.length % 256
  room : q.accepted.length ≤ q.returned.length + 255
  ring : Ring (fun cell event => cell = event) 256 q.keyboard.inputQueue q.accepted q.returned.length
  before : q.returned <+: q.accepted
  loads : q.pc = .load → q.returned.length < q.accepted.length
  stores : ∀ event, q.pc = .store event → q.accepted[q.returned.length]? = some event

namespace Exact

variable {q : QueueState}

theorem accepts_iff (h : Exact q) : Accepts q.keyboard ↔ q.accepted.length < q.returned.length + 255 := by
  have head := h.head
  have tail := h.tail
  have room := h.room
  have kept := h.ring.kept
  rw [Accepts, nextHead, inputBufferSize_eq, head, tail]
  omega

theorem hasInput_iff (h : Exact q) : keyboardHasInput q.keyboard = true ↔ q.returned.length < q.accepted.length := by
  have head := h.head
  have tail := h.tail
  have room := h.room
  have kept := h.ring.kept
  rw [keyboardHasInput, bne_iff_ne, head, tail]
  omega

/-- The slot at the tail. -/
theorem tailEvent (h : Exact q) (pending : q.returned.length < q.accepted.length) :
    q.accepted[q.returned.length]? = some (tailEvent q.keyboard) := by
  have stored := h.ring.stored _ pending (Nat.le_refl _)
  rw [Input.tailEvent, h.tail, stored]
  exact List.getElem?_eq_getElem pending

theorem interrupt (h : Exact q) (scancode : BitVec 8) : Exact (interrupt q scancode) := by
  by_cases room : Accepts q.keyboard
  · cases eq : decoded q.keyboard scancode with
    | none =>
      obtain ⟨shift, extended, run⟩ := processScancode_ignored (.inl eq)
      rw [Input.interrupt, run, if_pos room, eq, Option.toList_none, List.append_nil]
      exact ⟨h.head, h.tail, h.room, h.ring, h.before, h.loads, h.stores⟩
    | some event =>
      obtain ⟨shift, extended, run⟩ := processScancode_accepted eq room
      have below := h.accepts_iff.1 room
      have pushed : Ring (fun cell event => cell = event) 256
          (setCell q.keyboard.inputQueue (q.accepted.length % 256) event) (q.accepted ++ [event]) q.returned.length :=
        h.ring.push (by omega) rfl
      rw [Input.interrupt, run, if_pos room, eq, Option.toList_some]
      refine ⟨?_, h.tail, ?_, ?_, h.before.trans (List.prefix_append _ _), ?_, ?_⟩
      · rw [List.length_append, List.length_singleton]
        dsimp only
        rw [nextHead, inputBufferSize_eq, h.head]
        omega
      · rw [List.length_append, List.length_singleton]
        exact below
      · rw [← h.head] at pushed
        exact pushed
      · intro loading
        have pending := h.loads loading
        rw [List.length_append]
        exact Nat.lt_of_lt_of_le pending (Nat.le_add_right _ _)
      · intro event' storing
        have found := h.stores event' storing
        have inside : q.returned.length < q.accepted.length := (List.getElem?_eq_some_iff.1 found).1
        rw [List.getElem?_append_left inside]
        exact found
  · obtain ⟨shift, extended, run⟩ := @processScancode_ignored q.keyboard scancode (.inr room)
    rw [Input.interrupt, run, if_neg room, List.append_nil]
    exact ⟨h.head, h.tail, h.room, h.ring, h.before, h.loads, h.stores⟩

theorem consume (h : Exact q) : Exact (consume q) := by
  obtain ⟨keyboard, pc, accepted, returned⟩ := q
  cases pc with
  | compare =>
    by_cases input : keyboardHasInput keyboard = true
    · have pending := h.hasInput_iff.1 input
      have next : Input.consume ⟨keyboard, .compare, accepted, returned⟩ = ⟨keyboard, .load, accepted, returned⟩ :=
        if_pos input
      rw [next]
      exact ⟨h.head, h.tail, h.room, h.ring, h.before, fun _ => pending, (fun _ eq => nomatch eq)⟩
    · have waits : Input.consume ⟨keyboard, .compare, accepted, returned⟩ = ⟨keyboard, .compare, accepted, returned⟩ :=
        if_neg input
      rw [waits]
      exact h
  | load =>
    have found := h.tailEvent (h.loads rfl)
    refine ⟨h.head, h.tail, h.room, h.ring, h.before, (fun eq => nomatch eq), ?_⟩
    intro event eq
    cases eq
    exact found
  | store event =>
    have found := h.stores event rfl
    obtain ⟨pending, -⟩ := List.getElem?_eq_some_iff.1 found
    have tail := h.tail
    have room := h.room
    obtain ⟨rest, split⟩ := h.before
    dsimp only at found pending tail room split
    refine ⟨h.head, ?_, ?_, ?_, ?_, (fun eq => nomatch eq), fun _ eq => nomatch eq⟩
    · show (keyboard.inputQueueTail + 1) % inputBufferSize = (returned ++ [event]).length % 256
      rw [List.length_append, List.length_singleton, inputBufferSize_eq, tail]
      omega
    · show accepted.length ≤ (returned ++ [event]).length + 255
      rw [List.length_append]
      omega
    · show Ring _ 256 keyboard.inputQueue accepted (returned ++ [event]).length
      rw [List.length_append]
      exact h.ring.drop (Nat.le_add_right _ _) pending
    · show returned ++ [event] <+: accepted
      rw [← split, List.getElem?_append_right (Nat.le_refl _), Nat.sub_self] at found
      cases rest with
      | nil => cases found
      | cons first rest =>
        cases found
        exact ⟨rest, by rw [← split, List.append_assoc, List.singleton_append]⟩

theorem run {as : List QueueAction} (run : keyboardQueue.Run as q) : Exact q := by
  apply run.invariant
  · intro q init
    obtain ⟨k, rfl⟩ := init
    exact ⟨rfl, rfl, Nat.zero_le _, .empty _ _ _, List.prefix_rfl, (fun eq => nomatch eq), fun _ eq => nomatch eq⟩
  · intro q a q' inv step
    cases step
    cases a with
    | interrupt scancode => exact inv.interrupt scancode
    | consume => exact inv.consume

end Exact

/-- **The queue loses and duplicates nothing.** What was returned is a prefix of what was accepted,
the rest is in the slots from the tail on, `queue_event` rejects only when 255 accepted events
are not returned, and the event loaded or about to be is the next accepted one. -/
theorem keyboard_queue_exact {as : List QueueAction} {q : QueueState} (run : keyboardQueue.Run as q) :
    q.returned <+: q.accepted ∧
      (∀ i (_ : i < q.accepted.length), q.returned.length ≤ i → q.keyboard.inputQueue (i % 256) = q.accepted[i]) ∧
      (¬ Accepts q.keyboard → q.accepted.length = q.returned.length + 255) ∧
      (q.pc = .load → q.accepted[q.returned.length]? = some (tailEvent q.keyboard)) ∧
      (∀ event, q.pc = .store event → q.accepted[q.returned.length]? = some event) := by
  have exact := Exact.run run
  refine ⟨exact.before, exact.ring.stored, ?_, fun loading => exact.tailEvent (exact.loads loading), exact.stores⟩
  intro full
  have room := exact.room
  have below := mt exact.accepts_iff.2 full
  omega

/-- The memory the kernel boots with. -/
def bootKeyboard : Keyboard := ⟨false, false, fun _ => ⟨.char, 0⟩, 0, 0⟩

theorem keyboardQueue_run (as : List QueueAction) :
    keyboardQueue.Run as (as.foldl queueStep ⟨keyboardResetState bootKeyboard, .compare, [], []⟩) := by
  induction as using List.reverseRecOn with
  | nil => exact .start ⟨bootKeyboard, rfl⟩
  | append_singleton as a ih =>
    rw [List.foldl_append]
    exact ih.snoc rfl

/-- A second key arrives between the load of the first event and the store of the tail. -/
def twoKeys : List QueueAction :=
  [.interrupt 0x1E, .consume, .consume, .interrupt 0x30, .consume, .consume, .consume]

theorem keyboard_queue_exact_twoKeys :
    let q := twoKeys.foldl queueStep ⟨keyboardResetState bootKeyboard, .compare, [], []⟩
    q.accepted = [⟨.char, 0x61⟩, ⟨.char, 0x62⟩] ∧ q.returned = [⟨.char, 0x61⟩] ∧ q.returned <+: q.accepted ∧
      q.pc = .store ⟨.char, 0x62⟩ :=
  ⟨by decide, by decide, (keyboard_queue_exact (keyboardQueue_run twoKeys)).1, by decide⟩

end SimpleKernel.Input
