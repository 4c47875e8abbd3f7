import SimpleKernel.Console.Serial
import SimpleKernel.Vga.Colour

/-!
# `console.c` and `kprint.c`

Every character goes to the screen and to the serial line. What the kernel asks of the console is a
list of requests; a request is a text for the line and calls of `vga.c` (`serve_eq`). The line tells
the whole text (`console_transcript`), and the colours change neither it nor where a character
stands (`colours_invisible`).
-/

namespace SimpleKernel.Console
set_option autoImplicit false
open Lib

structure State where
  vga : Vga.State
  serial : Serial

/-- What the kernel asks for. `cmd_clear`, `cmd_color` and the scrolling call `vga.c` and leave the line alone. -/
inductive Request where
  | kprint (text : List (BitVec 8))
  | kprintColored (text : List (BitVec 8)) (fg bg : BitVec 8)
  | kprintRainbow (text : List (BitVec 8))
  | setcolor (color : BitVec 8)
  | clear
  | scrollView (delta : Int)
  | scrollToBottom
  deriving DecidableEq

def grey : BitVec 8 := Vga.vgaEntryColor Vga.vgaColorLightGrey Vga.vgaColorBlack

def consoleSetcolor (c : State) (color : BitVec 8) : State := { c with vga := Vga.vgaSetcolor c.vga color }

section

variable (turns : Turns) (polls : Nat)

def consoleInit (c : State) : State := ⟨Vga.vgaInitialize c.vga, serialInit turns c.serial⟩

def consoleWriteChar (c : State) (ch : BitVec 8) : Option State := do
  let vga := Vga.vgaPutchar c.vga ch
  let serial ← serialWriteChar turns polls c.serial ch
  some ⟨vga, serial⟩

def consoleWrite (c : State) (text : List (BitVec 8)) : Option State := text.foldlM (consoleWriteChar turns polls) c

def kprintColored (c : State) (text : List (BitVec 8)) (fg bg : BitVec 8) : Option State := do
  let c ← consoleWrite turns polls (consoleSetcolor c (Vga.vgaEntryColor fg bg)) text
  some (consoleSetcolor c grey)

/-- The loop of `kprint_rainbow`, with `color_index`. -/
def rainbowLoop : List (BitVec 8) → BitVec 8 → State → Option State
  | [], _, c => some c
  | ch :: text, index, c =>
    if ch = 0x0A then do
      let c ← consoleWriteChar turns polls c 0x0A
      rainbowLoop text index c
    else do
      let c := consoleSetcolor c (Vga.vgaEntryColor index Vga.vgaColorBlack)
      let c ← consoleWriteChar turns polls c ch
      let index := index + 1
      rainbowLoop text (if index > 15 then 1 else index) c

def kprintRainbow (c : State) (text : List (BitVec 8)) : Option State := do
  let c ← rainbowLoop turns polls text 1 c
  some (consoleSetcolor c grey)

def serve (c : State) : Request → Option State
  | .kprint text => consoleWrite turns polls c text
  | .kprintColored text fg bg => kprintColored turns polls c text fg bg
  | .kprintRainbow text => kprintRainbow turns polls c text
  | .setcolor color => some (consoleSetcolor c color)
  | .clear => some { c with vga := Vga.vgaClear c.vga }
  | .scrollView delta => some { c with vga := Vga.vgaScrollView c.vga delta }
  | .scrollToBottom => some { c with vga := Vga.vgaScrollToBottom c.vga }

/-- Requests one after the other. -/
def serveAll (c : State) (rs : List Request) : Option State := rs.foldlM (serve turns polls) c

end

/-! ## A request in two halves -/

/-- What goes to the line. -/
def Request.text : Request → List (BitVec 8)
  | .kprint text => text
  | .kprintColored text _ _ => text
  | .kprintRainbow text => text
  | .setcolor _ => []
  | .clear => []
  | .scrollView _ => []
  | .scrollToBottom => []

/-- The calls of a rainbow. -/
def rainbowCalls : List (BitVec 8) → BitVec 8 → List Vga.Call
  | [], _ => []
  | ch :: text, index =>
    if ch = 0x0A then .putchar 0x0A :: rainbowCalls text index
    else .setcolor (Vga.vgaEntryColor index Vga.vgaColorBlack) :: .putchar ch ::
      rainbowCalls text (if index + 1 > 15 then 1 else index + 1)

/-- What goes to the screen. -/
def Request.calls : Request → List Vga.Call
  | .kprint text => [.write text]
  | .kprintColored text fg bg => [.setcolor (Vga.vgaEntryColor fg bg), .write text, .setcolor grey]
  | .kprintRainbow text => rainbowCalls text 1 ++ [.setcolor grey]
  | .setcolor color => [.setcolor color]
  | .clear => [.clear]
  | .scrollView delta => [.scrollView delta]
  | .scrollToBottom => [.scrollToBottom]

section

variable {turns : Turns} {polls : Nat} {c : State}

theorem serialWrite_cons (s : Serial) (ch : BitVec 8) (text : List (BitVec 8)) :
    serialWrite turns polls s (ch :: text) =
      (serialWriteChar turns polls s ch).bind fun s => serialWrite turns polls s text := List.foldlM_cons

theorem consoleWrite_cons (c : State) (ch : BitVec 8) (text : List (BitVec 8)) :
    consoleWrite turns polls c (ch :: text) =
      (consoleWriteChar turns polls c ch).bind fun c => consoleWrite turns polls c text := List.foldlM_cons

theorem consoleWriteChar_bind {α : Type*} (c : State) (ch : BitVec 8) (k : State → Option α) :
    (consoleWriteChar turns polls c ch).bind k =
      (serialWriteChar turns polls c.serial ch).bind fun s => k ⟨Vga.vgaPutchar c.vga ch, s⟩ := by
  unfold consoleWriteChar
  cases serialWriteChar turns polls c.serial ch with
  | none => rfl
  | some s => rfl

theorem consoleWrite_eq (c : State) (text : List (BitVec 8)) : consoleWrite turns polls c text =
    (serialWrite turns polls c.serial text).map fun s => ⟨Vga.vgaWrite c.vga text, s⟩ := by
  induction text generalizing c with
  | nil => rfl
  | cons ch text ih =>
    rw [consoleWrite_cons, serialWrite_cons, consoleWriteChar_bind, Option.map_bind]
    exact congrArg _ (funext fun s => ih _)

theorem rainbowLoop_eq (c : State) (text : List (BitVec 8)) (index : BitVec 8) : rainbowLoop turns polls text index c =
    (serialWrite turns polls c.serial text).map fun s => ⟨(rainbowCalls text index).foldl Vga.call c.vga, s⟩ := by
  induction text generalizing c index with
  | nil => rfl
  | cons ch text ih =>
    rw [rainbowLoop, rainbowCalls, serialWrite_cons, Option.map_bind]
    by_cases newline : ch = 0x0A
    · subst newline
      rw [if_pos rfl, if_pos rfl]
      refine (consoleWriteChar_bind c 0x0A _).trans ?_
      exact congrArg _ (funext fun s => ih _ _)
    · rw [if_neg newline, if_neg newline]
      refine (consoleWriteChar_bind (consoleSetcolor c _) ch _).trans ?_
      exact congrArg _ (funext fun s => ih _ _)

/-- **The two halves of a request.** -/
theorem serve_eq (c : State) (r : Request) : serve turns polls c r =
    (serialWrite turns polls c.serial r.text).map fun s => ⟨r.calls.foldl Vga.call c.vga, s⟩ := by
  cases r with
  | kprint text => exact consoleWrite_eq c text
  | kprintColored text fg bg =>
    show (consoleWrite turns polls (consoleSetcolor c (Vga.vgaEntryColor fg bg)) text).bind _ = _
    rw [consoleWrite_eq, Option.bind_map]
    exact Option.map_eq_bind.symm
  | kprintRainbow text =>
    show (rainbowLoop turns polls text 1 c).bind _ = _
    rw [rainbowLoop_eq, Option.bind_map]
    unfold Request.calls
    simp only [List.foldl_append]
    exact Option.map_eq_bind.symm
  | setcolor color => rfl
  | clear => rfl
  | scrollView delta => rfl
  | scrollToBottom => rfl

/-- The transcript of requests. -/
def texts (rs : List Request) : List (BitVec 8) := rs.flatMap Request.text

theorem serialWrite_append (s : Serial) (text text' : List (BitVec 8)) : serialWrite turns polls s (text ++ text') =
    (serialWrite turns polls s text).bind fun s => serialWrite turns polls s text' := List.foldlM_append

/-- **The two halves of a sequence.** -/
theorem serveAll_eq (c : State) (rs : List Request) : serveAll turns polls c rs =
    (serialWrite turns polls c.serial (texts rs)).map fun s =>
      ⟨(rs.flatMap Request.calls).foldl Vga.call c.vga, s⟩ := by
  induction rs generalizing c with
  | nil => rfl
  | cons r rs ih =>
    have first : serveAll turns polls c (r :: rs) = (serve turns polls c r).bind fun c => serveAll turns polls c rs :=
      List.foldlM_cons
    rw [first, serve_eq, Option.bind_map, texts, List.flatMap_cons, List.flatMap_cons, serialWrite_append,
      Option.map_bind]
    refine congrArg _ (funext fun s => (ih _).trans ?_)
    rw [List.foldl_append]
    rfl

/-! ## The line -/

/-- `text` has gone to the line, or waits to, since `serial_init`: at 115200 baud with eight bits
and one stop bit, nothing lost, at most one byte in the queue. -/
structure Transcript (before after : Serial) (text : List (BitVec 8)) : Prop where
  sent : ∃ start, before.port.uart.line <+: start ∧
    after.port.uart.stream = start ++ (crlf text).map fun b => ⟨b, 1, 0x03⟩
  lost : after.port.uart.lost = before.port.uart.lost
  queue : after.port.uart.pending.length ≤ 1

/-- **The line tells all.** From any state of the port and of the screen, `console_init` and any
requests end, as long as the line takes bytes. The screen has had their calls, the line their texts,
and the texts can be read from the line. -/
theorem console_transcript (turns : Turns) (fair : turns.Fair) (c : State) (rs : List Request) :
    ∃ c', Settles (fun polls => serveAll turns polls (consoleInit turns c) rs) c' ∧
      c'.vga = (rs.flatMap Request.calls).foldl Vga.call (Vga.vgaInitialize c.vga) ∧
      Transcript c.serial c'.serial (texts rs) ∧ uncrlf (crlf (texts rs)) = texts rs := by
  have configured := serialInit_configured turns c.serial
  obtain ⟨s', run, ⟨pending, line', moved, stream⟩, opened⟩ := serialWrite_spec fair configured.opened (texts rs)
  obtain ⟨ier, line, longer, -, eq⟩ := configured.registers
  refine ⟨⟨(rs.flatMap Request.calls).foldl Vga.call (Vga.vgaInitialize c.vga), s'⟩, ?_, rfl,
    ⟨⟨line, longer, ?_⟩, ?_, opened.queue⟩, uncrlf_crlf _⟩
  · exact (run.map _).congr fun polls => serveAll_eq _ rs
  · rw [stream, eq]
    show line ++ [] ++ (crlf (texts rs)).map (fun b => ⟨b, 1, 0x03 &&& 0x7F⟩) = _
    rw [List.append_nil]
    rfl
  · rw [moved, eq]
    rfl

/-! ## Colours -/

/-- A request without its colours. -/
def Request.plain : Request → Request
  | .kprintColored text _ _ => .kprint text
  | .kprintRainbow text => .kprint text
  | .setcolor _ => .kprint []
  | r => r

/-- The console without its colours. -/
def State.bare (c : State) : Vga.State × Serial := (Vga.bare c.vga, c.serial)

theorem rainbow_bare (v : Vga.State) (text : List (BitVec 8)) (index : BitVec 8) :
    Vga.bare ((rainbowCalls text index).foldl Vga.call v) = Vga.vgaWrite (Vga.bare v) text := by
  induction text generalizing v index with
  | nil => rfl
  | cons ch text ih =>
    rw [rainbowCalls]
    by_cases newline : ch = 0x0A
    · subst newline
      rw [if_pos rfl]
      refine (ih (Vga.vgaPutchar v 0x0A) index).trans ?_
      rw [← Vga.bare_putchar]
      rfl
    · rw [if_neg newline]
      refine (ih (Vga.vgaPutchar (Vga.vgaSetcolor v _) ch) _).trans ?_
      rw [← Vga.bare_putchar]
      rfl

theorem calls_bare (v : Vga.State) (r : Request) :
    Vga.bare (r.calls.foldl Vga.call v) = r.plain.calls.foldl Vga.call (Vga.bare v) := by
  cases r with
  | kprint text => exact (Vga.bare_call v (.write text)).symm
  | kprintColored text fg bg => exact (Vga.bare_call (Vga.vgaSetcolor v _) (.write text)).symm
  | kprintRainbow text =>
    rw [Request.calls, List.foldl_append]
    exact rainbow_bare v text 1
  | setcolor color => rfl
  | clear => exact (Vga.bare_call v .clear).symm
  | scrollView delta => exact (Vga.bare_call v (.scrollView delta)).symm
  | scrollToBottom => exact (Vga.bare_call v .scrollToBottom).symm

theorem allCalls_bare (v : Vga.State) (rs : List Request) : Vga.bare ((rs.flatMap Request.calls).foldl Vga.call v) =
    ((rs.map Request.plain).flatMap Request.calls).foldl Vga.call (Vga.bare v) := by
  induction rs generalizing v with
  | nil => rfl
  | cons r rs ih =>
    rw [List.map_cons, List.flatMap_cons, List.flatMap_cons, List.foldl_append, List.foldl_append, ih, calls_bare]

theorem texts_plain (rs : List Request) : texts (rs.map Request.plain) = texts rs := by
  have one : ∀ r : Request, r.plain.text = r.text := by
    intro r
    cases r <;> rfl
  rw [texts, List.flatMap_map, texts]
  exact congrArg (rs.flatMap ·) (funext one)

/-- **Colours are for the eye only.** Two sequences of requests that differ in their colours, on
consoles that do, have the same outcome but for the colours: the same characters in the same cells,
cursor and view, and the same bytes on the line. -/
theorem colours_invisible (turns : Turns) (polls : Nat) (c d : State) (same : c.bare = d.bare) (rs rs' : List Request)
    (like : rs.map Request.plain = rs'.map Request.plain) :
    (serveAll turns polls c rs).map State.bare = (serveAll turns polls d rs').map State.bare := by
  obtain ⟨screen, line⟩ := Prod.mk.inj same
  have outcome : ∀ (c : State) (rs : List Request), (serveAll turns polls c rs).map State.bare =
      (serialWrite turns polls c.serial (texts (rs.map Request.plain))).map fun s =>
        (((rs.map Request.plain).flatMap Request.calls).foldl Vga.call (Vga.bare c.vga), s) := by
    intro c rs
    rw [serveAll_eq, texts_plain, Option.map_map, ← allCalls_bare]
    rfl
  rw [outcome, outcome, screen, line, like]

end

/-- A byte leaves between any two accesses. -/
def steadyLine : Turns := fun _ => ⟨1, 0x41⟩

/-- A port that the firmware left at the divisor latch, with its queue off and a byte in it. -/
def anyPort : Serial := ⟨false, ⟨⟨0x0F, 0x83, 0x10, false, 0x0C, [0x3F], [], []⟩, 0⟩⟩

theorem console_transcript_newline : ∃ c', Settles (fun polls => serveAll steadyLine polls
    (consoleInit steadyLine ⟨Vga.bss, anyPort⟩) [.kprintRainbow [0x48], .clear, .kprint [0x69, 0x0A]]) c' ∧
      ∃ start, c'.serial.port.uart.stream = start ++ [⟨0x48, 1, 3⟩, ⟨0x69, 1, 3⟩, ⟨0x0D, 1, 3⟩, ⟨0x0A, 1, 3⟩] := by
  have fair : steadyLine.Fair := fun n => ⟨n, Nat.le_refl n, Nat.one_pos⟩
  obtain ⟨c', run, -, transcript, -⟩ := console_transcript steadyLine fair ⟨Vga.bss, anyPort⟩
    [.kprintRainbow [0x48], .clear, .kprint [0x69, 0x0A]]
  obtain ⟨start, -, stream⟩ := transcript.sent
  have chars : crlf (texts [.kprintRainbow [0x48], .clear, .kprint [0x69, 0x0A]]) =
      [0x48, 0x69, 0x0D, 0x0A] := by decide
  rw [chars] at stream
  exact ⟨c', run, start, stream⟩

theorem colours_invisible_rainbow :
    (serveAll steadyLine 4 ⟨Vga.bss, anyPort⟩ [.kprintRainbow [0x48]]).map State.bare =
      (serveAll steadyLine 4 ⟨Vga.vgaSetcolor Vga.bss 4, anyPort⟩ [.kprint [0x48]]).map State.bare :=
  colours_invisible steadyLine 4 ⟨Vga.bss, anyPort⟩ ⟨Vga.vgaSetcolor Vga.bss 4, anyPort⟩ rfl [.kprintRainbow [0x48]]
    [.kprint [0x48]] rfl

end SimpleKernel.Console
