import SimpleKernel.Kstring

/-!
# `vga.c`: the text console

`State` holds the static variables, the frame buffer that `terminal_buffer` points to and
the cursor registers of the CRTC. A `u16` array is a function on its indices. The
`size_t` counters are naturals: no function adds to one that can be near `2^64`.
-/

namespace SimpleKernel.Vga
set_option autoImplicit false
open Kstring

def vgaScrollbackRows : Nat := 256
def vgaWidth : Nat := 80
def vgaHeight : Nat := 25
def vgaPaddingX : Nat := 1
def vgaPaddingY : Nat := 1
def vgaContentWidth : Nat := vgaWidth - vgaPaddingX * 2
def vgaContentHeight : Nat := vgaHeight - vgaPaddingY * 2

theorem vgaScrollbackRows_eq : vgaScrollbackRows = 256 := rfl
theorem vgaWidth_eq : vgaWidth = 80 := rfl
theorem vgaHeight_eq : vgaHeight = 25 := rfl
theorem vgaPaddingX_eq : vgaPaddingX = 1 := rfl
theorem vgaPaddingY_eq : vgaPaddingY = 1 := rfl
theorem vgaContentWidth_eq : vgaContentWidth = 78 := rfl
theorem vgaContentHeight_eq : vgaContentHeight = 23 := rfl

def vgaColorBlack : BitVec 8 := 0
def vgaColorLightGrey : BitVec 8 := 7
def vgaColorLightGreen : BitVec 8 := 10
def vgaColorLightCyan : BitVec 8 := 11

def vgaEntryColor (fg bg : BitVec 8) : BitVec 8 := fg ||| bg <<< 4

def vgaEntry (uc color : BitVec 8) : BitVec 16 := uc.setWidth 16 ||| color.setWidth 16 <<< 8

structure State where
  terminalRow : Nat
  terminalColumn : Nat
  viewportRow : Nat
  totalRows : Nat
  terminalColor : BitVec 8
  terminalBuffer : Nat → BitVec 16
  historyBuffer : Nat → BitVec 16
  cursorLow : BitVec 8
  cursorHigh : BitVec 8

def vgaBottomViewportRow (v : State) : Nat :=
  if v.totalRows > vgaContentHeight then v.totalRows - vgaContentHeight else 0

def blankEntry (v : State) : BitVec 16 := vgaEntry 0x20 v.terminalColor

def clearHistoryRow (v : State) (row : Nat) : State :=
  let blank := blankEntry v
  { v with historyBuffer :=
      (List.range vgaContentWidth).foldl (fun h i => setCell h (row * vgaContentWidth + i) blank) v.historyBuffer }

def shiftHistoryUp (v : State) : State :=
  let history := kmemmove v.historyBuffer 0 vgaContentWidth ((vgaScrollbackRows - 1) * vgaContentWidth)
  let v := { v with historyBuffer := history }
  let v := clearHistoryRow v (vgaScrollbackRows - 1)
  let v := if v.terminalRow > 0 then { v with terminalRow := v.terminalRow - 1 } else v
  let v := if v.viewportRow > 0 then { v with viewportRow := v.viewportRow - 1 } else v
  if v.totalRows > 0 then { v with totalRows := v.totalRows - 1 } else v

/-- The first loops of `render_viewport`: every cell of the frame buffer blank. -/
def blankFrame (blank : BitVec 16) (frame : Nat → BitVec 16) : Nat → BitVec 16 :=
  (List.range vgaHeight).foldl
    (fun frame y => (List.range vgaWidth).foldl (fun frame x => setCell frame (y * vgaWidth + x) blank) frame) frame

/-- The second loop of `render_viewport`: the rows below `total_rows`. -/
def copyRows (v : State) (frame : Nat → BitVec 16) : Nat → BitVec 16 :=
  (List.range vgaContentHeight).foldl
    (fun frame y =>
      let srcRow := v.viewportRow + y
      let dstRow := y + vgaPaddingY
      if srcRow ≥ v.totalRows then frame
      else kmemcpyFrom frame v.historyBuffer (dstRow * vgaWidth + vgaPaddingX) (srcRow * vgaContentWidth)
        vgaContentWidth)
    frame

def renderViewport (v : State) : State :=
  { v with terminalBuffer := copyRows v (blankFrame (blankEntry v) v.terminalBuffer) }

def vgaGetRow (v : State) : Nat :=
  if v.terminalRow ≥ v.viewportRow ∧ v.terminalRow < v.viewportRow + vgaContentHeight then
    v.terminalRow - v.viewportRow
  else vgaContentHeight - 1

/-- `pos` of `update_cursor`, whose `visible_row` is computed as `vga_get_row` does. -/
def cursorPos (v : State) : BitVec 16 :=
  BitVec.ofNat 16 ((vgaGetRow v + vgaPaddingY) * vgaWidth + v.terminalColumn + vgaPaddingX)

/-- Registers `0x0F` and `0x0E` of the CRTC, through its ports `0x3D4` and `0x3D5`. -/
def updateCursor (v : State) : State :=
  { v with cursorLow := (cursorPos v).setWidth 8, cursorHigh := (cursorPos v >>> 8).setWidth 8 }

def syncViewport (v : State) (followBottom : Bool) : State :=
  let v :=
    if followBottom then { v with viewportRow := vgaBottomViewportRow v }
    else if v.viewportRow > vgaBottomViewportRow v then { v with viewportRow := vgaBottomViewportRow v }
    else v
  updateCursor (renderViewport v)

/-- The two statements `if (terminal_row + 1 > total_rows) total_rows = terminal_row + 1`. -/
def growTotal (v : State) : State :=
  if v.terminalRow + 1 > v.totalRows then { v with totalRows := v.terminalRow + 1 } else v

def advanceLine (v : State) (followBottom : Bool) : State :=
  let v := { v with terminalColumn := 0, terminalRow := v.terminalRow + 1 }
  let v := if v.terminalRow ≥ vgaScrollbackRows then shiftHistoryUp v else v
  let v := growTotal v
  let v := clearHistoryRow v v.terminalRow
  syncViewport v followBottom

def vgaClear (v : State) : State :=
  let v := (List.range vgaScrollbackRows).foldl clearHistoryRow v
  let v := { v with terminalRow := 0, terminalColumn := 0, viewportRow := 0, totalRows := 1 }
  updateCursor (renderViewport v)

/-- `terminal_buffer` is the frame buffer at `VGA_MEMORY` or the one bound before. -/
def vgaInitialize (v : State) : State :=
  let v := { v with terminalRow := 0, terminalColumn := 0, viewportRow := 0, totalRows := 1 }
  let v := { v with terminalColor := vgaEntryColor vgaColorLightGrey vgaColorBlack }
  updateCursor (vgaClear v)

def vgaSetcolor (v : State) (color : BitVec 8) : State := { v with terminalColor := color }

/-- `history_buffer[row * VGA_CONTENT_WIDTH + column] = entry`. -/
def storeEntry (v : State) (row column : Nat) (entry : BitVec 16) : State :=
  { v with historyBuffer := setCell v.historyBuffer (row * vgaContentWidth + column) entry }

def vgaPutentryat (v : State) (c color : BitVec 8) (x y : Nat) : State :=
  if v.viewportRow + y ≥ vgaScrollbackRows ∨ x ≥ vgaContentWidth ∨ y ≥ vgaContentHeight then v
  else renderViewport (storeEntry v (v.viewportRow + y) x (vgaEntry c color))

/-- `'\b'`: back one cell, over the start of a row to the end of the row above. -/
def eraseBack (v : State) : State :=
  if v.terminalColumn > 0 ∨ v.terminalRow > 0 then
    let v :=
      if v.terminalColumn = 0 then { v with terminalRow := v.terminalRow - 1, terminalColumn := vgaContentWidth }
      else v
    let v := { v with terminalColumn := v.terminalColumn - 1 }
    storeEntry v v.terminalRow v.terminalColumn (vgaEntry 0x20 v.terminalColor)
  else v

def vgaPutchar (v : State) (c : BitVec 8) : State :=
  let followBottom := v.viewportRow == vgaBottomViewportRow v
  if c = 0x0A then advanceLine v followBottom
  else if c = 0x08 then syncViewport (eraseBack v) followBottom
  else
    let v := storeEntry v v.terminalRow v.terminalColumn (vgaEntry c v.terminalColor)
    let v := { v with terminalColumn := v.terminalColumn + 1 }
    if v.terminalColumn = vgaContentWidth then advanceLine v followBottom
    else syncViewport (growTotal v) followBottom

def vgaWrite (v : State) (data : List (BitVec 8)) : State := data.foldl vgaPutchar v

/-- `delta` and both sums fit in `i32`. -/
def vgaScrollView (v : State) (delta : Int) : State :=
  let next := (v.viewportRow : Int) + delta
  let bottom := (vgaBottomViewportRow v : Int)
  let next := if next < 0 then 0 else next
  let next := if next > bottom then bottom else next
  updateCursor (renderViewport { v with viewportRow := next.toNat })

def vgaScrollToBottom (v : State) : State :=
  updateCursor (renderViewport { v with viewportRow := vgaBottomViewportRow v })

end SimpleKernel.Vga
