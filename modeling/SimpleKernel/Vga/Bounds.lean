import SimpleKernel.Lib.Lts
import SimpleKernel.Lib.Word
import SimpleKernel.Vga.Terminal

/-!
# The console stays inside its arrays

`Checked` has the functions of `vga.c` once more, with every access to `history_buffer` and to
the frame buffer checked: `none` is an access outside. Under the invariant `InBounds` they
return what the unchecked functions compute, and every call keeps the invariant, so no
sequence of calls leaves an array (`console_in_bounds`).
-/

namespace SimpleKernel.Vga
set_option autoImplicit false
open Kstring Lib

/-- The length of `history_buffer`. -/
def historyCells : Nat := vgaScrollbackRows * vgaContentWidth

/-- The length of the frame buffer. -/
def frameCells : Nat := vgaWidth * vgaHeight

theorem historyCells_eq : historyCells = 256 * 78 := rfl
theorem frameCells_eq : frameCells = 80 * 25 := rfl

/-- The calls, `vga_write` with the bytes that `data` and `size` select. -/
inductive Call where
  | putchar (c : BitVec 8)
  | write (data : List (BitVec 8))
  | setcolor (color : BitVec 8)
  | clear
  | putentryat (c color : BitVec 8) (x y : Nat)
  | scrollView (delta : Int)
  | scrollToBottom

def call (v : State) : Call → State
  | .putchar c => vgaPutchar v c
  | .write data => vgaWrite v data
  | .setcolor color => vgaSetcolor v color
  | .clear => vgaClear v
  | .putentryat c color x y => vgaPutentryat v c color x y
  | .scrollView delta => vgaScrollView v delta
  | .scrollToBottom => vgaScrollToBottom v

/-! ## With every access checked -/

namespace Checked

def storeCell (size : Nat) (m : Nat → BitVec 16) (i : Nat) (entry : BitVec 16) : Option (Nat → BitVec 16) :=
  if i < size then some (setCell m i entry) else none

/-- `kmemmove` of `n` cells inside one array. -/
def moveCells (size : Nat) (m : Nat → BitVec 16) (dst src n : Nat) : Option (Nat → BitVec 16) :=
  if dst + n ≤ size ∧ src + n ≤ size then some (kmemmove m dst src n) else none

/-- `kmemcpy` of `n` cells between two arrays. -/
def copyCells (sizeOut sizeIn : Nat) (out input : Nat → BitVec 16) (dst src n : Nat) : Option (Nat → BitVec 16) :=
  if dst + n ≤ sizeOut ∧ src + n ≤ sizeIn then some (kmemcpyFrom out input dst src n) else none

def clearHistoryRow (v : State) (row : Nat) : Option State := do
  let blank := blankEntry v
  let history ← (List.range vgaContentWidth).foldlM
    (fun h i => storeCell historyCells h (row * vgaContentWidth + i) blank) v.historyBuffer
  some { v with historyBuffer := history }

def shiftHistoryUp (v : State) : Option State := do
  let history ← moveCells historyCells v.historyBuffer 0 vgaContentWidth ((vgaScrollbackRows - 1) * vgaContentWidth)
  let v ← clearHistoryRow { v with historyBuffer := history } (vgaScrollbackRows - 1)
  let v := if v.terminalRow > 0 then { v with terminalRow := v.terminalRow - 1 } else v
  let v := if v.viewportRow > 0 then { v with viewportRow := v.viewportRow - 1 } else v
  some (if v.totalRows > 0 then { v with totalRows := v.totalRows - 1 } else v)

def blankFrame (blank : BitVec 16) (frame : Nat → BitVec 16) : Option (Nat → BitVec 16) :=
  (List.range vgaHeight).foldlM
    (fun frame y => (List.range vgaWidth).foldlM
      (fun frame x => storeCell frameCells frame (y * vgaWidth + x) blank) frame) frame

def copyRows (v : State) (frame : Nat → BitVec 16) : Option (Nat → BitVec 16) :=
  (List.range vgaContentHeight).foldlM
    (fun frame y =>
      let srcRow := v.viewportRow + y
      let dstRow := y + vgaPaddingY
      if srcRow ≥ v.totalRows then some frame
      else copyCells frameCells historyCells frame v.historyBuffer (dstRow * vgaWidth + vgaPaddingX)
        (srcRow * vgaContentWidth) vgaContentWidth)
    frame

def renderViewport (v : State) : Option State := do
  let frame ← blankFrame (blankEntry v) v.terminalBuffer
  let frame ← copyRows v frame
  some { v with terminalBuffer := frame }

def syncViewport (v : State) (followBottom : Bool) : Option State := do
  let v :=
    if followBottom then { v with viewportRow := vgaBottomViewportRow v }
    else if v.viewportRow > vgaBottomViewportRow v then { v with viewportRow := vgaBottomViewportRow v }
    else v
  let v ← renderViewport v
  some (updateCursor v)

def advanceLine (v : State) (followBottom : Bool) : Option State := do
  let v := { v with terminalColumn := 0, terminalRow := v.terminalRow + 1 }
  let v ← if v.terminalRow ≥ vgaScrollbackRows then shiftHistoryUp v else some v
  let v := growTotal v
  let v ← clearHistoryRow v v.terminalRow
  syncViewport v followBottom

def vgaClear (v : State) : Option State := do
  let v ← (List.range vgaScrollbackRows).foldlM clearHistoryRow v
  let v := { v with terminalRow := 0, terminalColumn := 0, viewportRow := 0, totalRows := 1 }
  let v ← renderViewport v
  some (updateCursor v)

def vgaInitialize (v : State) : Option State := do
  let v := { v with terminalRow := 0, terminalColumn := 0, viewportRow := 0, totalRows := 1 }
  let v := { v with terminalColor := vgaEntryColor vgaColorLightGrey vgaColorBlack }
  let v ← vgaClear v
  some (updateCursor v)

def storeEntry (v : State) (row column : Nat) (entry : BitVec 16) : Option State := do
  let history ← storeCell historyCells v.historyBuffer (row * vgaContentWidth + column) entry
  some { v with historyBuffer := history }

/-- `viewport_row + y` is a sum of words. -/
def vgaPutentryat (v : State) (c color : BitVec 8) (x y : Nat) : Option State :=
  if u64 (v.viewportRow + y) ≥ vgaScrollbackRows ∨ x ≥ vgaContentWidth ∨ y ≥ vgaContentHeight then some v
  else do
    let v ← storeEntry v (u64 (v.viewportRow + y)) x (vgaEntry c color)
    renderViewport v

def eraseBack (v : State) : Option State :=
  if v.terminalColumn > 0 ∨ v.terminalRow > 0 then
    let v :=
      if v.terminalColumn = 0 then { v with terminalRow := v.terminalRow - 1, terminalColumn := vgaContentWidth }
      else v
    let v := { v with terminalColumn := v.terminalColumn - 1 }
    storeEntry v v.terminalRow v.terminalColumn (vgaEntry 0x20 v.terminalColor)
  else some v

def vgaPutchar (v : State) (c : BitVec 8) : Option State :=
  let followBottom := v.viewportRow == vgaBottomViewportRow v
  if c = 0x0A then advanceLine v followBottom
  else if c = 0x08 then do
    let v ← eraseBack v
    syncViewport v followBottom
  else do
    let v ← storeEntry v v.terminalRow v.terminalColumn (vgaEntry c v.terminalColor)
    let v := { v with terminalColumn := v.terminalColumn + 1 }
    if v.terminalColumn = vgaContentWidth then advanceLine v followBottom
    else syncViewport (growTotal v) followBottom

def vgaWrite (v : State) (data : List (BitVec 8)) : Option State := data.foldlM vgaPutchar v

/-- An `i32` sum that overflows is undefined. -/
def vgaScrollView (v : State) (delta : Int) : Option State :=
  let next := (v.viewportRow : Int) + delta
  if -2 ^ 31 ≤ next ∧ next < 2 ^ 31 then do
    let bottom := (vgaBottomViewportRow v : Int)
    let next := if next < 0 then 0 else next
    let next := if next > bottom then bottom else next
    let v ← renderViewport { v with viewportRow := next.toNat }
    some (updateCursor v)
  else none

def vgaScrollToBottom (v : State) : Option State := do
  let v ← renderViewport { v with viewportRow := vgaBottomViewportRow v }
  some (updateCursor v)

def call (v : State) : Call → Option State
  | .putchar c => vgaPutchar v c
  | .write data => vgaWrite v data
  | .setcolor color => some (vgaSetcolor v color)
  | .clear => vgaClear v
  | .putentryat c color x y => vgaPutentryat v c color x y
  | .scrollView delta => vgaScrollView v delta
  | .scrollToBottom => vgaScrollToBottom v

end Checked

/-! ## Accesses that succeed -/

section

variable {v : State}

theorem storeCells_eq {size base n : Nat} (m : Nat → BitVec 16) (entry : BitVec 16) (inside : base + n ≤ size) :
    (List.range n).foldlM (fun m i => Checked.storeCell size m (base + i) entry) m =
      some ((List.range n).foldl (fun m i => setCell m (base + i) entry) m) := by
  refine (@foldlM_some _ _ _ _ (fun _ => True) _ ?_ _ trivial).1
  intro m i member _
  have below := List.mem_range.1 member
  exact ⟨if_pos (by omega), trivial⟩

theorem clearHistoryRow_checked (row : Nat) (inside : row < 256) :
    Checked.clearHistoryRow v row = some (clearHistoryRow v row) := by
  have loop := @storeCells_eq historyCells (row * vgaContentWidth) vgaContentWidth v.historyBuffer (blankEntry v)
    (by rw [historyCells_eq, vgaContentWidth_eq]; omega)
  simp only [Checked.clearHistoryRow, loop, Option.bind_eq_bind, Option.bind_some, clearHistoryRow]

theorem shiftHistoryUp_checked : Checked.shiftHistoryUp v = some (shiftHistoryUp v) := by
  have move : Checked.moveCells historyCells v.historyBuffer 0 vgaContentWidth
      ((vgaScrollbackRows - 1) * vgaContentWidth) =
        some (kmemmove v.historyBuffer 0 vgaContentWidth ((vgaScrollbackRows - 1) * vgaContentWidth)) :=
    if_pos (by decide)
  have cleared := @clearHistoryRow_checked { v with
    historyBuffer := kmemmove v.historyBuffer 0 vgaContentWidth ((vgaScrollbackRows - 1) * vgaContentWidth) }
    (vgaScrollbackRows - 1) (by decide)
  simp only [Checked.shiftHistoryUp, move, cleared, Option.bind_eq_bind, Option.bind_some, shiftHistoryUp]

theorem blankFrame_checked (blank : BitVec 16) (frame : Nat → BitVec 16) :
    Checked.blankFrame blank frame = some (blankFrame blank frame) := by
  refine (@foldlM_some _ _ _ _ (fun _ => True) _ ?_ _ trivial).1
  intro frame y member _
  have below := List.mem_range.1 member
  rw [vgaHeight_eq] at below
  exact ⟨storeCells_eq frame blank (by rw [frameCells_eq, vgaWidth_eq]; omega), trivial⟩

theorem copyRows_checked (frame : Nat → BitVec 16) (total : v.totalRows ≤ 256) :
    Checked.copyRows v frame = some (copyRows v frame) := by
  refine (@foldlM_some _ _ _ _ (fun _ => True) _ ?_ _ trivial).1
  intro frame y member _
  have below := List.mem_range.1 member
  rw [vgaContentHeight_eq] at below
  refine ⟨?_, trivial⟩
  dsimp only
  split
  · rfl
  · refine if_pos ⟨?_, ?_⟩
    · rw [frameCells_eq, vgaPaddingY_eq, vgaPaddingX_eq, vgaWidth_eq, vgaContentWidth_eq]
      omega
    · rw [historyCells_eq, vgaContentWidth_eq]
      omega

theorem renderViewport_checked (total : v.totalRows ≤ 256) :
    Checked.renderViewport v = some (renderViewport v) := by
  simp only [Checked.renderViewport, blankFrame_checked, copyRows_checked _ total, Option.bind_eq_bind,
    Option.bind_some, renderViewport]

theorem storeEntry_checked {row column : Nat} (entry : BitVec 16) (inside : row < 256) (narrow : column < 78) :
    Checked.storeEntry v row column entry = some (storeEntry v row column entry) := by
  have store : Checked.storeCell historyCells v.historyBuffer (row * vgaContentWidth + column) entry =
      some (setCell v.historyBuffer (row * vgaContentWidth + column) entry) :=
    if_pos (by rw [historyCells_eq, vgaContentWidth_eq]; omega)
  simp only [Checked.storeEntry, store, Option.bind_eq_bind, Option.bind_some, storeEntry]

/-! ## The invariant -/

/-- The value of the two cursor registers. -/
def cursorRegisters (v : State) : Nat := v.cursorHigh.toNat * 256 + v.cursorLow.toNat

structure InBounds (v : State) : Prop where
  column : v.terminalColumn < 78
  row : v.terminalRow < v.totalRows
  total : v.totalRows ≤ 256
  viewport : v.viewportRow ≤ v.totalRows - 23
  cursor : cursorRegisters v < 2000

theorem vgaBottomViewportRow_eq (v : State) : vgaBottomViewportRow v = v.totalRows - 23 := by
  rw [vgaBottomViewportRow, vgaContentHeight_eq]
  split <;> omega

theorem cursorRegisters_updateCursor (v : State) : cursorRegisters (updateCursor v) = (cursorPos v).toNat := by
  have below := (cursorPos v).isLt
  simp only [cursorRegisters, updateCursor, BitVec.toNat_setWidth, BitVec.toNat_ushiftRight, Nat.shiftRight_eq_div_pow]
  omega

theorem cursorPos_lt (column : v.terminalColumn < 78) : (cursorPos v).toNat < 2000 := by
  have row : vgaGetRow v < 23 := by
    rw [vgaGetRow, vgaContentHeight_eq]
    split <;> omega
  have small : (vgaGetRow v + 1) * 80 + v.terminalColumn + 1 < 2000 := by omega
  rw [cursorPos, BitVec.toNat_ofNat, vgaPaddingY_eq, vgaPaddingX_eq, vgaWidth_eq, Nat.mod_eq_of_lt (by omega)]
  exact small

/-- What `update_cursor` leaves when the other variables are in bounds. -/
theorem InBounds.update (column : v.terminalColumn < 78) (row : v.terminalRow < v.totalRows) (total : v.totalRows ≤ 256)
    (viewport : v.viewportRow ≤ v.totalRows - 23) : InBounds (updateCursor v) := by
  refine ⟨column, row, total, viewport, ?_⟩
  rw [cursorRegisters_updateCursor]
  exact cursorPos_lt column

theorem syncViewport_checked (follow : Bool) (total : v.totalRows ≤ 256) :
    Checked.syncViewport v follow = some (syncViewport v follow) := by
  have atBottom := @renderViewport_checked { v with viewportRow := vgaBottomViewportRow v } total
  unfold Checked.syncViewport syncViewport
  cases follow
  · simp only [Bool.false_eq_true, if_false]
    split
    · rw [atBottom]
      rfl
    · rw [renderViewport_checked total]
      rfl
  · simp only [if_true]
    rw [atBottom]
    rfl

theorem InBounds.sync (column : v.terminalColumn < 78) (row : v.terminalRow < v.totalRows) (total : v.totalRows ≤ 256)
    (follow : Bool) : InBounds (syncViewport v follow) := by
  have bottom := vgaBottomViewportRow_eq v
  unfold syncViewport
  cases follow
  · simp only [Bool.false_eq_true, if_false]
    split
    · exact .update column row total (Nat.le_of_eq bottom)
    · have above : v.viewportRow ≤ v.totalRows - 23 := by omega
      exact .update column row total above
  · simp only [if_true]
    exact .update column row total (Nat.le_of_eq bottom)

/-! ## One call -/

theorem exists_clearHistoryRow (v : State) (row : Nat) :
    ∃ history, clearHistoryRow v row = { v with historyBuffer := history } := ⟨_, rfl⟩

theorem exists_storeEntry (v : State) (row column : Nat) (entry : BitVec 16) :
    ∃ history, storeEntry v row column entry = { v with historyBuffer := history } := ⟨_, rfl⟩

/-- The end of `advance_line`: the new row is cleared and drawn. -/
theorem newRow_checked (column : v.terminalColumn < 78) (row : v.terminalRow < 256) (total : v.totalRows ≤ 256)
    (follow : Bool) :
    (do
      let w ← Checked.clearHistoryRow (growTotal v) (growTotal v).terminalRow
      Checked.syncViewport w follow) =
        some (syncViewport (clearHistoryRow (growTotal v) (growTotal v).terminalRow) follow) ∧
      InBounds (syncViewport (clearHistoryRow (growTotal v) (growTotal v).terminalRow) follow) := by
  have grown : (growTotal v).totalRows ≤ 256 := by
    rw [growTotal_totalRows]
    omega
  have below : (growTotal v).terminalRow < (growTotal v).totalRows := by
    rw [growTotal_totalRows, growTotal_terminalRow]
    omega
  have left : (growTotal v).terminalColumn < 78 := by
    rw [growTotal_terminalColumn]
    exact column
  rw [clearHistoryRow_checked _ (Nat.lt_of_lt_of_le below grown)]
  obtain ⟨history, cleared⟩ := exists_clearHistoryRow (growTotal v) (growTotal v).terminalRow
  rw [cleared]
  simp only [Option.bind_eq_bind, Option.bind_some]
  constructor
  · exact @syncViewport_checked { growTotal v with historyBuffer := history } follow grown
  · exact @InBounds.sync { growTotal v with historyBuffer := history } left below grown follow

theorem advanceLine_checked (row : v.terminalRow < v.totalRows) (total : v.totalRows ≤ 256) (follow : Bool) :
    Checked.advanceLine v follow = some (advanceLine v follow) ∧ InBounds (advanceLine v follow) := by
  unfold Checked.advanceLine advanceLine
  dsimp only
  by_cases full : v.terminalRow + 1 ≥ vgaScrollbackRows
  · have column := shiftHistoryUp_terminalColumn { v with terminalColumn := 0, terminalRow := v.terminalRow + 1 }
    have row' := shiftHistoryUp_terminalRow { v with terminalColumn := 0, terminalRow := v.terminalRow + 1 }
    have total' := shiftHistoryUp_totalRows { v with terminalColumn := 0, terminalRow := v.terminalRow + 1 }
    rw [if_pos full, if_pos full, shiftHistoryUp_checked]
    dsimp only at column row' total'
    generalize shiftHistoryUp { v with terminalColumn := 0, terminalRow := v.terminalRow + 1 } = w at *
    simp only [Option.bind_eq_bind, Option.bind_some]
    exact newRow_checked (by omega) (by omega) (by omega) follow
  · rw [if_neg full, if_neg full]
    rw [vgaScrollbackRows_eq] at full
    simp only [Option.bind_eq_bind, Option.bind_some]
    have column : ({ v with terminalColumn := 0, terminalRow := v.terminalRow + 1 } : State).terminalColumn < 78 := by
      show 0 < 78
      omega
    exact newRow_checked column (Nat.lt_of_not_le full) total follow

/-- The cursor moved on by one cell. -/
theorem advance_checked (column : v.terminalColumn < 78) (row : v.terminalRow < v.totalRows) (total : v.totalRows ≤ 256)
    (history : Nat → BitVec 16) (follow : Bool) :
    let w := { v with historyBuffer := history, terminalColumn := v.terminalColumn + 1 }
    (if w.terminalColumn = vgaContentWidth then Checked.advanceLine w follow
      else Checked.syncViewport (growTotal w) follow) =
        some (if w.terminalColumn = vgaContentWidth then advanceLine w follow else syncViewport (growTotal w) follow) ∧
      InBounds (if w.terminalColumn = vgaContentWidth then advanceLine w follow
        else syncViewport (growTotal w) follow) := by
  intro w
  by_cases wide : w.terminalColumn = vgaContentWidth
  · rw [if_pos wide, if_pos wide]
    exact @advanceLine_checked w row total follow
  · rw [if_neg wide, if_neg wide]
    have narrow : (growTotal w).terminalColumn < 78 := by
      rw [growTotal_terminalColumn]
      rw [vgaContentWidth_eq] at wide
      show v.terminalColumn + 1 < 78
      change v.terminalColumn + 1 ≠ 78 at wide
      omega
    have grown : (growTotal w).totalRows ≤ 256 := by
      rw [growTotal_totalRows]
      show max v.totalRows (v.terminalRow + 1) ≤ 256
      omega
    have below : (growTotal w).terminalRow < (growTotal w).totalRows := by
      rw [growTotal_totalRows, growTotal_terminalRow]
      omega
    constructor
    · exact syncViewport_checked _ grown
    · exact .sync narrow below grown _

theorem eraseBack_checked (h : InBounds v) : Checked.eraseBack v = some (eraseBack v) ∧
    (eraseBack v).terminalColumn < 78 ∧ (eraseBack v).terminalRow < (eraseBack v).totalRows ∧
    (eraseBack v).totalRows ≤ 256 := by
  have column := h.column
  have row := h.row
  have total := h.total
  unfold Checked.eraseBack eraseBack
  by_cases inside : v.terminalColumn > 0 ∨ v.terminalRow > 0
  · rw [if_pos inside, if_pos inside]
    by_cases start : v.terminalColumn = 0
    · simp only [if_pos start, vgaContentWidth_eq]
      refine ⟨storeEntry_checked _ ?_ ?_, ?_, ?_, total⟩
      · show v.terminalRow - 1 < 256
        omega
      · show 78 - 1 < 78
        omega
      · show 78 - 1 < 78
        omega
      · show v.terminalRow - 1 < v.totalRows
        omega
    · simp only [if_neg start]
      refine ⟨storeEntry_checked _ ?_ ?_, ?_, row, total⟩
      · show v.terminalRow < 256
        omega
      · show v.terminalColumn - 1 < 78
        omega
      · show v.terminalColumn - 1 < 78
        omega
  · rw [if_neg inside, if_neg inside]
    exact ⟨rfl, column, row, total⟩

theorem vgaPutchar_checked (h : InBounds v) (c : BitVec 8) :
    Checked.vgaPutchar v c = some (vgaPutchar v c) ∧ InBounds (vgaPutchar v c) := by
  have column := h.column
  have row := h.row
  have total := h.total
  by_cases newline : c = 0x0A
  · rw [Checked.vgaPutchar, vgaPutchar, if_pos newline, if_pos newline]
    exact advanceLine_checked row total _
  · by_cases back : c = 0x08
    · obtain ⟨erased, column', row', total'⟩ := eraseBack_checked h
      rw [Checked.vgaPutchar, vgaPutchar, if_neg newline, if_neg newline, if_pos back, if_pos back, erased]
      generalize eraseBack v = w at *
      simp only [Option.bind_eq_bind, Option.bind_some]
      constructor
      · exact syncViewport_checked _ total'
      · exact .sync column' row' total' _
    · have stored := @storeEntry_checked v _ _ (vgaEntry c v.terminalColor) (Nat.lt_of_lt_of_le row total) column
      rw [Checked.vgaPutchar, vgaPutchar, if_neg newline, if_neg newline, if_neg back, if_neg back, stored]
      obtain ⟨history, entry⟩ := exists_storeEntry v v.terminalRow v.terminalColumn (vgaEntry c v.terminalColor)
      rw [entry]
      simp only [Option.bind_eq_bind, Option.bind_some]
      exact advance_checked column row total history _

theorem vgaWrite_checked (h : InBounds v) (data : List (BitVec 8)) :
    Checked.vgaWrite v data = some (vgaWrite v data) ∧ InBounds (vgaWrite v data) :=
  @foldlM_some _ _ Checked.vgaPutchar vgaPutchar InBounds data (fun _ c _ inside => vgaPutchar_checked inside c) v h

theorem vgaClear_checked (v : State) : Checked.vgaClear v = some (vgaClear v) ∧ InBounds (vgaClear v) := by
  have rows := (@foldlM_some _ _ Checked.clearHistoryRow clearHistoryRow (fun _ => True) (List.range vgaScrollbackRows)
    (fun w row member _ => ⟨clearHistoryRow_checked row (List.mem_range.1 member), trivial⟩) v trivial).1
  unfold Checked.vgaClear vgaClear
  rw [rows]
  generalize (List.range vgaScrollbackRows).foldl clearHistoryRow v = w
  have drawn := @renderViewport_checked
    { w with terminalRow := 0, terminalColumn := 0, viewportRow := 0, totalRows := 1 } (show 1 ≤ 256 by omega)
  simp only [Option.bind_eq_bind, Option.bind_some, drawn]
  refine ⟨trivial, .update ?_ ?_ ?_ ?_⟩
  · show 0 < 78
    omega
  · exact Nat.zero_lt_one
  · show 1 ≤ 256
    omega
  · exact Nat.zero_le _

theorem InBounds.updateCursor (h : InBounds v) : InBounds (updateCursor v) := .update h.column h.row h.total h.viewport

theorem vgaInitialize_checked (v : State) :
    Checked.vgaInitialize v = some (vgaInitialize v) ∧ InBounds (vgaInitialize v) := by
  unfold Checked.vgaInitialize vgaInitialize
  dsimp only
  generalize hw : ({ v with
    terminalRow := 0, terminalColumn := 0, viewportRow := 0, totalRows := 1,
    terminalColor := vgaEntryColor vgaColorLightGrey vgaColorBlack } : State) = w
  obtain ⟨cleared, inside⟩ := vgaClear_checked w
  rw [cleared]
  exact ⟨rfl, inside.updateCursor⟩

theorem vgaPutentryat_checked (h : InBounds v) (c color : BitVec 8) (x y : Nat) :
    Checked.vgaPutentryat v c color x y = some (vgaPutentryat v c color x y) ∧
      InBounds (vgaPutentryat v c color x y) := by
  have viewport := h.viewport
  have total := h.total
  unfold Checked.vgaPutentryat vgaPutentryat
  rw [vgaScrollbackRows_eq, vgaContentWidth_eq, vgaContentHeight_eq]
  by_cases outside : x ≥ 78 ∨ y ≥ 23
  · rw [if_pos (.inr outside), if_pos (.inr outside)]
    exact ⟨rfl, h⟩
  · have word : u64 (v.viewportRow + y) = v.viewportRow + y := u64_of_lt (by omega)
    rw [word]
    by_cases below : v.viewportRow + y ≥ 256
    · rw [if_pos (.inl below), if_pos (.inl below)]
      exact ⟨rfl, h⟩
    · rw [if_neg (by omega), if_neg (by omega), storeEntry_checked _ (by omega) (by omega)]
      obtain ⟨history, entry⟩ := exists_storeEntry v (v.viewportRow + y) x (vgaEntry c color)
      rw [entry]
      simp only [Option.bind_eq_bind, Option.bind_some]
      constructor
      · exact @renderViewport_checked { v with historyBuffer := history } total
      · exact ⟨h.column, h.row, h.total, h.viewport, h.cursor⟩

/-- A viewport moved up to the bottom one and drawn. -/
theorem viewport_checked (h : InBounds v) {row : Nat} (above : row ≤ v.totalRows - 23) :
    (do
      let w ← Checked.renderViewport { v with viewportRow := row }
      some (updateCursor w)) = some (updateCursor (renderViewport { v with viewportRow := row })) ∧
      InBounds (updateCursor (renderViewport { v with viewportRow := row })) := by
  rw [@renderViewport_checked { v with viewportRow := row } h.total]
  exact ⟨rfl, .update h.column h.row h.total above⟩

theorem vgaScrollToBottom_checked (h : InBounds v) :
    Checked.vgaScrollToBottom v = some (vgaScrollToBottom v) ∧ InBounds (vgaScrollToBottom v) :=
  viewport_checked h (Nat.le_of_eq (vgaBottomViewportRow_eq v))

theorem vgaScrollView_checked (h : InBounds v) {delta : Int} (fits : -2 ^ 31 ≤ v.viewportRow + delta)
    (fits' : v.viewportRow + delta < 2 ^ 31) :
    Checked.vgaScrollView v delta = some (vgaScrollView v delta) ∧ InBounds (vgaScrollView v delta) := by
  have bottom := vgaBottomViewportRow_eq v
  unfold Checked.vgaScrollView vgaScrollView
  dsimp only
  rw [if_pos ⟨fits, fits'⟩]
  apply viewport_checked h
  split <;> split <;> omega

/-- The sum of `vga_scroll_view` fits in its type. -/
def Fits (v : State) : Call → Prop
  | .scrollView delta => -2 ^ 31 ≤ v.viewportRow + delta ∧ v.viewportRow + delta < 2 ^ 31
  | _ => True

/-- **The step lemma.** -/
theorem call_checked (h : InBounds v) {c : Call} (fits : Fits v c) :
    Checked.call v c = some (call v c) ∧ InBounds (call v c) := by
  cases c with
  | putchar c => exact vgaPutchar_checked h c
  | write data => exact vgaWrite_checked h data
  | setcolor color => exact ⟨rfl, h.column, h.row, h.total, h.viewport, h.cursor⟩
  | clear => exact vgaClear_checked v
  | putentryat c color x y => exact vgaPutentryat_checked h c color x y
  | scrollView delta => exact vgaScrollView_checked h fits.1 fits.2
  | scrollToBottom => exact vgaScrollToBottom_checked h

end

/-- The calls after `vga_initialize`, in any order. -/
def console : Lts State Call where
  Init v := ∃ v₀, Checked.vgaInitialize v₀ = some v
  Step v c v' := Fits v c ∧ Checked.call v c = some v'

/-- **The rule for the console**: besides the bounds, a property that `vga_initialize` makes and every
call keeps. -/
theorem console_invariant {P : State → Prop} (start : ∀ v, P (vgaInitialize v)) (keep : ∀ v c, P v → P (call v c))
    {calls : List Call} {v : State} (run : console.Run calls v) : InBounds v ∧ P v := by
  apply run.invariant
  · intro v init
    obtain ⟨v₀, eq⟩ := init
    obtain ⟨checked, inside⟩ := vgaInitialize_checked v₀
    cases Option.some.inj (eq.symm.trans checked)
    exact ⟨inside, start v₀⟩
  · intro v c v' inv step
    obtain ⟨checked, inside⟩ := call_checked inv.1 step.1
    cases Option.some.inj (step.2.symm.trans checked)
    exact ⟨inside, keep v c inv.2⟩

theorem console_inBounds {calls : List Call} {v : State} (run : console.Run calls v) : InBounds v :=
  (@console_invariant (fun _ => True) (fun _ => trivial) (fun _ _ _ => trivial) calls v run).1

/-- One call more. -/
theorem console_snoc {calls : List Call} {v : State} (run : console.Run calls v) {c : Call} (fits : Fits v c) :
    console.Run (calls ++ [c]) (call v c) :=
  run.snoc ⟨fits, (call_checked (console_inBounds run) fits).1⟩

/-- **The console stays in bounds.** After any calls the invariant holds, and every further call
makes only accesses inside its arrays and computes what the unchecked functions do. -/
theorem console_in_bounds {calls : List Call} {v : State} (run : console.Run calls v) :
    InBounds v ∧ ∀ c, Fits v c → Checked.call v c = some (call v c) := by
  have inv := console_inBounds run
  exact ⟨inv, fun c fits => (call_checked inv fits).1⟩

/-- A backspace at the start and a scroll down. -/
theorem console_in_bounds_scrolled :
    ∃ v, console.Run [.putchar 0x08, .scrollView 1] v ∧ v.viewportRow ≤ v.totalRows - 23 := by
  have start : console.Run [] (vgaInitialize bss) := .start ⟨bss, (vgaInitialize_checked bss).1⟩
  have back : console.Run [.putchar 0x08] (call (vgaInitialize bss) (.putchar 0x08)) := console_snoc start trivial
  have inside := console_inBounds back
  have viewport := inside.viewport
  have total := inside.total
  have fits : Fits (call (vgaInitialize bss) (.putchar 0x08)) (.scrollView 1) := ⟨by omega, by omega⟩
  have scrolled := console_snoc back fits
  exact ⟨_, scrolled, (console_in_bounds scrolled).1.viewport⟩

end SimpleKernel.Vga
