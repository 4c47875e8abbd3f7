import Mathlib.Logic.Function.Basic
import SimpleKernel.Vga.Model

/-!
# The console is an unbounded terminal

`Terminal` is what the console is for: a growing list of rows with a cursor in the last
one. The static variables hold the last 256 of its rows, oldest first (`Shows`), and
what a character draws is the last 23 rows inside a blank border (`frame_of_putchar`).
-/

namespace SimpleKernel.Vga
set_option autoImplicit false
open Kstring

/-! ## The unbounded terminal -/

structure Cell where
  char : BitVec 8
  color : BitVec 8
  deriving DecidableEq, Repr

abbrev Row := Fin 78 → Cell

def blankRow (color : BitVec 8) : Row := fun _ => ⟨0x20, color⟩

/-- The rows above the cursor, oldest first, and the row of the cursor. -/
structure Terminal where
  above : List Row
  current : Row
  column : Fin 78
  color : BitVec 8

namespace Terminal

def rows (t : Terminal) : List Row := t.above ++ [t.current]

def clear (color : BitVec 8) : Terminal := ⟨[], blankRow color, 0, color⟩

def newline (t : Terminal) : Terminal := { t with above := t.rows, current := blankRow t.color, column := 0 }

def put (t : Terminal) (c : BitVec 8) : Terminal :=
  if c = 0x0A then t.newline
  else
    let t := { t with current := Function.update t.current t.column ⟨c, t.color⟩ }
    if h : t.column.val + 1 < 78 then { t with column := ⟨t.column.val + 1, h⟩ } else t.newline

end Terminal

/-- The calls of a run. -/
inductive Op where
  | putchar (c : BitVec 8)
  | setcolor (color : BitVec 8)
  deriving DecidableEq, Repr

def Terminal.step (t : Terminal) : Op → Terminal
  | .putchar c => t.put c
  | .setcolor color => { t with color }

def step (v : State) : Op → State
  | .putchar c => vgaPutchar v c
  | .setcolor color => vgaSetcolor v color

/-- The last `n` elements. -/
def lastRows {α : Type*} (n : Nat) (l : List α) : List α := l.drop (l.length - n)

def Cell.entry (c : Cell) : BitVec 16 := vgaEntry c.char c.color

def entryRow (r : Row) : Fin 78 → BitVec 16 := fun x => (r x).entry

/-- The picture of a terminal: its last 23 rows inside a one-cell blank border. -/
def Terminal.screen (t : Terminal) (y x : Nat) : BitVec 16 :=
  if h : 1 ≤ y ∧ 1 ≤ x ∧ x < 79 then
    match (lastRows 23 t.rows)[y - 1]? with
    | some r => (r ⟨x - 1, by omega⟩).entry
    | none => vgaEntry 0x20 t.color
  else vgaEntry 0x20 t.color

theorem lastRows_append {α : Type*} (n : Nat) (l : List α) (a : α) :
    lastRows (n + 1) (l ++ [a]) = lastRows n l ++ [a] := by
  unfold lastRows
  rw [List.length_append, List.length_singleton, Nat.add_sub_add_right, List.drop_append_of_le_length (Nat.sub_le _ _)]

theorem lastRows_all {α : Type*} {n : Nat} {l : List α} (h : l.length ≤ n) : lastRows n l = l := by
  rw [lastRows, Nat.sub_eq_zero_of_le h, List.drop_zero]

theorem lastRows_tail {α : Type*} {n : Nat} {l : List α} (h : n < l.length) :
    lastRows n l = (lastRows (n + 1) l).tail := by
  rw [lastRows, lastRows, List.tail_drop]
  congr 1
  omega

theorem getElem?_lastRows {α : Type*} (n : Nat) (l : List α) (i : Nat) :
    (lastRows n l)[i]? = l[l.length - n + i]? := List.getElem?_drop

/-! ## Rows of the history buffer -/

/-- Row `i` of `history_buffer`. -/
def historyRow (h : Nat → BitVec 16) (i : Nat) : Fin 78 → BitVec 16 := fun x => h (i * 78 + x.val)

/-- The rows `0..total_rows-1`. -/
def historyRows (v : State) : List (Fin 78 → BitVec 16) := (List.range v.totalRows).map (historyRow v.historyBuffer)

theorem historyRow_setCell (h : Nat → BitVec 16) (r i : Nat) (c : Fin 78) (e : BitVec 16) :
    historyRow (setCell h (r * 78 + c.val) e) i =
      if i = r then Function.update (historyRow h r) c e else historyRow h i := by
  funext x
  unfold historyRow setCell
  by_cases row : i = r
  · subst row
    rw [if_pos rfl]
    by_cases column : x = c
    · subst column
      rw [if_pos rfl, Function.update_self]
    · rw [if_neg (by omega), Function.update_of_ne column]
  · rw [if_neg (by omega), if_neg row]

theorem historyRow_clearHistoryRow (v : State) (r i : Nat) :
    historyRow (clearHistoryRow v r).historyBuffer i =
      if i = r then fun _ => blankEntry v else historyRow v.historyBuffer i := by
  funext x
  simp only [clearHistoryRow, historyRow, vgaContentWidth_eq, setCells_get]
  by_cases row : i = r
  · subst row
    rw [if_pos rfl, if_pos (by omega)]
  · rw [if_neg row, if_neg (by omega), historyRow]

theorem historyRow_shift {h : Nat → BitVec 16} {i : Nat} (inside : i < 255) :
    historyRow (kmemmove h 0 78 (255 * 78)) i = historyRow h (i + 1) := by
  funext x
  unfold historyRow
  rw [kmemmove_get, if_pos (by omega)]
  congr 1
  omega

/-- The row of the cursor is the last. -/
theorem historyRows_last {v : State} (last : v.terminalRow + 1 = v.totalRows) :
    historyRows v = (List.range v.terminalRow).map (historyRow v.historyBuffer) ++
      [historyRow v.historyBuffer v.terminalRow] := by
  rw [historyRows, ← last, List.range_succ, List.map_append, List.map_singleton]

theorem historyRows_storeEntry {v : State} {c : Fin 78} {e : BitVec 16} {past : List (Fin 78 → BitVec 16)}
    {current : Fin 78 → BitVec 16} (last : v.terminalRow + 1 = v.totalRows) (rows : historyRows v = past ++ [current]) :
    historyRows (storeEntry v v.terminalRow c.val e) = past ++ [Function.update current c e] := by
  rw [historyRows_last last] at rows
  obtain ⟨rfl, eq⟩ := List.append_inj' rows rfl
  obtain rfl := List.singleton_inj.1 eq
  have stored : historyRows (storeEntry v v.terminalRow c.val e) =
      (List.range v.totalRows).map (historyRow (setCell v.historyBuffer (v.terminalRow * 78 + c.val) e)) := rfl
  rw [stored, ← last, List.range_succ, List.map_append, List.map_singleton, historyRow_setCell, if_pos rfl]
  refine congrArg (· ++ _) (List.map_congr_left fun i hi => ?_)
  have := List.mem_range.1 hi
  rw [historyRow_setCell, if_neg (by omega)]

theorem historyRows_clearHistoryRow {v : State} (last : v.terminalRow + 1 = v.totalRows) :
    historyRows (clearHistoryRow v v.terminalRow) =
      (List.range v.terminalRow).map (historyRow v.historyBuffer) ++ [fun _ => blankEntry v] := by
  have same : (clearHistoryRow v v.terminalRow).terminalRow + 1 = (clearHistoryRow v v.terminalRow).totalRows := last
  have row : (clearHistoryRow v v.terminalRow).terminalRow = v.terminalRow := rfl
  rw [historyRows_last same, row, historyRow_clearHistoryRow, if_pos rfl]
  refine congrArg (· ++ _) (List.map_congr_left fun i hi => ?_)
  have := List.mem_range.1 hi
  rw [historyRow_clearHistoryRow, if_neg (by omega)]

section Fields

variable (v : State)

theorem shiftHistoryUp_eq : shiftHistoryUp v =
    { clearHistoryRow { v with historyBuffer := kmemmove v.historyBuffer 0 78 (255 * 78) } 255 with
      terminalRow := v.terminalRow - 1, viewportRow := v.viewportRow - 1, totalRows := v.totalRows - 1 } := by
  obtain ⟨row, column, viewport, total, color, frame, history, low, high⟩ := v
  unfold shiftHistoryUp
  cases row <;> cases viewport <;> cases total <;> rfl

@[simp] theorem shiftHistoryUp_terminalRow : (shiftHistoryUp v).terminalRow = v.terminalRow - 1 := by
  rw [shiftHistoryUp_eq]

@[simp] theorem shiftHistoryUp_viewportRow : (shiftHistoryUp v).viewportRow = v.viewportRow - 1 := by
  rw [shiftHistoryUp_eq]

@[simp] theorem shiftHistoryUp_totalRows : (shiftHistoryUp v).totalRows = v.totalRows - 1 := by
  rw [shiftHistoryUp_eq]

@[simp] theorem shiftHistoryUp_terminalColumn : (shiftHistoryUp v).terminalColumn = v.terminalColumn := by
  rw [shiftHistoryUp_eq]
  rfl

@[simp] theorem shiftHistoryUp_terminalColor : (shiftHistoryUp v).terminalColor = v.terminalColor := by
  rw [shiftHistoryUp_eq]
  rfl

@[simp] theorem growTotal_terminalRow : (growTotal v).terminalRow = v.terminalRow := by
  unfold growTotal
  split_ifs <;> rfl

@[simp] theorem growTotal_terminalColumn : (growTotal v).terminalColumn = v.terminalColumn := by
  unfold growTotal
  split_ifs <;> rfl

@[simp] theorem growTotal_terminalColor : (growTotal v).terminalColor = v.terminalColor := by
  unfold growTotal
  split_ifs <;> rfl

@[simp] theorem growTotal_historyBuffer : (growTotal v).historyBuffer = v.historyBuffer := by
  unfold growTotal
  split_ifs <;> rfl

@[simp] theorem growTotal_totalRows : (growTotal v).totalRows = max v.totalRows (v.terminalRow + 1) := by
  unfold growTotal
  split_ifs
  · dsimp only
    omega
  · omega

theorem growTotal_of_last {v : State} (last : v.terminalRow + 1 = v.totalRows) : growTotal v = v :=
  if_neg (by omega)

end Fields

/-- The rows move up by one. -/
theorem historyRow_shiftHistoryUp {v : State} {i : Nat} (inside : i < 255) :
    historyRow (shiftHistoryUp v).historyBuffer i = historyRow v.historyBuffer (i + 1) := by
  rw [shiftHistoryUp_eq]
  dsimp only
  rw [historyRow_clearHistoryRow, if_neg (by omega), historyRow_shift inside]

/-- `advance_line` while the buffer has room for another row. -/
theorem advanceLine_room {v : State} (last : v.terminalRow + 1 = v.totalRows) (room : v.totalRows < 256)
    (follow : Bool) : ∃ w, advanceLine v follow = syncViewport (clearHistoryRow w w.terminalRow) follow ∧
      w.terminalColumn = 0 ∧ w.terminalRow = v.totalRows ∧ w.totalRows = v.totalRows + 1 ∧
      w.terminalColor = v.terminalColor ∧
      (List.range w.terminalRow).map (historyRow w.historyBuffer) = historyRows v := by
  have stay : ¬ v.totalRows ≥ 256 := by omega
  refine ⟨growTotal { v with terminalColumn := 0, terminalRow := v.totalRows }, ?_, ?_, ?_, ?_, ?_, ?_⟩
  · simp only [advanceLine, last, vgaScrollbackRows_eq, stay, if_false]
  all_goals simp [historyRows]

/-- `advance_line` when the buffer is full: the oldest row goes. -/
theorem advanceLine_full {v : State} (last : v.terminalRow + 1 = v.totalRows) (full : v.totalRows = 256)
    (follow : Bool) : ∃ w, advanceLine v follow = syncViewport (clearHistoryRow w w.terminalRow) follow ∧
      w.terminalColumn = 0 ∧ w.terminalRow = 255 ∧ w.totalRows = 256 ∧ w.terminalColor = v.terminalColor ∧
      (List.range w.terminalRow).map (historyRow w.historyBuffer) = (historyRows v).tail := by
  have row : v.terminalRow + 1 = 256 := by omega
  refine ⟨growTotal (shiftHistoryUp { v with terminalColumn := 0, terminalRow := 256 }), ?_, ?_, ?_, ?_, ?_, ?_⟩
  · simp only [advanceLine, row, vgaScrollbackRows_eq, ge_iff_le, Nat.le_refl, if_true]
  · simp
  · simp
  · simp [full]
  · simp
  · have tail : (List.range 256).tail = (List.range 255).map Nat.succ := by
      rw [List.range_succ_eq_map, List.tail_cons]
    simp only [growTotal_terminalRow, shiftHistoryUp_terminalRow, Nat.reduceSub, growTotal_historyBuffer]
    rw [historyRows, full, ← List.map_tail, tail, List.map_map]
    refine List.map_congr_left fun i hi => ?_
    exact historyRow_shiftHistoryUp (List.mem_range.1 hi)

/-- A character stored and the cursor moved, before the row is left. -/
def typed (v : State) (c : BitVec 8) : State :=
  { storeEntry v v.terminalRow v.terminalColumn (vgaEntry c v.terminalColor) with
    terminalColumn := v.terminalColumn + 1 }

theorem vgaPutchar_typed {v : State} {c : BitVec 8} (newline : c ≠ 0x0A) (printable : c ≠ 0x08) :
    vgaPutchar v c =
      if v.terminalColumn + 1 = 78 then advanceLine (typed v c) (v.viewportRow == vgaBottomViewportRow v)
      else syncViewport (growTotal (typed v c)) (v.viewportRow == vgaBottomViewportRow v) := by
  rw [vgaPutchar, if_neg newline, if_neg printable]
  rfl

/-! ## The frame buffer -/

theorem blankFrame_get (blank : BitVec 16) (frame : Nat → BitVec 16) {z : Nat} (inside : z < 25 * 80) :
    blankFrame blank frame z = blank := by
  have rows : ∀ n, z < n * 80 → (List.range n).foldl (fun frame y => (List.range vgaWidth).foldl
      (fun frame x => setCell frame (y * vgaWidth + x) blank) frame) frame z = blank := by
    intro n
    induction n with
    | zero => omega
    | succ n ih =>
      intro below
      rw [List.range_succ, List.foldl_append, List.foldl_cons, List.foldl_nil, setCells_get, vgaWidth_eq]
      by_cases last : n * 80 ≤ z
      · rw [if_pos (by omega)]
      · rw [if_neg (by omega)]
        exact ih (by omega)
  exact rows 25 inside

theorem copyRows_get (v : State) (frame : Nat → BitVec 16) {y x : Nat} (hx : x < 80) :
    copyRows v frame (y * 80 + x) =
      if 1 ≤ y ∧ y < 24 ∧ 1 ≤ x ∧ x < 79 ∧ v.viewportRow + (y - 1) < v.totalRows then
        v.historyBuffer ((v.viewportRow + (y - 1)) * 78 + (x - 1))
      else frame (y * 80 + x) := by
  have rows : ∀ n, (List.range n).foldl (fun frame y =>
      if v.viewportRow + y ≥ v.totalRows then frame
      else kmemcpyFrom frame v.historyBuffer ((y + 1) * 80 + 1) ((v.viewportRow + y) * 78) 78) frame (y * 80 + x) =
      if 1 ≤ y ∧ y < n + 1 ∧ 1 ≤ x ∧ x < 79 ∧ v.viewportRow + (y - 1) < v.totalRows then
        v.historyBuffer ((v.viewportRow + (y - 1)) * 78 + (x - 1))
      else frame (y * 80 + x) := by
    intro n
    induction n with
    | zero => rw [if_neg (by omega)]; rfl
    | succ n ih =>
      rw [List.range_succ, List.foldl_append, List.foldl_cons, List.foldl_nil]
      by_cases shown : v.viewportRow + n ≥ v.totalRows
      · rw [if_pos shown, ih]
        split_ifs <;> first | rfl | omega
      · rw [if_neg shown, kmemcpyFrom_get, ih]
        split_ifs <;> first | rfl | omega | (congr 1; omega)
  exact rows 23

/-- The frame buffer shows the history rows from the viewport on. -/
def Rendered (v : State) : Prop := ∀ y x, y < 25 → x < 80 → v.terminalBuffer (y * 80 + x) =
  if 1 ≤ y ∧ y < 24 ∧ 1 ≤ x ∧ x < 79 ∧ v.viewportRow + (y - 1) < v.totalRows then
    v.historyBuffer ((v.viewportRow + (y - 1)) * 78 + (x - 1))
  else blankEntry v

theorem rendered_renderViewport (v : State) : Rendered (renderViewport v) := by
  intro y x hy hx
  have cell := copyRows_get v (blankFrame (blankEntry v) v.terminalBuffer) (y := y) hx
  rw [blankFrame_get _ _ (by omega)] at cell
  exact cell

theorem Rendered.updateCursor {v : State} (h : Rendered v) : Rendered (updateCursor v) := fun y x hy hx => h y x hy hx

theorem rendered_syncViewport (v : State) (follow : Bool) : Rendered (syncViewport v follow) := by
  unfold syncViewport
  exact (rendered_renderViewport _).updateCursor

theorem rendered_advanceLine (v : State) (follow : Bool) : Rendered (advanceLine v follow) := by
  unfold advanceLine
  exact rendered_syncViewport _ _

/-- Every character is drawn. -/
theorem rendered_vgaPutchar (v : State) (c : BitVec 8) : Rendered (vgaPutchar v c) := by
  by_cases newline : c = 0x0A
  · rw [vgaPutchar, if_pos newline]
    exact rendered_advanceLine _ _
  · by_cases back : c = 0x08
    · rw [vgaPutchar, if_neg newline, if_pos back]
      exact rendered_syncViewport _ _
    · rw [vgaPutchar_typed newline back]
      split
      · exact rendered_advanceLine _ _
      · exact rendered_syncViewport _ _

/-! ## The refinement -/

/-- The static variables hold the last 256 rows of the terminal and its cursor, and the
view is at the bottom. -/
structure Shows (v : State) (t : Terminal) : Prop where
  rows : historyRows v = (lastRows 256 t.rows).map entryRow
  total : v.totalRows = min 256 t.rows.length
  row : v.terminalRow + 1 = v.totalRows
  column : v.terminalColumn = t.column
  color : v.terminalColor = t.color
  bottom : v.viewportRow = vgaBottomViewportRow v

theorem Terminal.length_rows (t : Terminal) : t.rows.length = t.above.length + 1 := by simp [rows]

theorem Terminal.lastRows_rows (t : Terminal) : lastRows 256 t.rows = lastRows 255 t.above ++ [t.current] :=
  lastRows_append 255 t.above t.current

/-- All fields but the frame buffer, the cursor registers and the viewport. -/
theorem Shows.sync {w : State} {t : Terminal} (rows : historyRows w = (lastRows 256 t.rows).map entryRow)
    (total : w.totalRows = min 256 t.rows.length) (row : w.terminalRow + 1 = w.totalRows)
    (column : w.terminalColumn = t.column) (color : w.terminalColor = t.color) : Shows (syncViewport w true) t :=
  ⟨rows, total, row, column, color, rfl⟩

theorem entryRow_blankRow (color : BitVec 8) : entryRow (blankRow color) = fun _ => vgaEntry 0x20 color := rfl

/-- A blank row behind the ones kept. -/
theorem Shows.newRow {w : State} {t : Terminal} (column : w.terminalColumn = 0) (row : w.terminalRow + 1 = w.totalRows)
    (total : w.totalRows = min 256 (t.rows.length + 1)) (color : w.terminalColor = t.color)
    (kept : (List.range w.terminalRow).map (historyRow w.historyBuffer) = (lastRows 255 t.rows).map entryRow) :
    Shows (syncViewport (clearHistoryRow w w.terminalRow) true) t.newline := by
  have next : t.newline.rows.length = t.rows.length + 1 := by simp [Terminal.newline, Terminal.rows]
  have last : lastRows 256 t.newline.rows = lastRows 255 t.rows ++ [blankRow t.color] := lastRows_append 255 _ _
  have blank : (fun _ => blankEntry w) = entryRow (blankRow t.color) := by rw [entryRow_blankRow, blankEntry, color]
  refine .sync ?_ ?_ row column color
  · rw [historyRows_clearHistoryRow row, kept, last, blank, List.map_append]
    rfl
  · rw [next]
    exact total

/-- `advance_line` in the bottom view starts a new row. -/
theorem Shows.newline {v : State} {t : Terminal} (rows : historyRows v = (lastRows 256 t.rows).map entryRow)
    (total : v.totalRows = min 256 t.rows.length) (row : v.terminalRow + 1 = v.totalRows)
    (color : v.terminalColor = t.color) : Shows (advanceLine v true) t.newline := by
  have len := t.length_rows
  by_cases room : v.totalRows < 256
  · obtain ⟨w, eq, column', row', total', color', rows'⟩ := advanceLine_room row room true
    rw [eq]
    apply Shows.newRow column' (by omega) (by omega) (color'.trans color)
    rw [rows', rows, lastRows_all (by omega), lastRows_all (by omega)]
  · obtain ⟨w, eq, column', row', total', color', rows'⟩ := advanceLine_full row (by omega) true
    rw [eq]
    apply Shows.newRow column' (by omega) (by omega) (color'.trans color)
    rw [rows', rows, ← List.map_tail, ← lastRows_tail (by omega)]

theorem Shows.rows_typed {v : State} {t : Terminal} (h : Shows v t) (c : BitVec 8) :
    historyRows (typed v c) =
      (lastRows 256 (t.above ++ [Function.update t.current t.column ⟨c, t.color⟩])).map entryRow := by
  have rows := h.rows
  rw [t.lastRows_rows, List.map_append, List.map_singleton] at rows
  have updated : entryRow (Function.update t.current t.column ⟨c, t.color⟩) =
      Function.update (entryRow t.current) t.column (vgaEntry c t.color) := by
    funext x
    unfold entryRow
    by_cases here : x = t.column
    · subst here
      rw [Function.update_self, Function.update_self]
      rfl
    · rw [Function.update_of_ne here, Function.update_of_ne here]
  have stored := @historyRows_storeEntry _ t.column (vgaEntry c v.terminalColor) _ _ h.row rows
  rw [lastRows_append, List.map_append, List.map_singleton, updated, ← h.color, ← stored, ← h.column]
  rfl

/-- **One character.** -/
theorem Shows.put {v : State} {t : Terminal} (h : Shows v t) {c : BitVec 8} (printable : c ≠ 0x08) :
    Shows (vgaPutchar v c) (t.put c) := by
  have follow : (v.viewportRow == vgaBottomViewportRow v) = true := beq_iff_eq.2 h.bottom
  by_cases newline : c = 0x0A
  · rw [vgaPutchar, Terminal.put, if_pos newline, if_pos newline, follow]
    exact .newline h.rows h.total h.row h.color
  · rw [vgaPutchar_typed newline printable, Terminal.put, if_neg newline, follow]
    dsimp only
    have column := h.column
    have total : v.totalRows =
        min 256 (t.above ++ [Function.update t.current t.column ⟨c, t.color⟩]).length := by
      rw [List.length_append, h.total, t.length_rows]
      rfl
    by_cases room : t.column.val + 1 < 78
    · rw [if_neg (by omega), dif_pos room, growTotal_of_last (v := typed v c) h.row]
      exact .sync (h.rows_typed c) total h.row (congrArg (· + 1) column) h.color
    · rw [if_pos (by omega), dif_neg room]
      exact .newline (h.rows_typed c) total h.row h.color

theorem Shows.setcolor {v : State} {t : Terminal} (h : Shows v t) (color : BitVec 8) :
    Shows (vgaSetcolor v color) { t with color } := ⟨h.rows, h.total, h.row, h.column, rfl, h.bottom⟩

/-- **The step lemma.** -/
theorem Shows.step {v : State} {t : Terminal} (h : Shows v t) {op : Op} (printable : op ≠ .putchar 0x08) :
    Shows (step v op) (t.step op) := by
  cases op with
  | putchar c => exact h.put fun eq => printable (congrArg Op.putchar eq)
  | setcolor color => exact h.setcolor color

/-- **The run lemma.** -/
theorem Shows.run {v : State} {t : Terminal} (h : Shows v t) {ops : List Op}
    (printable : ∀ op ∈ ops, op ≠ .putchar 0x08) :
    Shows (ops.foldl Vga.step v) (ops.foldl Terminal.step t) := by
  induction ops generalizing v t with
  | nil => exact h
  | cons op ops ih =>
    exact ih (h.step (printable op List.mem_cons_self)) fun op' member => printable op' (List.mem_cons_of_mem _ member)

theorem clearRows_spec (v : State) (n : Nat) :
    ((List.range n).foldl clearHistoryRow v).terminalColor = v.terminalColor ∧
    ∀ i, i < n → historyRow ((List.range n).foldl clearHistoryRow v).historyBuffer i = fun _ => blankEntry v := by
  induction n with
  | zero => exact ⟨rfl, fun i hi => by omega⟩
  | succ n ih =>
    obtain ⟨color, rows⟩ := ih
    rw [List.range_succ, List.foldl_append, List.foldl_cons, List.foldl_nil]
    refine ⟨color, fun i hi => ?_⟩
    rw [historyRow_clearHistoryRow]
    by_cases last : i = n
    · rw [if_pos last, blankEntry, color]
      rfl
    · rw [if_neg last]
      exact rows i (by omega)

theorem shows_cleared {w : State} (blank : historyRow w.historyBuffer 0 = fun _ => blankEntry w) :
    Shows (updateCursor
      (renderViewport { w with terminalRow := 0, terminalColumn := 0, viewportRow := 0, totalRows := 1 }))
      (Terminal.clear w.terminalColor) := by
  have one : (Terminal.clear w.terminalColor).rows = [blankRow w.terminalColor] := rfl
  refine ⟨?_, ?_, rfl, rfl, rfl, ?_⟩
  · rw [one, lastRows_all (by simp), List.map_singleton, entryRow_blankRow]
    exact congrArg (fun r => [r]) blank
  · rw [one]
    exact (Nat.min_eq_right (Nat.le_of_ble_eq_true rfl)).symm
  · have low : ¬ 1 > vgaContentHeight := by decide
    exact (if_neg low).symm

theorem shows_vgaClear (v : State) : Shows (vgaClear v) (Terminal.clear v.terminalColor) := by
  obtain ⟨color, rows⟩ := clearRows_spec v vgaScrollbackRows
  have blank := rows 0 (by rw [vgaScrollbackRows_eq]; omega)
  unfold vgaClear
  generalize (List.range vgaScrollbackRows).foldl clearHistoryRow v = w at color blank ⊢
  rw [← color]
  refine shows_cleared (blank.trans ?_)
  rw [blankEntry, ← color]
  rfl

/-- The colour that `vga_initialize` sets. -/
def initialColor : BitVec 8 := vgaEntryColor vgaColorLightGrey vgaColorBlack

theorem Shows.updateCursor {v : State} {t : Terminal} (h : Shows v t) : Shows (updateCursor v) t :=
  ⟨h.rows, h.total, h.row, h.column, h.color, h.bottom⟩

theorem shows_vgaInitialize (v : State) : Shows (vgaInitialize v) (Terminal.clear initialColor) := by
  have cleared := shows_vgaClear { v with
    terminalRow := 0, terminalColumn := 0, viewportRow := 0, totalRows := 1, terminalColor := initialColor }
  exact cleared.updateCursor

/-- What is drawn in the bottom view is the picture of the terminal. -/
theorem Shows.screen {v : State} {t : Terminal} (h : Shows v t) (drawn : Rendered v) {y x : Nat} (hy : y < 25)
    (hx : x < 80) : v.terminalBuffer (y * 80 + x) = t.screen y x := by
  have blank : blankEntry v = vgaEntry 0x20 t.color := congrArg (vgaEntry 0x20) h.color
  have view : v.viewportRow = v.totalRows - 23 := by
    rw [h.bottom, vgaBottomViewportRow, vgaContentHeight_eq]
    split <;> omega
  have total := h.total
  have len := t.length_rows
  rw [drawn y x hy hx, Terminal.screen, blank]
  by_cases inside : 1 ≤ y ∧ 1 ≤ x ∧ x < 79
  · rw [dif_pos inside, getElem?_lastRows]
    by_cases shown : v.viewportRow + (y - 1) < v.totalRows ∧ y < 24
    · rw [if_pos ⟨inside.1, shown.2, inside.2.1, inside.2.2, shown.1⟩]
      have row : (historyRows v)[v.viewportRow + (y - 1)]? =
          some (historyRow v.historyBuffer (v.viewportRow + (y - 1))) := by
        rw [historyRows, List.getElem?_map, List.getElem?_range shown.1]
        rfl
      rw [h.rows, List.getElem?_map, getElem?_lastRows, Option.map_eq_some_iff] at row
      obtain ⟨r, member, entries⟩ := row
      have place : t.rows.length - 256 + (v.viewportRow + (y - 1)) = t.rows.length - 23 + (y - 1) := by omega
      rw [place] at member
      rw [member]
      exact (congrFun entries ⟨x - 1, by omega⟩).symm
    · rw [if_neg (by omega), List.getElem?_eq_none (by omega)]
  · rw [dif_neg inside, if_neg (by omega)]

/-- **The console refines the unbounded terminal.** After any characters and colours the
history buffer holds the last 256 rows of the terminal and its cursor, and the next
character draws the last 23 rows inside a blank border. -/
theorem vga_refines_terminal (v₀ v : State) (start : v = vgaInitialize v₀ ∨ v = vgaClear v₀) (ops : List Op)
    (printable : ∀ op ∈ ops, op ≠ .putchar 0x08) :
    let v' := ops.foldl step v
    let t := ops.foldl Terminal.step (Terminal.clear v.terminalColor)
    historyRows v' = (lastRows 256 t.rows).map entryRow ∧
    v'.totalRows = min 256 t.rows.length ∧ v'.terminalRow + 1 = v'.totalRows ∧ v'.terminalColumn = t.column ∧
    ∀ c, c ≠ 0x08 → ∀ y x, y < 25 → x < 80 →
      (vgaPutchar v' c).terminalBuffer (y * 80 + x) = (t.put c).screen y x := by
  intro v' t
  have first : Shows v (Terminal.clear v.terminalColor) := by
    rcases start with rfl | rfl
    · have shows₀ := shows_vgaInitialize v₀
      rw [shows₀.color]
      exact shows₀
    · have shows₀ := shows_vgaClear v₀
      rw [shows₀.color]
      exact shows₀
  have last : Shows v' t := first.run printable
  refine ⟨last.rows, last.total, last.row, last.column, fun c hc y x hy hx => ?_⟩
  exact (last.put hc).screen (rendered_vgaPutchar v' c) hy hx

/-- The console before `vga_initialize`, all zeros. -/
def bss : State := ⟨0, 0, 0, 0, 0, fun _ => 0, fun _ => 0, 0, 0⟩

/-- A character, a colour and a newline after `vga_initialize`. -/
theorem vga_refines_terminal_newline :
    let ops : List Op := [.putchar 0x41, .setcolor 4, .putchar 0x0A]
    historyRows (ops.foldl step (vgaInitialize bss)) =
      (lastRows 256 (ops.foldl Terminal.step (Terminal.clear (vgaInitialize bss).terminalColor)).rows).map entryRow :=
  (vga_refines_terminal bss (vgaInitialize bss) (.inl rfl) [.putchar 0x41, .setcolor 4, .putchar 0x0A] (by decide)).1

end SimpleKernel.Vga
