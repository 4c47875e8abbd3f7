import SimpleKernel.Lib.Tape
import SimpleKernel.Vga.Bounds

/-!
# What the scrollback keeps

`history_buffer` is the kept part of a tape of rows of 78 cells (`OnTape`): row `i` of the
buffer is row `first + i` of the tape, and `shift_history_up` moves `first` on.
-/

namespace SimpleKernel.Vga
set_option autoImplicit false
open Kstring Lib

/-! ## Rows that are dropped -/

/-- The rows that `advance_line` drops: one if it runs `shift_history_up`. -/
def lineDrops (v : State) : Nat := if v.terminalRow + 1 ≥ vgaScrollbackRows then 1 else 0

/-- The rows that `vga_putchar` drops. -/
def charDrops (v : State) (c : BitVec 8) : Nat :=
  if c = 0x0A ∨ c ≠ 0x08 ∧ v.terminalColumn + 1 = vgaContentWidth then lineDrops v else 0

/-- The rows that a text drops. -/
def dropped (v : State) : List (BitVec 8) → Nat
  | [] => 0
  | c :: s => charDrops v c + dropped (vgaPutchar v c) s

section

variable {v : State} {c : BitVec 8}

theorem charDrops_newline (newline : c = 0x0A) : charDrops v c = lineDrops v := if_pos (.inl newline)

theorem charDrops_back (back : c = 0x08) : charDrops v c = 0 := by
  apply if_neg
  rintro (newline | ⟨other, -⟩)
  · rw [back] at newline
    exact absurd newline (by decide)
  · exact other back

theorem charDrops_wide (back : c ≠ 0x08) (wide : v.terminalColumn + 1 = 78) : charDrops v c = lineDrops v :=
  if_pos (.inr ⟨back, wide⟩)

theorem charDrops_narrow (newline : c ≠ 0x0A) (narrow : v.terminalColumn + 1 ≠ 78) : charDrops v c = 0 := by
  apply if_neg
  rintro (other | ⟨-, wide⟩)
  · exact newline other
  · exact narrow wide

end

/-! ## The fields after a call -/

section

variable (v : State) (follow : Bool)

@[simp] theorem syncViewport_terminalRow : (syncViewport v follow).terminalRow = v.terminalRow := by
  unfold syncViewport
  split_ifs <;> rfl

@[simp] theorem syncViewport_terminalColumn : (syncViewport v follow).terminalColumn = v.terminalColumn := by
  unfold syncViewport
  split_ifs <;> rfl

@[simp] theorem syncViewport_totalRows : (syncViewport v follow).totalRows = v.totalRows := by
  unfold syncViewport
  split_ifs <;> rfl

@[simp] theorem syncViewport_terminalColor : (syncViewport v follow).terminalColor = v.terminalColor := by
  unfold syncViewport
  split_ifs <;> rfl

@[simp] theorem syncViewport_historyBuffer : (syncViewport v follow).historyBuffer = v.historyBuffer := by
  unfold syncViewport
  split_ifs <;> rfl

theorem syncViewport_viewportRow : (syncViewport v follow).viewportRow =
    if follow then v.totalRows - 23 else min v.viewportRow (v.totalRows - 23) := by
  have bottom := vgaBottomViewportRow_eq v
  unfold syncViewport
  cases follow
  · simp only [Bool.false_eq_true, if_false]
    split
    · show vgaBottomViewportRow v = _
      omega
    · show v.viewportRow = _
      omega
  · exact bottom

@[simp] theorem growTotal_viewportRow : (growTotal v).viewportRow = v.viewportRow := by
  unfold growTotal
  split_ifs <;> rfl

end

/-! ## A new row -/

section

variable {v : State} {i : Nat}

theorem clearHistoryRow_get (row : Nat) : (clearHistoryRow v row).historyBuffer i =
    if row * 78 ≤ i ∧ i < row * 78 + 78 then blankEntry v else v.historyBuffer i := by
  rw [clearHistoryRow, vgaContentWidth_eq]
  exact setCells_get _ _ _ _ _

theorem shiftHistoryUp_get (inside : i < 255 * 78) : (shiftHistoryUp v).historyBuffer i = v.historyBuffer (i + 78) := by
  rw [shiftHistoryUp_eq]
  dsimp only
  rw [clearHistoryRow_get, if_neg (by omega)]
  dsimp only
  rw [kmemmove_get, if_pos (by omega)]
  congr 1
  omega

/-- `advance_line` before the new row is cleared. -/
def nextRow (v : State) : State :=
  let v := { v with terminalColumn := 0, terminalRow := v.terminalRow + 1 }
  growTotal (if v.terminalRow ≥ vgaScrollbackRows then shiftHistoryUp v else v)

theorem advanceLine_eq (v : State) (follow : Bool) :
    advanceLine v follow = syncViewport (clearHistoryRow (nextRow v) (nextRow v).terminalRow) follow := rfl

/-- What changes with a new row; the last one of a full buffer stays where it is. -/
structure NextRow (v w : State) : Prop where
  row : w.terminalRow + lineDrops v = v.terminalRow + 1
  below : w.terminalRow < 256
  last : lineDrops v = 0 ∨ w.terminalRow = 255
  column : w.terminalColumn = 0
  color : w.terminalColor = v.terminalColor
  viewport : w.viewportRow = v.viewportRow - lineDrops v
  total : w.totalRows = max v.totalRows (w.terminalRow + 1)
  cells : ∀ i, i < w.terminalRow * 78 ∨ w.terminalRow * 78 + 78 ≤ i → i < 256 * 78 →
    w.historyBuffer i = v.historyBuffer (i + 78 * lineDrops v)

theorem nextRow_spec (row : v.terminalRow < v.totalRows) (total : v.totalRows ≤ 256) : NextRow v (nextRow v) := by
  unfold nextRow
  dsimp only
  by_cases full : v.terminalRow + 1 ≥ vgaScrollbackRows
  · have drops : lineDrops v = 1 := if_pos full
    rw [if_pos full]
    rw [vgaScrollbackRows_eq] at full
    constructor
    · rw [growTotal_terminalRow, shiftHistoryUp_terminalRow, drops]
      rfl
    · rw [growTotal_terminalRow, shiftHistoryUp_terminalRow]
      show v.terminalRow + 1 - 1 < 256
      omega
    · rw [growTotal_terminalRow, shiftHistoryUp_terminalRow]
      show _ ∨ v.terminalRow + 1 - 1 = 255
      omega
    · rw [growTotal_terminalColumn, shiftHistoryUp_terminalColumn]
    · rw [growTotal_terminalColor, shiftHistoryUp_terminalColor]
    · rw [growTotal_viewportRow, shiftHistoryUp_viewportRow, drops]
    · rw [growTotal_totalRows, growTotal_terminalRow, shiftHistoryUp_totalRows, shiftHistoryUp_terminalRow]
      show max (v.totalRows - 1) (v.terminalRow + 1 - 1 + 1) = max v.totalRows (v.terminalRow + 1 - 1 + 1)
      omega
    · intro i outside inside
      rw [growTotal_terminalRow, shiftHistoryUp_terminalRow] at outside
      change i < (v.terminalRow + 1 - 1) * 78 ∨ (v.terminalRow + 1 - 1) * 78 + 78 ≤ i at outside
      rw [growTotal_historyBuffer, shiftHistoryUp_get (by omega), drops]
  · have drops : lineDrops v = 0 := if_neg full
    rw [if_neg full]
    rw [vgaScrollbackRows_eq] at full
    constructor
    · rw [growTotal_terminalRow, drops]
    · rw [growTotal_terminalRow]
      exact Nat.lt_of_not_le full
    · exact .inl drops
    · rw [growTotal_terminalColumn]
    · rw [growTotal_terminalColor]
    · rw [growTotal_viewportRow, drops]
      rfl
    · rw [growTotal_totalRows, growTotal_terminalRow]
    · intro i outside inside
      rw [growTotal_historyBuffer, drops]
      rfl

end

/-! ## The tape -/

/-- `history_buffer` holds the rows of the tape from `first` on. -/
def Holds (v : State) (t : Tape (BitVec 16)) : Prop :=
  ∀ i, i < 256 * 78 → v.historyBuffer i = t.cells (t.first * 78 + i)

structure OnTape (v : State) (t : Tape (BitVec 16)) : Prop where
  holds : Holds v t
  head : t.head = (t.first + v.terminalRow) * 78 + v.terminalColumn

/-- A character on the tape. -/
def typeOn (color : BitVec 8) (t : Tape (BitVec 16)) (c : BitVec 8) : Tape (BitVec 16) :=
  if c = 0x0A then t.newline 78 256 (vgaEntry 0x20 color)
  else if c = 0x08 then t.back 78 (vgaEntry 0x20 color)
  else t.put 78 256 (vgaEntry 0x20 color) (vgaEntry c color)

section

variable {v : State} {t : Tape (BitVec 16)}

theorem OnTape.sync (h : OnTape v t) (follow : Bool) : OnTape (syncViewport v follow) t := by
  constructor
  · intro i inside
    rw [syncViewport_historyBuffer]
    exact h.holds i inside
  · rw [syncViewport_terminalRow, syncViewport_terminalColumn]
    exact h.head

theorem OnTape.grow (h : OnTape v t) : OnTape (growTotal v) t := by
  constructor
  · intro i inside
    rw [growTotal_historyBuffer]
    exact h.holds i inside
  · rw [growTotal_terminalRow, growTotal_terminalColumn]
    exact h.head

/-- A cell stored on both sides. -/
theorem Holds.store (h : Holds v t) {row column : Nat} {entry : BitVec 16} {a : Nat}
    (cell : a = (t.first + row) * 78 + column) :
    Holds (storeEntry v row column entry) { t with cells := Function.update t.cells a entry } := by
  intro i inside
  have value := h i inside
  unfold storeEntry setCell
  rw [vgaContentWidth_eq, cell]
  dsimp only
  by_cases here : i = row * 78 + column
  · rw [if_pos here, Function.update_apply, if_pos (by omega)]
  · rw [if_neg here, Function.update_of_ne (by omega)]
    exact value

/-- **A new row** on the tape. -/
theorem Holds.advance (h : Holds v t) (head : t.head = (t.first + v.terminalRow + 1) * 78)
    (row : v.terminalRow < v.totalRows) (total : v.totalRows ≤ 256) (follow : Bool) :
    OnTape (advanceLine v follow) (t.openRow 78 256 (vgaEntry 0x20 v.terminalColor)) ∧
      (t.openRow 78 256 (vgaEntry 0x20 v.terminalColor)).first = t.first + lineDrops v := by
  have next := nextRow_spec row total
  have row' := next.row
  have below := next.below
  have last := next.last
  have first : (t.openRow 78 256 (vgaEntry 0x20 v.terminalColor)).first = t.first + lineDrops v := by
    show max t.first (t.head / 78 + 1 - 256) = _
    rw [head, Nat.mul_div_cancel _ (by decide)]
    unfold lineDrops at *
    rw [vgaScrollbackRows_eq] at *
    split at row' <;> rename_i full
    · rw [if_pos full]
      omega
    · rw [if_neg full]
      omega
  refine ⟨⟨?_, ?_⟩, first⟩
  · intro i inside
    rw [first, advanceLine_eq, syncViewport_historyBuffer, clearHistoryRow_get]
    show _ = if t.head ≤ _ ∧ _ < t.head + 78 then _ else _
    rw [head]
    by_cases new : (nextRow v).terminalRow * 78 ≤ i ∧ i < (nextRow v).terminalRow * 78 + 78
    · rw [if_pos new, if_pos (by omega), blankEntry, next.color]
    · rw [if_neg new, if_neg (by omega), next.cells i (by omega) inside, h _ (by omega)]
      congr 1
      omega
  · rw [first, advanceLine_eq, syncViewport_terminalRow, syncViewport_terminalColumn]
    show t.head = (_ + (nextRow v).terminalRow) * 78 + (nextRow v).terminalColumn
    rw [next.column, head]
    omega

/-- A backspace on the tape. -/
theorem OnTape.back (h : OnTape v t) : OnTape (eraseBack v) (t.back 78 (vgaEntry 0x20 v.terminalColor)) := by
  have head := h.head
  unfold eraseBack Tape.back
  by_cases inside : v.terminalColumn > 0 ∨ v.terminalRow > 0
  · have behind : t.first * 78 < t.head := by omega
    rw [if_pos inside, if_pos behind]
    by_cases start : v.terminalColumn = 0
    · simp only [if_pos start, vgaContentWidth_eq]
      have cell : t.head - 1 = (t.first + (v.terminalRow - 1)) * 78 + (78 - 1) := by omega
      exact ⟨@Holds.store { v with terminalRow := v.terminalRow - 1, terminalColumn := 78 - 1 } t h.holds
        _ _ _ _ cell, cell⟩
    · simp only [if_neg start]
      have cell : t.head - 1 = (t.first + v.terminalRow) * 78 + (v.terminalColumn - 1) := by omega
      exact ⟨@Holds.store { v with terminalColumn := v.terminalColumn - 1 } t h.holds _ _ _ _ cell, cell⟩
  · have still : ¬ t.first * 78 < t.head := by omega
    rw [if_neg inside, if_neg still]
    exact h

/-- A character that is stored. -/
theorem Holds.typed (h : OnTape v t) (c : BitVec 8) : Holds (typed v c) (t.strike (vgaEntry c v.terminalColor)) :=
  @Holds.store v t h.holds _ _ _ _ h.head

/-- **One character.** -/
theorem OnTape.putchar (h : OnTape v t) (bounds : InBounds v) (c : BitVec 8) :
    OnTape (vgaPutchar v c) (typeOn v.terminalColor t c) ∧
      (typeOn v.terminalColor t c).first = t.first + charDrops v c := by
  have column := bounds.column
  have row := bounds.row
  have total := bounds.total
  have head := h.head
  unfold typeOn
  by_cases newline : c = 0x0A
  · have start : (t.head / 78 + 1) * 78 = (t.first + v.terminalRow + 1) * 78 := by omega
    rw [vgaPutchar, if_pos newline, if_pos newline, charDrops_newline newline, Tape.newline]
    exact @Holds.advance v { t with head := (t.head / 78 + 1) * 78 } h.holds start row total _
  · by_cases back : c = 0x08
    · have first : (t.back 78 (vgaEntry 0x20 v.terminalColor)).first = t.first := by
        unfold Tape.back
        split <;> rfl
      rw [vgaPutchar, if_neg newline, if_neg newline, if_pos back, if_pos back, charDrops_back back]
      exact ⟨h.back.sync _, first⟩
    · rw [vgaPutchar_typed newline back, if_neg newline, if_neg back, Tape.put]
      by_cases wide : v.terminalColumn + 1 = 78
      · have start : (t.strike (vgaEntry c v.terminalColor)).head = (t.first + v.terminalRow + 1) * 78 := by
          show t.head + 1 = _
          omega
        rw [if_pos wide, if_pos (by omega), charDrops_wide back wide]
        exact @Holds.advance (typed v c) _ (.typed h c) start row total _
      · have struck : OnTape (typed v c) (t.strike (vgaEntry c v.terminalColor)) := by
          refine ⟨.typed h c, ?_⟩
          show t.head + 1 = (t.first + v.terminalRow) * 78 + (v.terminalColumn + 1)
          omega
        rw [if_neg wide, if_neg (by omega), charDrops_narrow newline wide]
        exact ⟨struck.grow.sync _, rfl⟩

theorem vgaPutchar_terminalColor (bounds : InBounds v) (c : BitVec 8) :
    (vgaPutchar v c).terminalColor = v.terminalColor := by
  have row := bounds.row
  have total := bounds.total
  by_cases newline : c = 0x0A
  · rw [vgaPutchar, if_pos newline, advanceLine_eq, syncViewport_terminalColor]
    exact (nextRow_spec row total).color
  · by_cases back : c = 0x08
    · rw [vgaPutchar, if_neg newline, if_pos back, syncViewport_terminalColor]
      unfold eraseBack
      split_ifs <;> rfl
    · rw [vgaPutchar_typed newline back]
      split
      · rw [advanceLine_eq, syncViewport_terminalColor]
        exact (@nextRow_spec (typed v c) row total).color
      · rw [syncViewport_terminalColor, growTotal_terminalColor]
        rfl

/-- **A text.** -/
theorem OnTape.write (h : OnTape v t) (bounds : InBounds v) (s : List (BitVec 8)) :
    OnTape (vgaWrite v s) (s.foldl (typeOn v.terminalColor) t) ∧
      (s.foldl (typeOn v.terminalColor) t).first = t.first + dropped v s := by
  induction s generalizing v t with
  | nil => exact ⟨h, rfl⟩
  | cons c s ih =>
    obtain ⟨next, first⟩ := h.putchar bounds c
    obtain ⟨last, first'⟩ := ih next (vgaPutchar_checked bounds c).2
    rw [vgaPutchar_terminalColor bounds] at last first'
    refine ⟨last, ?_⟩
    rw [List.foldl_cons, first', first, dropped, Nat.add_assoc]

theorem vgaWrite_terminalColor (bounds : InBounds v) {s : List (BitVec 8)} :
    (vgaWrite v s).terminalColor = v.terminalColor := by
  induction s generalizing v with
  | nil => rfl
  | cons c s ih =>
    rw [vgaWrite, List.foldl_cons, ← vgaWrite, ih (vgaPutchar_checked bounds c).2, vgaPutchar_terminalColor bounds]

/-- The tape that starts with the first row of the buffer. -/
def tapeOf (v : State) : Tape (BitVec 16) where
  cells := v.historyBuffer
  head := v.terminalRow * 78 + v.terminalColumn
  first := 0

theorem onTape_tapeOf (v : State) : OnTape v (tapeOf v) := by
  constructor
  · intro i _
    show v.historyBuffer i = v.historyBuffer (0 * 78 + i)
    rw [Nat.zero_mul, Nat.zero_add]
  · show _ = (0 + v.terminalRow) * 78 + v.terminalColumn
    rw [Nat.zero_add]
    rfl

end

/-! ## Backspaces -/

section

variable {v : State} {s : List (BitVec 8)}

theorem typeOn_plain {color : BitVec 8} (plain : ∀ c ∈ s, c ≠ 0x0A ∧ c ≠ 0x08) (t : Tape (BitVec 16)) :
    s.foldl (typeOn color) t = t.write 78 256 (vgaEntry 0x20 color) (s.map fun c => vgaEntry c color) := by
  induction s generalizing t with
  | nil => rfl
  | cons c s ih =>
    obtain ⟨newline, back⟩ := plain c List.mem_cons_self
    have first : typeOn color t c = t.put 78 256 (vgaEntry 0x20 color) (vgaEntry c color) := by
      rw [typeOn, if_neg newline, if_neg back]
    rw [List.foldl_cons, first, ih fun c member => plain c (List.mem_cons_of_mem _ member)]
    rfl

theorem typeOn_backspaces (color : BitVec 8) (t : Tape (BitVec 16)) (n : Nat) :
    (List.replicate n (0x08 : BitVec 8)).foldl (typeOn color) t = t.erase 78 (vgaEntry 0x20 color) n := by
  induction n generalizing t with
  | zero => rfl
  | succ n ih =>
    rw [List.replicate_succ, List.foldl_cons, ih]
    rfl

/-- What backspaces leave of a text written in the state `v`, with `w` the state after them and `d`
rows dropped: the cursor where the text began, blanks from there on, and the cells before. -/
structure Erased (v w : State) (d n : Nat) : Prop where
  row : w.terminalRow + d = v.terminalRow
  column : w.terminalColumn = v.terminalColumn
  blank : ∀ i, i < n → w.historyBuffer (w.terminalRow * 78 + w.terminalColumn + i) = vgaEntry 0x20 v.terminalColor
  above : ∀ i, i < w.terminalRow * 78 + w.terminalColumn → w.historyBuffer i = v.historyBuffer (d * 78 + i)

/-- **Backspaces erase what was printed**, in any state that calls lead to. The rows dropped are those
that the text drops. -/
theorem backspaces_erase {calls : List Call} (run : console.Run calls v) (short : s.length ≤ 255)
    (plain : ∀ c ∈ s, c ≠ 0x0A ∧ c ≠ 0x08) :
    Erased v (vgaWrite (vgaWrite v s) (List.replicate s.length 0x08)) (dropped v s) s.length := by
  have bounds := console_inBounds run
  have column := bounds.column
  have row := Nat.lt_of_lt_of_le bounds.row bounds.total
  obtain ⟨written, first⟩ := (onTape_tapeOf v).write bounds s
  have bounds' := (vgaWrite_checked bounds s).2
  obtain ⟨erased, -⟩ := written.write bounds' (List.replicate s.length 0x08)
  have bounds'' := (vgaWrite_checked bounds' (List.replicate s.length 0x08)).2
  rw [typeOn_plain plain] at written first erased
  rw [vgaWrite_terminalColor bounds, typeOn_backspaces] at erased
  have kept : (tapeOf v).head / 78 < (tapeOf v).first + 256 := by
    show (v.terminalRow * 78 + v.terminalColumn) / 78 < 0 + 256
    omega
  have inside : (tapeOf v).first * 78 ≤ (tapeOf v).head := by
    show 0 * 78 ≤ _
    omega
  have tape := @Tape.erase_write _ 78 256 (vgaEntry 0x20 v.terminalColor) (tapeOf v)
    (s.map fun c => vgaEntry c v.terminalColor) kept inside (by rw [List.length_map]; omega)
  rw [List.length_map] at tape
  obtain ⟨head, first', blank, same⟩ := tape
  rw [first] at first'
  generalize vgaWrite (vgaWrite v s) (List.replicate s.length 0x08) = w at *
  generalize Tape.erase 78 (vgaEntry 0x20 v.terminalColor) _ s.length = t at *
  have place := erased.head
  have place' := written.head
  rw [Tape.write_head, List.length_map, first] at place'
  have column' := bounds'.column
  have row' := Nat.lt_of_lt_of_le bounds'.row bounds'.total
  have column'' := bounds''.column
  have start : (tapeOf v).head = v.terminalRow * 78 + v.terminalColumn := rfl
  have zero : (tapeOf v).first = 0 := rfl
  rw [head, first', start, zero] at place
  rw [start, zero] at place'
  refine ⟨by omega, by omega, ?_, ?_⟩
  · intro i hi
    rw [erased.holds _ (by omega), ← blank i hi, first', start, zero]
    congr 1
    omega
  · intro i hi
    rw [erased.holds _ (by omega), same _ (by omega), first', zero, Nat.zero_add]
    rfl

end

/-- A text of 100 characters goes on in the second row. -/
theorem backspaces_erase_wrapped :
    Erased (vgaInitialize bss)
      (vgaWrite (vgaWrite (vgaInitialize bss) (List.replicate 100 0x41))
        (List.replicate (List.replicate 100 (0x41 : BitVec 8)).length 0x08))
      (dropped (vgaInitialize bss) (List.replicate 100 0x41)) (List.replicate 100 (0x41 : BitVec 8)).length :=
  backspaces_erase (.start ⟨bss, (vgaInitialize_checked bss).1⟩)
    (by rw [List.length_replicate]; omega) fun c member => by
    rw [List.eq_of_mem_replicate member]
    decide

/-! ## The view -/

section

variable {v : State} {s : List (BitVec 8)}

theorem advanceLine_viewport (row : v.terminalRow < v.totalRows) (total : v.totalRows ≤ 256) (follow : Bool) :
    v.totalRows ≤ (advanceLine v follow).totalRows ∧
      (advanceLine v follow).viewportRow =
        if follow then (advanceLine v follow).totalRows - 23
        else min (v.viewportRow - lineDrops v) ((advanceLine v follow).totalRows - 23) := by
  have next := nextRow_spec row total
  have cleared : (clearHistoryRow (nextRow v) (nextRow v).terminalRow).totalRows = (nextRow v).totalRows := rfl
  rw [advanceLine_eq, syncViewport_totalRows, syncViewport_viewportRow, cleared]
  constructor
  · rw [next.total]
    exact Nat.le_max_left _ _
  · rw [← next.viewport]
    rfl

/-- The test of `vga_putchar` and the clamp of `sync_viewport`. -/
theorem viewport_moves (bounds : InBounds v) {total viewport d : Nat} (grown : v.totalRows ≤ total)
    (moved : viewport =
      if v.viewportRow == vgaBottomViewportRow v then total - 23 else min (v.viewportRow - d) (total - 23)) :
    viewport = if v.viewportRow = v.totalRows - 23 then total - 23 else v.viewportRow - d := by
  have above := bounds.viewport
  rw [moved, vgaBottomViewportRow_eq]
  by_cases bottom : v.viewportRow = v.totalRows - 23
  · rw [if_pos (beq_iff_eq.2 bottom), if_pos bottom]
  · rw [if_neg (fun same => bottom (beq_iff_eq.1 same)), if_neg bottom]
    omega

/-- **The view after a character**: a following view follows, another one moves with its rows. -/
theorem vgaPutchar_viewport (bounds : InBounds v) (c : BitVec 8) :
    v.totalRows ≤ (vgaPutchar v c).totalRows ∧
      (vgaPutchar v c).viewportRow =
        if v.viewportRow = v.totalRows - 23 then (vgaPutchar v c).totalRows - 23
        else v.viewportRow - charDrops v c := by
  have row := bounds.row
  have total := bounds.total
  by_cases newline : c = 0x0A
  · obtain ⟨grown, moved⟩ := advanceLine_viewport row total (v.viewportRow == vgaBottomViewportRow v)
    rw [charDrops_newline newline, vgaPutchar, if_pos newline]
    exact ⟨grown, viewport_moves bounds grown moved⟩
  · by_cases back : c = 0x08
    · have same : (eraseBack v).totalRows = v.totalRows ∧ (eraseBack v).viewportRow = v.viewportRow := by
        unfold eraseBack
        split_ifs <;> exact ⟨rfl, rfl⟩
      have grown : v.totalRows ≤ (syncViewport (eraseBack v) (v.viewportRow == vgaBottomViewportRow v)).totalRows := by
        rw [syncViewport_totalRows, same.1]
      rw [charDrops_back back, vgaPutchar, if_neg newline, if_pos back]
      refine ⟨grown, viewport_moves bounds grown ?_⟩
      rw [syncViewport_viewportRow, syncViewport_totalRows, same.2]
      rfl
    · rw [vgaPutchar_typed newline back]
      by_cases wide : v.terminalColumn + 1 = 78
      · obtain ⟨grown, moved⟩ := @advanceLine_viewport (typed v c) row total (v.viewportRow == vgaBottomViewportRow v)
        rw [charDrops_wide back wide, if_pos wide]
        exact ⟨grown, viewport_moves bounds grown moved⟩
      · have grown : v.totalRows ≤
            (syncViewport (growTotal (typed v c)) (v.viewportRow == vgaBottomViewportRow v)).totalRows := by
          rw [syncViewport_totalRows, growTotal_totalRows]
          exact Nat.le_max_left _ _
        rw [charDrops_narrow newline wide, if_neg wide]
        refine ⟨grown, viewport_moves bounds grown ?_⟩
        rw [syncViewport_viewportRow, syncViewport_totalRows, growTotal_viewportRow]
        rfl

/-- **The view after a text.** -/
theorem vgaWrite_viewport (bounds : InBounds v) (s : List (BitVec 8)) :
    (v.viewportRow = v.totalRows - 23 → (vgaWrite v s).viewportRow = (vgaWrite v s).totalRows - 23) ∧
      (v.viewportRow < v.totalRows - 23 → (vgaWrite v s).viewportRow < (vgaWrite v s).totalRows - 23 ∧
        (vgaWrite v s).viewportRow = v.viewportRow - dropped v s) := by
  induction s generalizing v with
  | nil => exact ⟨id, fun above => ⟨above, rfl⟩⟩
  | cons c s ih =>
    obtain ⟨grown, moved⟩ := vgaPutchar_viewport bounds c
    obtain ⟨follows, stays⟩ := ih (vgaPutchar_checked bounds c).2
    rw [vgaWrite, List.foldl_cons, ← vgaWrite, dropped]
    constructor
    · intro bottom
      rw [if_pos bottom] at moved
      exact follows moved
    · intro above
      rw [if_neg (Nat.ne_of_lt above)] at moved
      obtain ⟨above', stayed⟩ := stays (by omega)
      exact ⟨above', by rw [stayed, moved, Nat.sub_sub]⟩

/-! ## The rows on display -/

theorem typeOn_cells {color c : BitVec 8} {t : Tape (BitVec 16)} {x : Nat} (old : x / 78 ≠ t.head / 78)
    (new : x / 78 ≠ (typeOn color t c).head / 78) : (typeOn color t c).cells x = t.cells x := by
  revert new
  unfold typeOn
  split_ifs
  · exact Tape.newline_cells
  · exact Tape.back_cells
  · exact Tape.put_rows old

/-- **Rows without the cursor** move up by the rows that are dropped. -/
theorem vgaPutchar_rows (bounds : InBounds v) {c : BitVec 8} {r x : Nat} (lower : charDrops v c ≤ r) (upper : r < 256)
    (narrow : x < 78) (old : v.terminalRow ≠ r) (new : (vgaPutchar v c).terminalRow + charDrops v c ≠ r) :
    (vgaPutchar v c).historyBuffer ((r - charDrops v c) * 78 + x) = v.historyBuffer (r * 78 + x) := by
  have column := bounds.column
  have column' := (vgaPutchar_checked bounds c).2.column
  obtain ⟨next, first⟩ := (onTape_tapeOf v).putchar bounds c
  have head := next.head
  have start : (tapeOf v).head = v.terminalRow * 78 + v.terminalColumn := rfl
  have zero : (tapeOf v).first = 0 := rfl
  rw [first, zero, Nat.zero_add] at head
  have cell : (0 + charDrops v c) * 78 + ((r - charDrops v c) * 78 + x) = r * 78 + x := by
    rw [Nat.zero_add, ← Nat.add_assoc, ← Nat.add_mul, Nat.add_sub_cancel' lower]
  rw [next.holds _ (by omega), first, zero, cell]
  exact typeOn_cells (by omega) (by omega)

/-- The row of the cursor after a text, numbered as before it. -/
def cursorLine (v : State) (s : List (BitVec 8)) : Nat := (vgaWrite v s).terminalRow + dropped v s

theorem cursorLine_cons (v : State) (c : BitVec 8) (s : List (BitVec 8)) :
    cursorLine v (c :: s) = cursorLine (vgaPutchar v c) s + charDrops v c := by
  rw [cursorLine, dropped, cursorLine, Nat.add_assoc, Nat.add_comm (dropped _ s)]
  rfl

theorem vgaWrite_rows (bounds : InBounds v) {r x : Nat} (lower : dropped v s ≤ r) (upper : r < 256) (narrow : x < 78)
    (away : ∀ k, k ≤ s.length → cursorLine v (s.take k) ≠ r) :
    (vgaWrite v s).historyBuffer ((r - dropped v s) * 78 + x) = v.historyBuffer (r * 78 + x) := by
  induction s generalizing v r with
  | nil => rfl
  | cons c s ih =>
    rw [dropped] at lower
    have start := away 0 (Nat.zero_le _)
    have one := away 1 (by rw [List.length_cons]; omega)
    rw [List.take_succ_cons, List.take_zero, cursorLine_cons] at one
    have rest : ∀ k, k ≤ s.length → cursorLine (vgaPutchar v c) (s.take k) ≠ r - charDrops v c := by
      intro k hk
      have later := away (k + 1) (by rw [List.length_cons]; omega)
      rw [List.take_succ_cons, cursorLine_cons] at later
      omega
    rw [vgaWrite, List.foldl_cons, ← vgaWrite, dropped, ← Nat.sub_sub,
      ih (vgaPutchar_checked bounds c).2 (by omega) (by omega) rest]
    exact vgaPutchar_rows bounds (by omega) upper narrow start one

/-- The frame buffer shows the rows from the viewport on; its border may have an older colour. -/
def Drawn (v : State) : Prop := ∀ y x, y < 23 → x < 78 → v.viewportRow + y < v.totalRows →
  v.terminalBuffer ((y + 1) * 80 + (x + 1)) = v.historyBuffer ((v.viewportRow + y) * 78 + x)

theorem Rendered.drawn (h : Rendered v) : Drawn v := by
  intro y x hy hx shown
  rw [h (y + 1) (x + 1) (by omega) (by omega), if_pos (by omega)]
  rfl

theorem rendered_vgaClear (v : State) : Rendered (vgaClear v) := (rendered_renderViewport _).updateCursor

theorem drawn_vgaInitialize (v : State) : Drawn (vgaInitialize v) := by
  unfold vgaInitialize
  exact (rendered_vgaClear _).updateCursor.drawn

theorem Drawn.call (h : Drawn v) (c : Call) : Drawn (call v c) := by
  cases c with
  | putchar c => exact (rendered_vgaPutchar v c).drawn
  | write data =>
    show Drawn (data.foldl vgaPutchar v)
    induction data generalizing v with
    | nil => exact h
    | cons c data ih => exact ih (rendered_vgaPutchar v c).drawn
  | setcolor color => exact h
  | clear => exact (rendered_vgaClear v).drawn
  | putentryat c color x y =>
    show Drawn (vgaPutentryat v c color x y)
    unfold vgaPutentryat
    split_ifs
    · exact h
    · exact (rendered_renderViewport _).drawn
  | scrollView delta => exact (rendered_renderViewport _).updateCursor.drawn
  | scrollToBottom => exact (rendered_renderViewport _).updateCursor.drawn

/-- The console is always drawn. -/
theorem console_drawn {calls : List Call} (run : console.Run calls v) : Drawn v :=
  (console_invariant drawn_vgaInitialize (fun _ c drawn => drawn.call c) run).2

/-- A view above the bottom stays there, on the same rows as long as they are kept: what a row on display
shows changes only where the cursor comes. -/
structure StaysPut (v : State) (s : List (BitVec 8)) : Prop where
  above : (vgaWrite v s).viewportRow < vgaBottomViewportRow (vgaWrite v s)
  stays : dropped v s ≤ v.viewportRow → (vgaWrite v s).viewportRow + dropped v s = v.viewportRow
  top : v.viewportRow ≤ dropped v s → (vgaWrite v s).viewportRow = 0
  shown : dropped v s ≤ v.viewportRow → ∀ y x, y < 23 → x < 78 →
    (∀ k, k ≤ s.length → cursorLine v (s.take k) ≠ v.viewportRow + y) →
    (vgaWrite v s).terminalBuffer ((y + 1) * 80 + (x + 1)) = v.terminalBuffer ((y + 1) * 80 + (x + 1))

/-- **A following view follows, and another one stays put**, whatever is printed. -/
theorem view_follows_or_stays {calls : List Call} (run : console.Run calls v) (s : List (BitVec 8)) :
    (v.viewportRow = vgaBottomViewportRow v → (vgaWrite v s).viewportRow = vgaBottomViewportRow (vgaWrite v s)) ∧
      (v.viewportRow < vgaBottomViewportRow v → StaysPut v s) := by
  have bounds := console_inBounds run
  have bounds' := (vgaWrite_checked bounds s).2
  have drawn := console_drawn run
  have drawn' : Drawn (vgaWrite v s) := drawn.call (.write s)
  have total := bounds.total
  obtain ⟨follows, stays⟩ := vgaWrite_viewport bounds s
  rw [← vgaBottomViewportRow_eq, ← vgaBottomViewportRow_eq] at follows stays
  refine ⟨follows, fun scrolled => ?_⟩
  obtain ⟨above, moved⟩ := stays scrolled
  rw [vgaBottomViewportRow_eq] at scrolled
  refine ⟨above, by omega, by omega, ?_⟩
  intro kept y x hy hx away
  rw [vgaBottomViewportRow_eq] at above
  have rows := @vgaWrite_rows v s bounds (v.viewportRow + y) x (by omega) (by omega) hx away
  rw [drawn y x hy hx (by omega), drawn' y x hy hx (by omega), ← rows, moved]
  congr 2
  omega

end

/-- A screen that has scrolled by two rows, seen from one row up. -/
def scrolledBack : State := call (call (vgaInitialize bss) (.write (List.replicate 24 0x0A))) (.scrollView (-1))

theorem view_follows_or_stays_scrolled : StaysPut scrolledBack [0x41, 0x0A] := by
  have start : console.Run [] (vgaInitialize bss) := .start ⟨bss, (vgaInitialize_checked bss).1⟩
  have lines : console.Run [.write (List.replicate 24 0x0A)]
      (call (vgaInitialize bss) (.write (List.replicate 24 0x0A))) :=
    console_snoc start trivial
  have viewport := (console_inBounds lines).viewport
  have total := (console_inBounds lines).total
  have back : console.Run [.write (List.replicate 24 0x0A), .scrollView (-1)] scrolledBack :=
    console_snoc lines ⟨by omega, by omega⟩
  exact (view_follows_or_stays back [0x41, 0x0A]).2 (by decide +kernel)

end SimpleKernel.Vga
