import SimpleKernel.Vga.Scrollback

/-!
# The text before the cursor

`Reads v text` says that the cells before the cursor hold the text, across the ends of rows. It
does not name a row, so a scroll in the middle of the text does not matter: a character that is
printed goes on at the end of the text (`Reads.print`) and a backspace takes the last one off
(`Reads.back`), as long as the text is shorter than the scrollback. Printing is editing the text,
`Reads.write`.
-/

namespace SimpleKernel.Vga
set_option autoImplicit false
open Kstring Lib

/-- The cell of `history_buffer` under the cursor. -/
def cursorCell (v : State) : Nat := v.terminalRow * 78 + v.terminalColumn

/-- The character of a cell. -/
def entryChar (entry : BitVec 16) : BitVec 8 := entry.setWidth 8

/-- The cells before the cursor hold the characters of the text. -/
structure Reads (v : State) (text : List (BitVec 8)) : Prop where
  room : text.length ≤ cursorCell v
  cells : ∀ i (_ : i < text.length), entryChar (v.historyBuffer (cursorCell v - text.length + i)) = text[i]

/-- What printing a character makes of the text before the cursor. -/
def editChar (text : List (BitVec 8)) (c : BitVec 8) : List (BitVec 8) :=
  if c = 0x08 then text.dropLast else text ++ [c]

/-- What printing makes of it. -/
def editText (text printed : List (BitVec 8)) : List (BitVec 8) := printed.foldl editChar text

theorem entryChar_vgaEntry (c color : BitVec 8) : entryChar (vgaEntry c color) = c := by
  unfold entryChar vgaEntry
  apply BitVec.eq_of_getLsbD_eq
  intro i hi
  simp [hi]

section

variable {v : State} {text : List (BitVec 8)} {b c : BitVec 8}

theorem reads_nil (v : State) : Reads v [] := ⟨Nat.zero_le _, fun i hi => absurd hi (Nat.not_lt_zero i)⟩

/-- Only the cursor and the cells before it matter. -/
theorem Reads.congr {w : State} (h : Reads v text) (cursor : cursorCell w = cursorCell v)
    (cells : w.historyBuffer = v.historyBuffer) : Reads w text := by
  refine ⟨cursor ▸ h.room, fun i hi => ?_⟩
  rw [cursor, cells]
  exact h.cells i hi

/-- The last character of the text is in the last cell. -/
theorem Reads.last (h : Reads v (text ++ [b])) : entryChar (v.historyBuffer (cursorCell v - 1)) = b := by
  have room := h.room
  have cell := h.cells text.length (by simp)
  have place : cursorCell v - (text ++ [b]).length + text.length = cursorCell v - 1 := by
    rw [List.length_append, List.length_singleton] at *
    omega
  rw [List.getElem_concat_length rfl, place] at cell
  exact cell

/-- The part of a text before the last character, read from a cursor one cell back. -/
theorem Reads.init (h : Reads v (text ++ [b])) {w : State} (cursor : cursorCell w + 1 = cursorCell v)
    (cells : ∀ a, a < cursorCell w → w.historyBuffer a = v.historyBuffer a) : Reads w text := by
  have room := h.room
  rw [List.length_append, List.length_singleton] at room
  refine ⟨by omega, fun i hi => ?_⟩
  have cell := h.cells i (by rw [List.length_append, List.length_singleton]; omega)
  have place : cursorCell v - (text ++ [b]).length + i = cursorCell w - text.length + i := by
    rw [List.length_append, List.length_singleton]
    omega
  rw [List.getElem_append_left hi, place] at cell
  rw [cells _ (by omega)]
  exact cell

/-- **A backspace** takes off the last character. -/
theorem Reads.back (h : Reads v (text ++ [b])) (bounds : InBounds v) : Reads (vgaPutchar v 0x08) text := by
  have room := h.room
  rw [List.length_append, List.length_singleton] at room
  obtain ⟨next, -⟩ := (onTape_tapeOf v).putchar bounds 0x08
  have start : (tapeOf v).head = cursorCell v := rfl
  have tape : typeOn v.terminalColor (tapeOf v) 0x08 = { tapeOf v with
      cells := Function.update (tapeOf v).cells (cursorCell v - 1) (vgaEntry 0x20 v.terminalColor)
      head := cursorCell v - 1 } := by
    unfold typeOn Tape.back
    rw [if_neg (by decide), if_pos rfl, if_pos]
    · rfl
    · show 0 * 78 < cursorCell v
      omega
  rw [tape] at next
  have head := next.head
  have cursor : cursorCell (vgaPutchar v 0x08) + 1 = cursorCell v := by
    have zero : (tapeOf v).first = 0 := rfl
    dsimp only at head
    rw [zero, Nat.zero_add] at head
    unfold cursorCell at *
    omega
  have bounds' := (vgaPutchar_checked bounds 0x08).2
  have column := bounds.column
  have row := Nat.lt_of_lt_of_le bounds.row bounds.total
  refine h.init cursor fun a below => ?_
  have inside : a < 256 * 78 := by
    unfold cursorCell at *
    omega
  rw [next.holds a inside]
  show Function.update (tapeOf v).cells (cursorCell v - 1) _ (0 * 78 + a) = _
  rw [Nat.zero_mul, Nat.zero_add, Function.update_of_ne (by omega)]
  rfl

/-- **A character** goes on at the end. -/
theorem Reads.print (h : Reads v text) (bounds : InBounds v) (newline : c ≠ 0x0A) (back : c ≠ 0x08)
    (short : text.length + 79 ≤ 256 * 78) : Reads (vgaPutchar v c) (text ++ [c]) := by
  have room := h.room
  have start : (tapeOf v).head = cursorCell v := rfl
  have column := bounds.column
  have row := Nat.lt_of_lt_of_le bounds.row bounds.total
  have bounds' := (vgaPutchar_checked bounds c).2
  have column' := bounds'.column
  have row' := Nat.lt_of_lt_of_le bounds'.row bounds'.total
  obtain ⟨next, -⟩ := (onTape_tapeOf v).putchar bounds c
  have typed : typeOn v.terminalColor (tapeOf v) c =
      (tapeOf v).put 78 256 (vgaEntry 0x20 v.terminalColor) (vgaEntry c v.terminalColor) := by
    rw [typeOn, if_neg newline, if_neg back]
  rw [typed] at next
  have bound : cursorCell v < 256 * 78 := by
    unfold cursorCell
    omega
  have first := @Tape.put_first _ 78 256 (vgaEntry 0x20 v.terminalColor) (vgaEntry c v.terminalColor) (tapeOf v)
    (by rw [start]; show _ < 0 + 256; omega)
  have head := next.head
  rw [Tape.put_head] at head
  have zero : (tapeOf v).first = 0 := rfl
  rw [start] at first head
  rw [zero] at first
  have old : ∀ x, x < cursorCell v →
      ((tapeOf v).put 78 256 (vgaEntry 0x20 v.terminalColor) (vgaEntry c v.terminalColor)).cells x =
        v.historyBuffer x := fun x before => Tape.put_cells (start ▸ before)
  have new : ((tapeOf v).put 78 256 (vgaEntry 0x20 v.terminalColor) (vgaEntry c v.terminalColor)).cells (cursorCell v) =
      vgaEntry c v.terminalColor := Tape.put_cell
  generalize (tapeOf v).put 78 256 (vgaEntry 0x20 v.terminalColor) (vgaEntry c v.terminalColor) = t at *
  have kept : t.first * 78 + text.length ≤ cursorCell v := by
    rw [first]
    omega
  have cursor : cursorCell (vgaPutchar v c) + t.first * 78 = cursorCell v + 1 := by
    unfold cursorCell at *
    omega
  have inside : cursorCell (vgaPutchar v c) < 256 * 78 := by
    unfold cursorCell
    omega
  have length : (text ++ [c]).length = text.length + 1 := by simp
  refine ⟨by omega, fun i hi => ?_⟩
  have cell : t.first * 78 + (cursorCell (vgaPutchar v c) - (text ++ [c]).length + i) =
      cursorCell v - text.length + i := by
    omega
  rw [next.holds _ (by omega), cell]
  by_cases last : i = text.length
  · subst last
    rw [Nat.sub_add_cancel room, new, entryChar_vgaEntry, List.getElem_concat_length rfl]
  · rw [old _ (by omega), List.getElem_append_left (by omega)]
    exact h.cells i (by omega)

theorem Reads.setcolor (h : Reads v text) (color : BitVec 8) : Reads (vgaSetcolor v color) text := h.congr rfl rfl

/-! ## Editing -/

/-- Printing stays on the line: no newline, and no backspace where the text is empty. -/
def StaysOn : List (BitVec 8) → List (BitVec 8) → Prop
  | _, [] => True
  | text, c :: printed => c ≠ 0x0A ∧ (c = 0x08 → text ≠ []) ∧ StaysOn (editChar text c) printed

variable {base printed s : List (BitVec 8)} {k : Nat}

theorem StaysOn.of_append {later : List (BitVec 8)} (h : StaysOn text (printed ++ later)) : StaysOn text printed := by
  induction printed generalizing text with
  | nil => trivial
  | cons c printed ih => exact ⟨h.1, h.2.1, ih h.2.2⟩

theorem length_editChar_le (text : List (BitVec 8)) (c : BitVec 8) : (editChar text c).length ≤ text.length + 1 := by
  unfold editChar
  split
  · rw [List.length_dropLast]
    omega
  · rw [List.length_append, List.length_singleton]

/-- **One character**: what lies before the line is not touched. -/
theorem Reads.edit (h : Reads v (base ++ text)) (bounds : InBounds v) (newline : c ≠ 0x0A)
    (inside : c = 0x08 → text ≠ []) (short : base.length + text.length + 79 ≤ 256 * 78) :
    Reads (vgaPutchar v c) (base ++ editChar text c) := by
  by_cases back : c = 0x08
  · subst back
    obtain ⟨rest, b, rfl⟩ := (List.eq_nil_or_concat text).resolve_left (inside rfl)
    rw [List.concat_eq_append, ← List.append_assoc] at h
    rw [editChar, if_pos rfl, List.concat_eq_append, List.dropLast_concat]
    exact h.back bounds
  · rw [editChar, if_neg back, ← List.append_assoc]
    refine h.print bounds newline back ?_
    rw [List.length_append]
    exact short

/-- **A text.** -/
theorem Reads.write (h : Reads v (base ++ text)) (bounds : InBounds v) (stays : StaysOn text printed)
    (short : base.length + text.length + printed.length + 78 ≤ 256 * 78) :
    Reads (vgaWrite v printed) (base ++ editText text printed) := by
  induction printed generalizing v text with
  | nil => exact h
  | cons c printed ih =>
    obtain ⟨newline, inside, rest⟩ := stays
    have grown := length_editChar_le text c
    rw [List.length_cons] at short
    exact ih (h.edit bounds newline inside (by omega)) (vgaPutchar_checked bounds c).2 rest (by omega)

/-- Taking back some of the text and typing on. -/
theorem staysOn_retype (back : k ≤ text.length) (plain : ∀ c ∈ s, c ≠ 0x0A ∧ c ≠ 0x08) :
    StaysOn text (List.replicate k 0x08 ++ s) := by
  induction k generalizing text with
  | zero =>
    rw [List.replicate_zero, List.nil_append]
    induction s generalizing text with
    | nil => trivial
    | cons c s ih =>
      obtain ⟨first, rest⟩ := List.forall_mem_cons.1 plain
      exact ⟨first.1, fun erase => absurd erase first.2, ih rest (Nat.zero_le _)⟩
  | succ k ih =>
    rw [List.replicate_succ, List.cons_append]
    refine ⟨by decide, fun _ => List.ne_nil_of_length_pos (by omega), ih ?_⟩
    rw [editChar, if_pos rfl, List.length_dropLast]
    omega

theorem editText_plain (plain : ∀ c ∈ s, c ≠ 0x0A ∧ c ≠ 0x08) : editText text s = text ++ s := by
  induction s generalizing text with
  | nil => exact (List.append_nil text).symm
  | cons c s ih =>
    obtain ⟨first, rest⟩ := List.forall_mem_cons.1 plain
    rw [editText, List.foldl_cons, ← editText, ih rest, editChar, if_neg first.2, List.append_assoc,
      List.singleton_append]

theorem editText_retype (plain : ∀ c ∈ s, c ≠ 0x0A ∧ c ≠ 0x08) :
    editText text (List.replicate k 0x08 ++ s) = text.take (text.length - k) ++ s := by
  induction k generalizing text with
  | zero =>
    rw [List.replicate_zero, List.nil_append, Nat.sub_zero, List.take_length]
    exact editText_plain plain
  | succ k ih =>
    have one : editChar text 0x08 = text.take (text.length - 1) := by
      rw [editChar, if_pos rfl, List.dropLast_eq_take]
    rw [List.replicate_succ, List.cons_append, editText, List.foldl_cons, ← editText, one, ih, List.take_take,
      List.length_take]
    congr 2
    omega

end

end SimpleKernel.Vga
