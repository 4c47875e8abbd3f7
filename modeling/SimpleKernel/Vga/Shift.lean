import SimpleKernel.Kstring.Pointers
import SimpleKernel.Vga.Scrollback

/-!
# The move of `shift_history_up`

`shift_history_up` moves 255 rows of `u16` entries up by one row, over themselves. In the memory of
the machine that is a move of bytes (`historyEntry` reads an entry back). The destination lies below
the source, so `kmemmove` copies upwards and what it does is what the console of `Vga.Model` has in
`history_buffer` (`shiftsUp_history`).
-/

namespace SimpleKernel.Vga
set_option autoImplicit false
open Lib Kstring

def sizeofU16 : Nat := 2

/-- `history_buffer[i]`. -/
def historyEntry (m : WordMem) (history : Word) (i : Nat) : BitVec 16 :=
  m (history + BitVec.ofNat 64 (i * sizeofU16 + 1)) ++ m (history + BitVec.ofNat 64 (i * sizeofU16))

/-- `history_buffer + VGA_CONTENT_WIDTH`. -/
def secondRow (history : Word) : Word := history + BitVec.ofNat 64 (vgaContentWidth * sizeofU16)

/-- The bytes of all rows but one. -/
def movedBytes : Word := BitVec.ofNat 64 ((vgaScrollbackRows - 1) * vgaContentWidth * sizeofU16)

/-- The memory after the move. -/
def moveRows (m : WordMem) (history : Word) : WordMem := (Pointers.kmemmove m history (secondRow history) movedBytes).2

/-- `history_buffer` at an address: every row but the last is the one that was below it, as in the console
that the memory holds, and a `kmemcpy` does the same. -/
structure ShiftsUp (m : WordMem) (history : Word) : Prop where
  rows : ∀ row column, row < 255 → column < 78 →
    historyEntry (moveRows m history) history (row * 78 + column) = historyEntry m history ((row + 1) * 78 + column)
  console : ∀ v : State, (∀ i, i < 256 * 78 → historyEntry m history i = v.historyBuffer i) →
    ∀ i, i < 255 * 78 → historyEntry (moveRows m history) history i = (shiftHistoryUp v).historyBuffer i
  memcpy : Pointers.kmemcpy m history (secondRow history) movedBytes =
    Pointers.kmemmove m history (secondRow history) movedBytes

section

variable {m : WordMem} {history : Word}

theorem movedBytes_toNat : movedBytes.toNat = 255 * 156 := by decide

theorem secondRow_toNat (fits : history.toNat + 256 * 156 ≤ 2 ^ 64) : (secondRow history).toNat = history.toNat + 156 :=
  Pointers.add_ofNat_toNat (by show history.toNat + 156 < 2 ^ 64; omega)

theorem historyEntry_moveRows (fits : history.toNat + 256 * 156 ≤ 2 ^ 64) {i : Nat} (inside : i < 255 * 78) :
    historyEntry (moveRows m history) history i = historyEntry m history (i + 78) := by
  have second := secondRow_toNat fits
  have bytes := movedBytes_toNat
  have moved := @Pointers.kmemmove_moved history (secondRow history) movedBytes m (by omega) (by omega)
  have byte : ∀ j, j < 255 * 156 →
      moveRows m history (history + BitVec.ofNat 64 j) = m (history + BitVec.ofNat 64 (156 + j)) := by
    intro j below
    have small : BitVec.ofNat 64 j < movedBytes := by
      rw [BitVec.lt_def, bytes, BitVec.toNat_ofNat]
      omega
    rw [BitVec.ofNat_add, ← BitVec.add_assoc]
    exact moved.copied _ small
  unfold historyEntry sizeofU16
  rw [byte _ (by omega), byte _ (by omega)]
  congr 4 <;> omega

/-- **The rows move up.** -/
theorem shiftsUp_history (m : WordMem) (fits : history.toNat + 256 * 156 ≤ 2 ^ 64) : ShiftsUp m history := by
  have second := secondRow_toNat fits
  have bytes := movedBytes_toNat
  constructor
  · intro row column above inside
    rw [historyEntry_moveRows fits (by omega)]
    congr 1
    omega
  · intro v holds i inside
    rw [historyEntry_moveRows fits inside, shiftHistoryUp_get inside]
    exact holds _ (by omega)
  · apply Pointers.kmemcpy_eq_kmemmove m (by omega) (by omega)
    left
    rw [BitVec.le_def]
    omega

end

/-- **`kmemmove` is a simultaneous copy**, and so is `kmemcpy` onto lower addresses or between disjoint ranges, as in
`shift_history_up`. -/
theorem kmemmove_simultaneous (m : WordMem) :
    (∀ dst src n : Word, dst.toNat + n.toNat ≤ 2 ^ 64 → src.toNat + n.toNat ≤ 2 ^ 64 →
      Pointers.Moved m (Pointers.kmemmove m dst src n).2 dst src n ∧
        (dst ≤ src ∨ (∀ x, ¬ (Pointers.InRange dst n x ∧ Pointers.InRange src n x)) →
          Pointers.kmemcpy m dst src n = Pointers.kmemmove m dst src n)) ∧
    ∀ history : Word, history.toNat + 256 * 156 ≤ 2 ^ 64 → ShiftsUp m history := by
  constructor
  · intro dst src n hd hs
    exact ⟨Pointers.kmemmove_moved m hd hs, Pointers.kmemcpy_eq_kmemmove m hd hs⟩
  · intro history fits
    exact shiftsUp_history m fits

/-- The overlap of the unit test, and a buffer below 2 MiB. -/
theorem kmemmove_simultaneous_overlap :
    Pointers.Moved Pointers.unitTestData (Pointers.kmemmove Pointers.unitTestData 0x1002 0x1000 4).2 0x1002 0x1000 4 ∧
      ShiftsUp Pointers.unitTestData 0x110000 := by
  obtain ⟨moves, shifts⟩ := kmemmove_simultaneous Pointers.unitTestData
  exact ⟨(moves 0x1002 0x1000 4 (by decide) (by decide)).1, shifts 0x110000 (by decide)⟩

end SimpleKernel.Vga
