import SimpleKernel.Vga.Bounds

/-!
# `vga_putentryat`

The entry goes into the scrollback whether or not its row is in use, and `render_viewport`
draws the rows in use only. So the call changes no other cell and no other variable, and the
cell shows the entry exactly when the row has been printed to or the entry is a blank
(`putentryat_shown_iff`).
-/

namespace SimpleKernel.Vga
set_option autoImplicit false
open Kstring Lib

/-- The cell `(x, y)` of the frame buffer inside the padding. -/
def contentCell (v : State) (x y : Nat) : BitVec 16 := v.terminalBuffer ((y + 1) * 80 + (x + 1))

/-- `v'` shows the entry at `(x, y)` and is otherwise as `v` would have been drawn. -/
structure ShowsEntry (v v' : State) (entry : BitVec 16) (x y : Nat) : Prop where
  shown : contentCell v' x y = entry
  others : ∀ x' y', x' < 78 → y' < 23 → (x', y') ≠ (x, y) → contentCell v' x' y' = contentCell (renderViewport v) x' y'
  cursor : v'.terminalRow = v.terminalRow ∧ v'.terminalColumn = v.terminalColumn ∧ v'.cursorLow = v.cursorLow ∧
    v'.cursorHigh = v.cursorHigh
  viewport : v'.viewportRow = v.viewportRow
  total : v'.totalRows = v.totalRows
  color : v'.terminalColor = v.terminalColor

section

variable {v : State} {c color : BitVec 8} {x y x' y' row column : Nat} {entry : BitVec 16}

/-- What `render_viewport` puts in a content cell. -/
theorem contentCell_render (hx : x < 78) (hy : y < 23) : contentCell (renderViewport v) x y =
    if v.viewportRow + y < v.totalRows then v.historyBuffer ((v.viewportRow + y) * 78 + x) else blankEntry v := by
  have cell := rendered_renderViewport v (y + 1) (x + 1) (by omega) (by omega)
  simp only [Nat.add_sub_cancel] at cell
  rw [contentCell, cell]
  refine if_congr ⟨fun h => h.2.2.2.2, fun used => ⟨by omega, by omega, by omega, by omega, used⟩⟩ rfl rfl

theorem storeEntry_same : (storeEntry v row column entry).historyBuffer (row * 78 + column) = entry :=
  if_pos rfl

theorem storeEntry_other {z : Nat} (other : z ≠ row * 78 + column) :
    (storeEntry v row column entry).historyBuffer z = v.historyBuffer z := if_neg other

theorem vgaPutentryat_eq (hx : x < 78) (hy : y < 23) (fits : v.viewportRow + y < 256) :
    vgaPutentryat v c color x y = renderViewport (storeEntry v (v.viewportRow + y) x (vgaEntry c color)) := by
  rw [vgaPutentryat, vgaScrollbackRows_eq, vgaContentWidth_eq, vgaContentHeight_eq, if_neg (by omega)]

/-- The cell that was asked for. -/
theorem vgaPutentryat_cell (hx : x < 78) (hy : y < 23) (fits : v.viewportRow + y < 256) :
    contentCell (vgaPutentryat v c color x y) x y =
      if v.viewportRow + y < v.totalRows then vgaEntry c color else blankEntry v := by
  rw [vgaPutentryat_eq hx hy fits, contentCell_render hx hy]
  exact if_congr Iff.rfl storeEntry_same rfl

/-- Every other one. -/
theorem vgaPutentryat_others (hx : x < 78) (hy : y < 23) (fits : v.viewportRow + y < 256)
    (hx' : x' < 78) (hy' : y' < 23) (other : (x', y') ≠ (x, y)) :
    contentCell (vgaPutentryat v c color x y) x' y' = contentCell (renderViewport v) x' y' := by
  have apart : (v.viewportRow + y') * 78 + x' ≠ (v.viewportRow + y) * 78 + x := by
    intro same
    apply other
    rw [Prod.mk.injEq]
    omega
  rw [vgaPutentryat_eq hx hy fits, contentCell_render hx' hy', contentCell_render hx' hy']
  exact if_congr Iff.rfl (storeEntry_other apart) rfl

theorem showsEntry_iff (hx : x < 78) (hy : y < 23) (fits : v.viewportRow + y < 256) :
    ShowsEntry v (vgaPutentryat v c color x y) (vgaEntry c color) x y ↔
      v.viewportRow + y < v.totalRows ∨ vgaEntry c color = blankEntry v := by
  have cell := @vgaPutentryat_cell v c color x y hx hy fits
  have others := fun x' y' => @vgaPutentryat_others v c color x y x' y' hx hy fits
  rw [vgaPutentryat_eq hx hy fits] at *
  constructor
  · intro shows
    by_cases used : v.viewportRow + y < v.totalRows
    · exact .inl used
    · rw [if_neg used] at cell
      exact .inr (shows.shown.symm.trans cell)
  · intro visible
    refine ⟨?_, others, ⟨rfl, rfl, rfl, rfl⟩, rfl, rfl, rfl⟩
    rw [cell]
    split
    · rfl
    · rename_i unused
      exact (visible.resolve_left unused).symm

end

/-- **When `vga_putentryat` shows its entry**, after any calls. -/
theorem putentryat_shown_iff {calls : List Call} {v : State} (run : console.Run calls v)
    (c color : BitVec 8) {x y : Nat} (hx : x < 78) (hy : y < 23) (fits : v.viewportRow + y < 256) :
    ∃ v', Checked.call v (.putentryat c color x y) = some v' ∧
      (ShowsEntry v v' (vgaEntry c color) x y ↔ v.viewportRow + y < v.totalRows ∨ vgaEntry c color = blankEntry v) :=
  ⟨_, (vgaPutentryat_checked (console_inBounds run) c color x y).1, showsEntry_iff hx hy fits⟩

theorem console_start : console.Run [] (vgaInitialize bss) := .start ⟨bss, (vgaInitialize_checked bss).1⟩

/-- The first row after `vga_initialize`. -/
theorem putentryat_shown_first :
    ∃ v', Checked.call (vgaInitialize bss) (.putentryat 0x41 4 77 0) = some v' ∧
      ShowsEntry (vgaInitialize bss) v' (vgaEntry 0x41 4) 77 0 := by
  obtain ⟨v', call, shown⟩ :=
    putentryat_shown_iff console_start 0x41 4 (x := 77) (y := 0) (by decide) (by decide) (by decide)
  exact ⟨v', call, shown.2 (.inl (by decide))⟩

/-- The second one is not in use: the cell stays blank. -/
theorem putentryat_below_hidden : ∃ v', console.Run [.putentryat 0x41 4 0 1] v' ∧
    contentCell v' 0 1 = blankEntry (vgaInitialize bss) ∧
    ¬ ShowsEntry (vgaInitialize bss) v' (vgaEntry 0x41 4) 0 1 := by
  have unused : ¬ (vgaInitialize bss).viewportRow + 1 < (vgaInitialize bss).totalRows := by decide
  refine ⟨_, console_snoc console_start (c := .putentryat 0x41 4 0 1) trivial, ?_, fun shows => ?_⟩
  · exact (vgaPutentryat_cell (by decide) (by decide) (by decide)).trans (if_neg unused)
  · have visible := (showsEntry_iff (by decide) (by decide) (by decide)).1 shows
    exact absurd (visible.resolve_left unused) (by decide)

end SimpleKernel.Vga
