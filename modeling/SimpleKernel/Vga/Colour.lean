import SimpleKernel.Vga.Reading

/-!
# Colours

`bare` takes the colours out of a state of the console. Every function of `vga.c` commutes with it, so what is
written where, the view and the cursor do not depend on the colours (`bare_call`).
-/

namespace SimpleKernel.Vga
set_option autoImplicit false
open Kstring Lib

def vgaColorRed : BitVec 8 := 4
def vgaColorLightBlue : BitVec 8 := 9
def vgaColorLightRed : BitVec 8 := 12
def vgaColorLightMagenta : BitVec 8 := 13
def vgaColorYellow : BitVec 8 := 14
def vgaColorWhite : BitVec 8 := 15

/-- An entry in the first colour. -/
def plain (entry : BitVec 16) : BitVec 16 := vgaEntry (entryChar entry) 0

/-- The state without its colours. -/
def bare (v : State) : State :=
  { v with
    terminalColor := 0
    terminalBuffer := fun i => plain (v.terminalBuffer i)
    historyBuffer := fun i => plain (v.historyBuffer i) }

/-- A call without its colour. -/
def Call.plain : Call → Call
  | .setcolor _ => .setcolor 0
  | .putentryat c _ x y => .putentryat c 0 x y
  | c => c

theorem plain_vgaEntry (c color : BitVec 8) : plain (vgaEntry c color) = vgaEntry c 0 := by
  rw [plain, entryChar_vgaEntry]

/-! ## Arrays -/

section

variable {α β : Type*} (f : α → β)

theorem setCell_map (m : Nat → α) (i : Nat) (a : α) :
    setCell (fun x => f (m x)) i (f a) = fun x => f (setCell m i a x) := by
  funext x
  simp only [setCell, apply_ite f]

theorem setCells_map (m : Nat → α) (cell : Nat → Nat) (n : Nat) (a : α) :
    (List.range n).foldl (fun m i => setCell m (cell i) (f a)) (fun x => f (m x)) =
      fun x => f ((List.range n).foldl (fun m i => setCell m (cell i) a) m x) := by
  exact List.foldl_hom (fun (m : Nat → α) x => f (m x)) fun m i => setCell_map f m (cell i) a

theorem kmemmove_map (m : Nat → α) (dst src n : Nat) :
    kmemmove (fun x => f (m x)) dst src n = fun x => f (kmemmove m dst src n x) := by
  funext x
  simp only [kmemmove_get, apply_ite f]

theorem kmemcpyFrom_map (out input : Nat → α) (dst src n : Nat) :
    kmemcpyFrom (fun x => f (out x)) (fun x => f (input x)) dst src n =
      fun x => f (kmemcpyFrom out input dst src n x) := by
  funext x
  simp only [kmemcpyFrom_get, apply_ite f]

end

/-! ## The functions -/

section

variable {v : State}

theorem bare_clearHistoryRow (v : State) (row : Nat) : clearHistoryRow (bare v) row = bare (clearHistoryRow v row) := by
  have blank : blankEntry (bare v) = plain (blankEntry v) := (plain_vgaEntry _ _).symm
  unfold clearHistoryRow
  dsimp only
  rw [blank]
  exact congrArg (fun history => { bare v with historyBuffer := history })
    (setCells_map plain v.historyBuffer (fun i => row * vgaContentWidth + i) vgaContentWidth (blankEntry v))

theorem bare_ite (p : Prop) [Decidable p] {v w v' w' : State} (yes : v' = bare v) (no : w' = bare w) :
    (if p then v' else w') = bare (if p then v else w) := by
  rw [yes, no]
  exact (apply_ite bare p v w).symm

/-- `w` with one row less than `v`. -/
def lessRow (v w : State) : State :=
  { w with terminalRow := v.terminalRow - 1, viewportRow := v.viewportRow - 1, totalRows := v.totalRows - 1 }

def withHistory (v : State) (history : Nat → BitVec 16) : State := { v with historyBuffer := history }

theorem bare_withHistory (v : State) (history : Nat → BitVec 16) :
    withHistory (bare v) (fun i => plain (history i)) = bare (withHistory v history) := rfl

theorem bare_shiftHistoryUp (v : State) : shiftHistoryUp (bare v) = bare (shiftHistoryUp v) := by
  have up : ∀ v, shiftHistoryUp v =
      lessRow v (clearHistoryRow (withHistory v (kmemmove v.historyBuffer 0 78 (255 * 78))) 255) :=
    fun v => shiftHistoryUp_eq v
  have moved : kmemmove (bare v).historyBuffer 0 78 (255 * 78) =
      fun i => plain (kmemmove v.historyBuffer 0 78 (255 * 78) i) :=
    kmemmove_map plain v.historyBuffer 0 78 (255 * 78)
  rw [up, up, moved, bare_withHistory, bare_clearHistoryRow]
  rfl

theorem bare_blankFrame (blank : BitVec 16) (frame : Nat → BitVec 16) :
    blankFrame (plain blank) (fun i => plain (frame i)) = fun i => plain (blankFrame blank frame i) :=
  List.foldl_hom (fun (frame : Nat → BitVec 16) i => plain (frame i)) fun frame y =>
    setCells_map plain frame (fun x => y * vgaWidth + x) vgaWidth blank

theorem bare_copyRows (v : State) (frame : Nat → BitVec 16) :
    copyRows (bare v) (fun i => plain (frame i)) = fun i => plain (copyRows v frame i) := by
  refine List.foldl_hom (fun (frame : Nat → BitVec 16) i => plain (frame i)) fun frame y => ?_
  have copied := kmemcpyFrom_map plain frame v.historyBuffer ((y + vgaPaddingY) * vgaWidth + vgaPaddingX)
    ((v.viewportRow + y) * vgaContentWidth) vgaContentWidth
  have kept := apply_ite (fun (frame : Nat → BitVec 16) i => plain (frame i)) (v.viewportRow + y ≥ v.totalRows) frame
    (kmemcpyFrom frame v.historyBuffer ((y + vgaPaddingY) * vgaWidth + vgaPaddingX)
      ((v.viewportRow + y) * vgaContentWidth) vgaContentWidth)
  rw [← copied] at kept
  exact kept.symm

theorem bare_renderViewport (v : State) : renderViewport (bare v) = bare (renderViewport v) := by
  have blank : blankEntry (bare v) = plain (blankEntry v) := (plain_vgaEntry _ _).symm
  have frame : copyRows (bare v) (blankFrame (blankEntry (bare v)) (bare v).terminalBuffer) =
      fun i => plain (copyRows v (blankFrame (blankEntry v) v.terminalBuffer) i) := by
    rw [← bare_copyRows, blank, ← bare_blankFrame]
    rfl
  exact congrArg (fun frame => { bare v with terminalBuffer := frame }) frame

theorem bare_drawn (v : State) : updateCursor (renderViewport (bare v)) = bare (updateCursor (renderViewport v)) :=
  congrArg updateCursor (bare_renderViewport v)

theorem bare_syncViewport (v : State) (follow : Bool) :
    syncViewport (bare v) follow = bare (syncViewport v follow) := by
  have clamped := @bare_ite (v.viewportRow > vgaBottomViewportRow v) _
    { v with viewportRow := vgaBottomViewportRow v } v _ _ rfl rfl
  have followed := @bare_ite (follow = true) _ { v with viewportRow := vgaBottomViewportRow v } _ _ _ rfl clamped
  exact (congrArg (fun w => updateCursor (renderViewport w)) followed).trans (bare_drawn _)

theorem bare_growTotal (v : State) : growTotal (bare v) = bare (growTotal v) := by
  unfold growTotal
  exact bare_ite _ rfl rfl

theorem bare_advanceLine (v : State) (follow : Bool) : advanceLine (bare v) follow = bare (advanceLine v follow) := by
  have scrolled : ∀ w, (if (bare w).terminalRow ≥ vgaScrollbackRows then shiftHistoryUp (bare w) else bare w) =
      bare (if w.terminalRow ≥ vgaScrollbackRows then shiftHistoryUp w else w) := by
    intro w
    rw [bare_shiftHistoryUp]
    exact (apply_ite bare (w.terminalRow ≥ vgaScrollbackRows) _ _).symm
  have cleared := fun w => congrArg growTotal (scrolled w)
  refine (congrArg (fun w => syncViewport (clearHistoryRow w w.terminalRow) follow)
    (cleared { v with terminalColumn := 0, terminalRow := v.terminalRow + 1 })).trans ?_
  rw [bare_growTotal]
  exact (congrArg (syncViewport · follow) (bare_clearHistoryRow _ _)).trans (bare_syncViewport _ _)

theorem bare_storeEntry (v : State) (row column : Nat) (entry : BitVec 16) :
    storeEntry (bare v) row column (plain entry) = bare (storeEntry v row column entry) :=
  congrArg (fun history => { bare v with historyBuffer := history }) (setCell_map plain v.historyBuffer _ _)

/-- The cell behind the cursor is blanked. -/
theorem bare_eraseCell (v : State) :
    storeEntry { bare v with terminalColumn := v.terminalColumn - 1 } v.terminalRow (v.terminalColumn - 1)
        (vgaEntry 0x20 0) =
      bare (storeEntry { v with terminalColumn := v.terminalColumn - 1 } v.terminalRow (v.terminalColumn - 1)
        (vgaEntry 0x20 v.terminalColor)) := by
  rw [← bare_storeEntry, plain_vgaEntry]
  rfl

theorem bare_eraseBack (v : State) : eraseBack (bare v) = bare (eraseBack v) := by
  refine bare_ite (v.terminalColumn > 0 ∨ v.terminalRow > 0) ?_ rfl
  by_cases first : v.terminalColumn = 0
  · have first' : (bare v).terminalColumn = 0 := first
    rw [if_pos first, if_pos first']
    exact bare_eraseCell { v with terminalRow := v.terminalRow - 1, terminalColumn := vgaContentWidth }
  · have first' : ¬ (bare v).terminalColumn = 0 := first
    rw [if_neg first, if_neg first']
    exact bare_eraseCell v

theorem bare_typed (v : State) (c : BitVec 8) : typed (bare v) c = bare (typed v c) := by
  have stored : storeEntry (bare v) v.terminalRow v.terminalColumn (vgaEntry c 0) =
      bare (storeEntry v v.terminalRow v.terminalColumn (vgaEntry c v.terminalColor)) := by
    rw [← bare_storeEntry, plain_vgaEntry]
  exact congrArg (fun w => { w with terminalColumn := v.terminalColumn + 1 }) stored

theorem bare_putchar (v : State) (c : BitVec 8) : vgaPutchar (bare v) c = bare (vgaPutchar v c) := by
  by_cases newline : c = 0x0A
  · subst newline
    exact bare_advanceLine v _
  · by_cases back : c = 0x08
    · subst back
      exact (congrArg (syncViewport · _) (bare_eraseBack v)).trans (bare_syncViewport _ _)
    · rw [vgaPutchar_typed newline back, vgaPutchar_typed newline back, bare_typed]
      refine bare_ite _ (bare_advanceLine _ _) ?_
      rw [bare_growTotal]
      exact bare_syncViewport _ _

theorem bare_clear (v : State) : vgaClear (bare v) = bare (vgaClear v) := by
  have rows : (List.range vgaScrollbackRows).foldl clearHistoryRow (bare v) =
      bare ((List.range vgaScrollbackRows).foldl clearHistoryRow v) :=
    List.foldl_hom bare fun v row => bare_clearHistoryRow v row
  unfold vgaClear
  rw [rows]
  generalize (List.range vgaScrollbackRows).foldl clearHistoryRow v = w
  exact bare_drawn { w with terminalRow := 0, terminalColumn := 0, viewportRow := 0, totalRows := 1 }

theorem bare_putentryat (v : State) (c color : BitVec 8) (x y : Nat) :
    vgaPutentryat (bare v) c 0 x y = bare (vgaPutentryat v c color x y) := by
  refine bare_ite _ rfl ?_
  rw [← bare_renderViewport, ← bare_storeEntry, plain_vgaEntry]
  rfl

theorem bare_scrollView (v : State) (delta : Int) : vgaScrollView (bare v) delta = bare (vgaScrollView v delta) :=
  bare_drawn { v with viewportRow := _ }

/-- **Every call commutes with taking the colours out.** -/
theorem bare_call (v : State) (c : Call) : call (bare v) c.plain = bare (call v c) := by
  cases c with
  | putchar c => exact bare_putchar v c
  | write data => exact List.foldl_hom bare bare_putchar
  | setcolor color => rfl
  | clear => exact bare_clear v
  | putentryat c color x y => exact bare_putentryat v c color x y
  | scrollView delta => exact bare_scrollView v delta
  | scrollToBottom => exact bare_drawn { v with viewportRow := vgaBottomViewportRow v }

end

end SimpleKernel.Vga
