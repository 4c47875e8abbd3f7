import SimpleKernel.Lib.CString

/-!
# `kstring.c`: the memory routines

`kmemcpy` and `kmemmove` are stated over an array of cells: a byte array is the case of
byte cells, and where the kernel moves whole `u16` entries (`vga.c`, every length a
multiple of the entry size) a cell is one entry. The loops run in the order of the
source; `kmemmove_get` and `kmemset_eq_fill` are their closed forms.
-/

namespace SimpleKernel.Kstring
set_option autoImplicit false
open Lib

section Cells

variable {α : Type*}

/-- `out[i] = in[j]`. -/
def setCell (m : Nat → α) (i : Nat) (v : α) : Nat → α := fun x => if x = i then v else m x

/-- `for (i = 0; i < n; i++) out[i] = in[i]`. -/
def kmemcpy (m : Nat → α) (dst src n : Nat) : Nat → α :=
  (List.range n).foldl (fun m i => setCell m (dst + i) (m (src + i))) m

/-- The loop of `kmemmove` when `dst` lies above `src`: `i` runs down from `n`. -/
def copyDown (m : Nat → α) (dst src : Nat) : Nat → Nat → α
  | 0 => m
  | i + 1 => copyDown (setCell m (dst + i) (m (src + i))) dst src i

def kmemmove (m : Nat → α) (dst src n : Nat) : Nat → α :=
  if dst = src ∨ n = 0 then m
  else if dst < src then kmemcpy m dst src n
  else copyDown m dst src n

theorem kmemcpy_succ (m : Nat → α) (dst src n : Nat) :
    kmemcpy m dst src (n + 1) = setCell (kmemcpy m dst src n) (dst + n) (kmemcpy m dst src n (src + n)) := by
  simp [kmemcpy, List.range_succ]

/-- An ascending copy onto lower addresses, or between disjoint ranges, never reads a
cell it has written. -/
theorem kmemcpy_get {m : Nat → α} {dst src n : Nat} (h : dst ≤ src ∨ src + n ≤ dst) (x : Nat) :
    kmemcpy m dst src n x = if dst ≤ x ∧ x < dst + n then m (src + (x - dst)) else m x := by
  induction n generalizing x with
  | zero =>
    rw [if_neg (by omega)]
    rfl
  | succ n ih =>
    have ih := fun x => ih (by omega) x
    have unread : kmemcpy m dst src n (src + n) = m (src + n) := by
      rw [ih, ite_eq_right_iff]
      intro written
      congr 1
      omega
    rw [kmemcpy_succ, setCell, unread, ih]
    split_ifs <;> first | rfl | (congr 1; omega)

/-- A descending copy onto higher addresses never reads a cell it has written. -/
theorem copyDown_get {m : Nat → α} {dst src n : Nat} (h : src ≤ dst) (x : Nat) :
    copyDown m dst src n x = if dst ≤ x ∧ x < dst + n then m (src + (x - dst)) else m x := by
  induction n generalizing m x with
  | zero =>
    rw [if_neg (by omega)]
    rfl
  | succ n ih =>
    rw [copyDown, ih]
    simp only [setCell]
    split_ifs <;> first | rfl | (congr 1; omega)

/-- **`kmemmove` copies the old contents**, whatever the overlap. -/
theorem kmemmove_get (m : Nat → α) (dst src n x : Nat) :
    kmemmove m dst src n x = if dst ≤ x ∧ x < dst + n then m (src + (x - dst)) else m x := by
  unfold kmemmove
  by_cases trivial : dst = src ∨ n = 0
  · rw [if_pos trivial]
    split_ifs
    · congr 1
      omega
    · rfl
  · rw [if_neg trivial]
    split
    · exact kmemcpy_get (.inl (by omega)) x
    · exact copyDown_get (by omega) x

/-- A loop that stores one value in consecutive cells. -/
theorem setCells_get (m : Nat → α) (base n : Nat) (v : α) (x : Nat) :
    (List.range n).foldl (fun m i => setCell m (base + i) v) m x =
      if base ≤ x ∧ x < base + n then v else m x := by
  induction n with
  | zero =>
    rw [if_neg (by omega)]
    rfl
  | succ n ih =>
    rw [List.range_succ, List.foldl_append, List.foldl_cons, List.foldl_nil, setCell, ih]
    split_ifs <;> first | rfl | omega

/-- `kmemcpy` from another array. -/
def kmemcpyFrom (out input : Nat → α) (dst src n : Nat) : Nat → α :=
  (List.range n).foldl (fun out i => setCell out (dst + i) (input (src + i))) out

theorem kmemcpyFrom_get (out input : Nat → α) (dst src n x : Nat) :
    kmemcpyFrom out input dst src n x = if dst ≤ x ∧ x < dst + n then input (src + (x - dst)) else out x := by
  induction n with
  | zero =>
    rw [if_neg (by omega)]
    rfl
  | succ n ih =>
    have step : kmemcpyFrom out input dst src (n + 1) =
        setCell (kmemcpyFrom out input dst src n) (dst + n) (input (src + n)) := by
      simp [kmemcpyFrom, List.range_succ]
    rw [step, setCell, ih]
    split_ifs <;> first | rfl | omega | (congr 1; omega)

end Cells

/-- `for (i = 0; i < n; i++) out[i] = (u8)value`. -/
def kmemset (m : Mem) (dst : Nat) (value : BitVec 8) (n : Nat) : Mem :=
  (List.range n).foldl (fun m i => storeByte m (dst + i) value) m

theorem kmemset_eq_fill (m : Mem) (dst n : Nat) (value : BitVec 8) :
    kmemset m dst value n = fill m dst n value := by
  induction n with
  | zero =>
    funext x
    exact (fill_out (by omega)).symm
  | succ n ih =>
    have step : kmemset m dst value (n + 1) = storeByte (kmemset m dst value n) (dst + n) value := by
      simp [kmemset, List.range_succ]
    rw [step, ih]
    funext x
    simp only [storeByte, fill]
    split_ifs <;> first | rfl | omega

/-- `kstrcmp` on the strings at `l` and `r` of two arrays. -/
def kstrcmp (sizeL sizeR : Nat) (lhs rhs : Mem) : Nat → Nat → Nat → Option Int
  | 0, _, _ => none
  | fuel + 1, l, r => do
    let a ← loadIn sizeL lhs l
    let b ← loadIn sizeR rhs r
    if a ≠ 0 ∧ a = b then kstrcmp sizeL sizeR lhs rhs fuel (l + 1) (r + 1) else some ((a.toNat : Int) - b.toNat)

theorem byte_sub_eq_zero {a b : BitVec 8} : (a.toNat : Int) - b.toNat = 0 ↔ a = b := by
  rw [← BitVec.toNat_inj]
  omega

section

variable {sizeL sizeR : Nat} {lhs rhs : Mem}

/-- It ends at the first difference or at the terminator. -/
theorem kstrcmp_stop {fuel l r : Nat} (insideL : l < sizeL) (insideR : r < sizeR)
    (stop : ¬ (lhs l ≠ 0 ∧ lhs l = rhs r)) :
    kstrcmp sizeL sizeR lhs rhs (fuel + 1) l r = some (((lhs l).toNat : Int) - (rhs r).toNat) := by
  rw [kstrcmp, loadIn_of_lt insideL, loadIn_of_lt insideR]
  exact if_neg stop

theorem kstrcmp_next {fuel l r : Nat} (insideL : l < sizeL) (insideR : r < sizeR) (nonzero : lhs l ≠ 0)
    (same : lhs l = rhs r) :
    kstrcmp sizeL sizeR lhs rhs (fuel + 1) l r = kstrcmp sizeL sizeR lhs rhs fuel (l + 1) (r + 1) := by
  rw [kstrcmp, loadIn_of_lt insideL, loadIn_of_lt insideR]
  exact if_pos ⟨nonzero, same⟩

/-- On strings inside their arrays it ends, and the result is `0` exactly for equal strings. -/
theorem kstrcmp_spec {s t : List (BitVec 8)} {fuel l r : Nat} (hs : StrAt lhs l s) (ht : StrAt rhs r t)
    (insideL : l + s.length < sizeL) (insideR : r + t.length < sizeR) (enough : s.length < fuel) :
    ∃ d, kstrcmp sizeL sizeR lhs rhs fuel l r = some d ∧ (d = 0 ↔ s = t) := by
  induction s generalizing t fuel l r with
  | nil =>
    obtain ⟨fuel, rfl⟩ : ∃ k, fuel = k + 1 := ⟨fuel - 1, by omega⟩
    have nul := strAt_nil.1 hs
    refine ⟨_, kstrcmp_stop (by omega) (by omega) fun go => go.1 nul, ?_⟩
    rw [byte_sub_eq_zero, nul]
    cases t with
    | nil => simp [strAt_nil.1 ht]
    | cons d t =>
      obtain ⟨first, nonzero, -⟩ := strAt_cons.1 ht
      rw [first]
      exact iff_of_false (Ne.symm nonzero) (by simp)
  | cons c s ih =>
    obtain ⟨fuel, rfl⟩ : ∃ k, fuel = k + 1 := ⟨fuel - 1, by omega⟩
    obtain ⟨first, nonzero, rest⟩ := strAt_cons.1 hs
    rw [List.length_cons] at insideL enough
    cases t with
    | nil =>
      have nul := strAt_nil.1 ht
      refine ⟨_, kstrcmp_stop (by omega) (by omega) fun go => go.1 (go.2.trans nul), ?_⟩
      rw [byte_sub_eq_zero, first, nul]
      exact iff_of_false nonzero (by simp)
    | cons d t =>
      obtain ⟨first', -, rest'⟩ := strAt_cons.1 ht
      rw [List.length_cons] at insideR
      by_cases same : c = d
      · subst same
        obtain ⟨e, run, zero⟩ := @ih t fuel _ _ rest rest' (by omega) (by omega) (by omega)
        rw [kstrcmp_next (by omega) (by omega) (first.symm ▸ nonzero) (first.trans first'.symm)]
        exact ⟨e, run, zero.trans (by simp)⟩
      · refine ⟨_, kstrcmp_stop (by omega) (by omega) fun go => same (first.symm.trans (go.2.trans first')), ?_⟩
        rw [byte_sub_eq_zero, first, first']
        simp [same]

end

end SimpleKernel.Kstring
