import SimpleKernel.Lib.Memory
import Mathlib.Tactic.Common

/-!
# A stack of words in 64-bit memory

Memory is a byte function of 64-bit addresses, and addresses wrap. The stack grows down in
words of eight bytes, wherever it starts. `Holds m a ws` says that the words `ws` lie from
`a` upwards: it is what pushes leave behind, last word first (`pushes_holds`), and what
loads and pops read back. A push changes nothing outside the bytes below the stack pointer.
-/

namespace Lib
set_option autoImplicit false

abbrev Word := BitVec 64
abbrev WordMem := Word → BitVec 8

/-- The eight bytes from `a` on, least significant first. -/
def load64 (m : WordMem) (a : Word) : Word := BitVec.ofNat 64 (loadLE (fun i => m (a + BitVec.ofNat 64 i)) 0 8)

def store64 (m : WordMem) (a v : Word) : WordMem := fun x =>
  if (x - a).toNat < 8 then BitVec.ofNat 8 (v.toNat / 256 ^ (x - a).toNat) else m x

structure Stack where
  mem : WordMem
  sp : Word

def Stack.push (s : Stack) (v : Word) : Stack := ⟨store64 s.mem (s.sp - 8) v, s.sp - 8⟩

def Stack.pushes (s : Stack) (vs : List Word) : Stack := vs.foldl Stack.push s

/-- The words `ws` lie from `a` upwards. -/
def Holds (m : WordMem) : Word → List Word → Prop
  | _, [] => True
  | a, w :: ws => load64 m a = w ∧ Holds m (a + 8) ws

section

variable {m m' : WordMem} {a b v : Word}

theorem load64_congr (same : ∀ i, i < 8 → m' (a + BitVec.ofNat 64 i) = m (a + BitVec.ofNat 64 i)) :
    load64 m' a = load64 m a := by
  unfold load64
  rw [loadLE_congr fun i _ hi => same i (by omega)]

theorem load64_store64_same : load64 (store64 m a v) a = v := by
  have bytes : loadLE (fun i => store64 m a v (a + BitVec.ofNat 64 i)) 0 8 = v.toNat % 256 ^ 8 := by
    apply loadLE_bytes
    intro i hi
    have offset : (a + BitVec.ofNat 64 (0 + i) - a).toNat = i := by bv_omega
    unfold store64
    rw [offset, if_pos hi]
  unfold load64
  rw [bytes]
  apply BitVec.eq_of_toNat_eq
  rw [BitVec.toNat_ofNat]
  have := v.isLt
  omega

theorem store64_out {x : Word} (out : ¬ (x - a).toNat < 8) : store64 m a v x = m x := if_neg out

end

/-! ## Pushes -/

/-- The bytes of the `n` words below `sp`. -/
def Below (sp : Word) (n : Nat) (x : Word) : Prop := 0 < (sp - x).toNat ∧ (sp - x).toNat ≤ 8 * n

theorem push_outside (s : Stack) (v x : Word) (out : ¬ Below s.sp 1 x) : (s.push v).mem x = s.mem x := by
  apply store64_out
  unfold Below at out
  bv_omega

theorem pushes_sp (s : Stack) (vs : List Word) : (s.pushes vs).sp = s.sp - BitVec.ofNat 64 (8 * vs.length) := by
  induction vs generalizing s with
  | nil => simp [Stack.pushes]
  | cons v vs ih =>
    have rest := ih (s.push v)
    unfold Stack.pushes at *
    rw [List.foldl_cons, rest, List.length_cons, Stack.push]
    dsimp only
    bv_omega

theorem pushes_outside {s : Stack} {vs : List Word} (fits : 8 * vs.length < 2 ^ 64) {x : Word}
    (out : ¬ Below s.sp vs.length x) : (s.pushes vs).mem x = s.mem x := by
  induction vs generalizing s with
  | nil => rfl
  | cons v vs ih =>
    rw [List.length_cons] at fits out
    have rest := @ih (s.push v) (by omega) (by
      unfold Below Stack.push at *
      dsimp only
      bv_omega)
    have first := push_outside s v x (by
      unfold Below at *
      bv_omega)
    exact rest.trans first

theorem holds_append {m : WordMem} {a : Word} {xs ys : List Word} :
    Holds m a (xs ++ ys) ↔ Holds m a xs ∧ Holds m (a + BitVec.ofNat 64 (8 * xs.length)) ys := by
  induction xs generalizing a with
  | nil => simp [Holds]
  | cons x xs ih =>
    have step : a + 8 + BitVec.ofNat 64 (8 * xs.length) = a + BitVec.ofNat 64 (8 * (x :: xs).length) := by
      rw [List.length_cons]
      bv_omega
    simp only [List.cons_append, Holds, ih, step, and_assoc]

/-- **Pushed words** lie above the stack pointer, the last one first. -/
theorem pushes_holds {s : Stack} {vs : List Word} (fits : 8 * vs.length < 2 ^ 64) :
    Holds (s.pushes vs).mem (s.pushes vs).sp vs.reverse := by
  induction vs generalizing s with
  | nil => trivial
  | cons v vs ih =>
    rw [List.length_cons] at fits
    have rest := @ih (s.push v) (by omega)
    rw [List.reverse_cons, holds_append]
    constructor
    · exact rest
    · have top : (s.pushes (v :: vs)).sp + BitVec.ofNat 64 (8 * vs.reverse.length) = s.sp - 8 := by
        rw [pushes_sp, List.length_reverse, List.length_cons]
        bv_omega
      rw [top]
      constructor
      · have kept : load64 ((s.push v).pushes vs).mem (s.sp - 8) = load64 (s.push v).mem (s.sp - 8) := by
          apply load64_congr
          intro i hi
          apply pushes_outside (by omega)
          unfold Below Stack.push
          dsimp only
          bv_omega
        exact kept.trans load64_store64_same
      · trivial

/-- Words apart from what changed are still there. -/
theorem Holds.congr {m m' : WordMem} {a : Word} {ws : List Word} (h : Holds m a ws)
    (same : ∀ i, i < 8 * ws.length → m' (a + BitVec.ofNat 64 i) = m (a + BitVec.ofNat 64 i)) : Holds m' a ws := by
  induction ws generalizing a with
  | nil => trivial
  | cons w ws ih =>
    rw [List.length_cons] at same
    constructor
    · rw [load64_congr fun i hi => same i (by omega)]
      exact h.1
    · apply ih h.2
      intro i hi
      have next := same (8 + i) (by omega)
      rw [show a + 8 + BitVec.ofNat 64 i = a + BitVec.ofNat 64 (8 + i) by bv_omega]
      exact next

end Lib
