import SimpleKernel.Kstring
import SimpleKernel.Lib.Stack

/-!
# `kmemcpy` and `kmemmove` on 64-bit pointers

The loops over the memory of the machine, where `out[i]` is the byte at `out + i` and the sum wraps.
While the ranges do not wrap such a loop is the loop of `Kstring` over an array of all addresses
(`flat_kmemmove`), so the closed forms of those hold here: `kmemmove` copies what was there before,
however the ranges overlap (`kmemmove_moved`).
-/

namespace SimpleKernel.Kstring.Pointers
set_option autoImplicit false
open Lib

/-- `out[i] = in[i]`. -/
def copyByte (m : WordMem) (out input : Word) (i : Nat) : WordMem := fun x =>
  if x = out + BitVec.ofNat 64 i then m (input + BitVec.ofNat 64 i) else m x

def copyUp (m : WordMem) (out input : Word) (n : Nat) : WordMem :=
  (List.range n).foldl (fun m i => copyByte m out input i) m

/-- The loop of `kmemmove`: `i` runs down from `n`. -/
def copyDown (m : WordMem) (out input : Word) : Nat → WordMem
  | 0 => m
  | i + 1 => copyDown (copyByte m out input i) out input i

/-- The pointer returned and the memory. -/
def kmemcpy (m : WordMem) (dst src n : Word) : Word × WordMem := (dst, copyUp m dst src n.toNat)

def kmemmove (m : WordMem) (dst src n : Word) : Word × WordMem :=
  if dst = src ∨ n = 0 then (dst, m)
  else if dst < src then kmemcpy m dst src n
  else (dst, copyDown m dst src n.toNat)

/-- The byte at `x` is one of the `n` bytes from `p` on. -/
def InRange (p n x : Word) : Prop := p ≤ x ∧ x.toNat < p.toNat + n.toNat

/-- From `m` to `m'` the `n` bytes at `src` have been copied to `dst`, all at once. -/
structure Moved (m m' : WordMem) (dst src n : Word) : Prop where
  copied : ∀ i, i < n → m' (dst + i) = m (src + i)
  kept : ∀ x, ¬ InRange dst n x → m' x = m x

/-- The memory is the array of all addresses. -/
def Flat (m : WordMem) (a : Nat → BitVec 8) : Prop := ∀ x, m x = a x.toNat

section

variable {m : WordMem} {a : Nat → BitVec 8} {dst src n p : Word} {i k : Nat}

theorem add_ofNat_toNat (inside : p.toNat + i < 2 ^ 64) : (p + BitVec.ofNat 64 i).toNat = p.toNat + i := by
  rw [BitVec.toNat_add, BitVec.toNat_ofNat, Nat.add_mod_mod, Nat.mod_eq_of_lt inside]

theorem flat_array (m : WordMem) : Flat m fun x => m (BitVec.ofNat 64 x) := by
  intro x
  have place : BitVec.ofNat 64 x.toNat = x := by rw [BitVec.ofNat_toNat, BitVec.setWidth_eq]
  dsimp only
  rw [place]

/-! ## Array and memory -/

theorem Flat.copyByte (h : Flat m a) (hd : dst.toNat + i < 2 ^ 64) (hs : src.toNat + i < 2 ^ 64) :
    Flat (copyByte m dst src i) (setCell a (dst.toNat + i) (a (src.toNat + i))) := by
  intro x
  have here : x = dst + BitVec.ofNat 64 i ↔ x.toNat = dst.toNat + i := by
    rw [← BitVec.toNat_inj, add_ofNat_toNat hd]
  unfold Pointers.copyByte setCell
  apply if_congr here
  · rw [h, add_ofNat_toNat hs]
  · exact h x

theorem Flat.copyUp (h : Flat m a) (hd : dst.toNat + k ≤ 2 ^ 64) (hs : src.toNat + k ≤ 2 ^ 64) :
    Flat (copyUp m dst src k) (Kstring.kmemcpy a dst.toNat src.toNat k) := by
  induction k with
  | zero => exact h
  | succ k ih =>
    rw [kmemcpy_succ, Pointers.copyUp, List.range_succ, List.foldl_append]
    exact (ih (by omega) (by omega)).copyByte (by omega) (by omega)

theorem Flat.copyDown (h : Flat m a) (hd : dst.toNat + k ≤ 2 ^ 64) (hs : src.toNat + k ≤ 2 ^ 64) :
    Flat (copyDown m dst src k) (Kstring.copyDown a dst.toNat src.toNat k) := by
  induction k generalizing m a with
  | zero => exact h
  | succ k ih =>
    rw [Pointers.copyDown, Kstring.copyDown]
    exact ih (h.copyByte (by omega) (by omega)) (by omega) (by omega)

/-- **`kmemmove` is `kmemmove` of the array.** -/
theorem flat_kmemmove (h : Flat m a) (hd : dst.toNat + n.toNat ≤ 2 ^ 64) (hs : src.toNat + n.toNat ≤ 2 ^ 64) :
    Flat (kmemmove m dst src n).2 (Kstring.kmemmove a dst.toNat src.toNat n.toNat) := by
  have same : dst = src ∨ n = 0 ↔ dst.toNat = src.toNat ∨ n.toNat = 0 := by
    rw [← BitVec.toNat_inj, ← BitVec.toNat_inj]
    rfl
  unfold kmemmove Kstring.kmemmove
  by_cases nothing : dst = src ∨ n = 0
  · rw [if_pos nothing, if_pos (same.1 nothing)]
    exact h
  · rw [if_neg nothing, if_neg (mt same.2 nothing)]
    by_cases below : dst < src
    · rw [if_pos below, if_pos (BitVec.lt_def.1 below)]
      exact h.copyUp hd hs
    · rw [if_neg below, if_neg (mt BitVec.lt_def.2 below)]
      exact h.copyDown hd hs

/-! ## What the two do -/

/-- **`kmemmove` copies the old bytes**, whatever the overlap. -/
theorem kmemmove_moved (m : WordMem) (hd : dst.toNat + n.toNat ≤ 2 ^ 64) (hs : src.toNat + n.toNat ≤ 2 ^ 64) :
    Moved m (kmemmove m dst src n).2 dst src n := by
  have flat := flat_kmemmove (flat_array m) hd hs
  constructor
  · intro i small
    have inside := BitVec.lt_def.1 small
    have place : (dst + i).toNat = dst.toNat + i.toNat := by bv_omega
    have source : src + i = BitVec.ofNat 64 (src.toNat + (dst.toNat + i.toNat - dst.toNat)) := by bv_omega
    rw [flat, kmemmove_get, place, if_pos (by omega), source]
  · intro x outside
    rw [flat, kmemmove_get]
    exact (if_neg outside).trans (flat_array m x).symm

/-- `abcdef` at an address, as in the unit test. -/
def unitTestData : WordMem := fun x => [0x61, 0x62, 0x63, 0x64, 0x65, 0x66].getD (x - 0x1000).toNat 0

example : (List.range 8).map (fun i => (kmemmove unitTestData 0x1002 0x1000 4).2 (0x1000 + BitVec.ofNat 64 i)) =
    [0x61, 0x62, 0x61, 0x62, 0x63, 0x64, 0, 0] := by decide

/-- **`kmemcpy` does the same** when it does not overwrite what it has not read. -/
theorem kmemcpy_eq_kmemmove (m : WordMem) (hd : dst.toNat + n.toNat ≤ 2 ^ 64) (hs : src.toNat + n.toNat ≤ 2 ^ 64)
    (apart : dst ≤ src ∨ ∀ x, ¬ (InRange dst n x ∧ InRange src n x)) : kmemcpy m dst src n = kmemmove m dst src n := by
  have order : dst.toNat ≤ src.toNat ∨ src.toNat + n.toNat ≤ dst.toNat := by
    rcases apart with below | disjoint
    · exact .inl (BitVec.le_def.1 below)
    · by_contra overlap
      obtain ⟨above, inside⟩ := not_or.1 overlap
      -- the first byte of the destination is one of the source
      apply disjoint dst
      exact ⟨⟨BitVec.le_refl dst, by omega⟩, BitVec.le_def.2 (by omega), by omega⟩
  apply Prod.ext
  · unfold kmemmove
    split_ifs <;> rfl
  · funext x
    rw [flat_kmemmove (flat_array m) hd hs x, kmemmove_get]
    exact ((flat_array m).copyUp hd hs x).trans (kmemcpy_get order x.toNat)

end

end SimpleKernel.Kstring.Pointers
