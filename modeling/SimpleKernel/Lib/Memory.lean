import Mathlib.Algebra.Group.Nat.Defs
import Mathlib.Data.Nat.Basic

/-!
# Byte-addressed memory

A memory is a total byte function. Words are little endian: `loadLE m a n` reads `n`
bytes at `a`, `storeLE m a n v` writes the low `n` bytes of `v`. A load sees a store
in full (`loadLE_storeLE_same`) or not at all (`loadLE_storeLE_apart`); everything else
about a store is that it changes its own range only.
-/

namespace Lib
set_option autoImplicit false

abbrev Mem := Nat → BitVec 8

/-- The value of the `n` bytes at `a`, least significant first. -/
def loadLE (m : Mem) (a : Nat) : Nat → Nat
  | 0 => 0
  | n + 1 => (m a).toNat + 256 * loadLE m (a + 1) n

/-- One byte store. -/
def storeByte (m : Mem) (a : Nat) (v : BitVec 8) : Mem := fun x => if x = a then v else m x

/-- The low `n` bytes of `v` stored at `a`. -/
def storeLE (m : Mem) (a n v : Nat) : Mem := fun x =>
  if a ≤ x ∧ x < a + n then BitVec.ofNat 8 (v / 256 ^ (x - a)) else m x

/-- `n` copies of `v` at `a`. -/
def fill (m : Mem) (a n : Nat) (v : BitVec 8) : Mem := fun x => if a ≤ x ∧ x < a + n then v else m x

/-- The memories agree outside the addresses of `P`. -/
def SameOutside (P : Nat → Prop) (m m' : Mem) : Prop := ∀ x, ¬ P x → m' x = m x

theorem SameOutside.refl (P : Nat → Prop) (m : Mem) : SameOutside P m m := fun _ _ => rfl

theorem SameOutside.trans {P : Nat → Prop} {m m' m'' : Mem} (h : SameOutside P m m')
    (h' : SameOutside P m' m'') : SameOutside P m m'' :=
  fun x hx => (h' x hx).trans (h x hx)

theorem SameOutside.mono {P Q : Nat → Prop} {m m' : Mem} (h : SameOutside P m m')
    (sub : ∀ x, P x → Q x) : SameOutside Q m m' :=
  fun x hx => h x fun hp => hx (sub x hp)

theorem storeLE_out {m : Mem} {a n v x : Nat} (h : ¬ (a ≤ x ∧ x < a + n)) : storeLE m a n v x = m x :=
  if_neg h

theorem storeByte_out {m : Mem} {a x : Nat} {v : BitVec 8} (h : x ≠ a) : storeByte m a v x = m x :=
  if_neg h

@[simp] theorem storeByte_self (m : Mem) (a : Nat) (v : BitVec 8) : storeByte m a v a = v := if_pos rfl

theorem storeLE_same_outside (m : Mem) (a n v : Nat) :
    SameOutside (fun x => a ≤ x ∧ x < a + n) m (storeLE m a n v) := fun _ hx => storeLE_out hx

theorem storeByte_same_outside (m : Mem) (a : Nat) (v : BitVec 8) :
    SameOutside (fun x => x = a) m (storeByte m a v) := fun _ hx => storeByte_out hx

theorem loadLE_congr {m m' : Mem} {a n : Nat} (h : ∀ x, a ≤ x → x < a + n → m' x = m x) :
    loadLE m' a n = loadLE m a n := by
  induction n generalizing a with
  | zero => rfl
  | succ n ih =>
    have tail : loadLE m' (a + 1) n = loadLE m (a + 1) n :=
      ih fun x lo hi => h x (by omega) (by omega)
    simp only [loadLE, h a (by omega) (by omega), tail]

/-- A load apart from what changed keeps its value. -/
theorem SameOutside.loadLE_eq {P : Nat → Prop} {m m' : Mem} (h : SameOutside P m m') {a n : Nat}
    (apart : ∀ x, a ≤ x → x < a + n → ¬ P x) : loadLE m' a n = loadLE m a n :=
  loadLE_congr fun x lo hi => h x (apart x lo hi)

/-- A load in two parts. -/
theorem loadLE_add (m : Mem) (a n k : Nat) : loadLE m a (n + k) = loadLE m a n + 256 ^ n * loadLE m (a + n) k := by
  induction n generalizing a with
  | zero => simp [loadLE]
  | succ n ih =>
    rw [Nat.add_right_comm n 1 k, loadLE, ih (a + 1), loadLE, Nat.pow_succ', Nat.add_right_comm a 1 n, Nat.mul_add,
      Nat.mul_assoc]
    simp only [Nat.add_assoc]

theorem loadLE_lt (m : Mem) (a n : Nat) : loadLE m a n < 256 ^ n := by
  induction n generalizing a with
  | zero => simp [loadLE]
  | succ n ih =>
    have tail := ih (a + 1)
    have byte := (m a).isLt
    rw [Nat.pow_succ]
    simp only [loadLE]
    omega

theorem loadLE_eq_zero {m : Mem} {a n : Nat} : loadLE m a n = 0 ↔ ∀ x, a ≤ x → x < a + n → m x = 0 := by
  induction n generalizing a with
  | zero => exact iff_of_true rfl fun x lo hi => by omega
  | succ n ih =>
    have first : (m a).toNat = 0 ↔ m a = 0 := BitVec.toNat_inj (y := 0)
    have both : loadLE m a (n + 1) = 0 ↔ (m a).toNat = 0 ∧ loadLE m (a + 1) n = 0 := by
      rw [loadLE]
      omega
    rw [both, first, ih]
    constructor
    · intro zero x lo hi
      by_cases here : x = a
      · rw [here]
        exact zero.1
      · exact zero.2 x (by omega) (by omega)
    · intro zero
      exact ⟨zero a (by omega) (by omega), fun x lo hi => zero x (by omega) (by omega)⟩

/-- The bytes of `v`, read back one by one. -/
theorem loadLE_bytes {m : Mem} {a n v : Nat}
    (h : ∀ i, i < n → m (a + i) = BitVec.ofNat 8 (v / 256 ^ i)) : loadLE m a n = v % 256 ^ n := by
  induction n generalizing a v with
  | zero => simp [loadLE, Nat.mod_one]
  | succ n ih =>
    have head := h 0 (by omega)
    have tail : loadLE m (a + 1) n = v / 256 % 256 ^ n := by
      refine ih fun i hi => ?_
      rw [Nat.add_assoc, Nat.add_comm 1 i, h (i + 1) (by omega), Nat.pow_succ', Nat.div_div_eq_div_mul]
    simp only [Nat.add_zero, Nat.pow_zero, Nat.div_one] at head
    have split : v % 256 ^ (n + 1) = v % 256 + 256 * (v / 256 % 256 ^ n) := by
      rw [Nat.pow_succ', Nat.mod_mul]
    simp only [loadLE, head, tail, BitVec.toNat_ofNat, split]

theorem loadLE_storeLE_same (m : Mem) (a n v : Nat) : loadLE (storeLE m a n v) a n = v % 256 ^ n :=
  loadLE_bytes fun i hi => by simp [storeLE, hi]

theorem loadLE_storeLE_apart {m : Mem} {a n b k v : Nat} (h : a + n ≤ b ∨ b + k ≤ a) :
    loadLE (storeLE m b k v) a n = loadLE m a n :=
  loadLE_congr fun x lo hi => storeLE_out (by omega)

theorem loadLE_storeByte_apart {m : Mem} {a n b : Nat} {v : BitVec 8} (h : a + n ≤ b ∨ b + 1 ≤ a) :
    loadLE (storeByte m b v) a n = loadLE m a n :=
  loadLE_congr fun x lo hi => storeByte_out (by omega)

theorem fill_same_outside (m : Mem) (a n : Nat) (v : BitVec 8) :
    SameOutside (fun x => a ≤ x ∧ x < a + n) m (fill m a n v) := fun _ hx => if_neg hx

/-- A load from a filled range of zeros. -/
theorem loadLE_fill_zero {m : Mem} {a n b k : Nat} (lo : b ≤ a) (hi : a + n ≤ b + k) : loadLE (fill m b k 0) a n = 0 :=
  loadLE_eq_zero.2 fun _ lo' hi' => if_pos ⟨by omega, by omega⟩

theorem loadLE_fill_apart {m : Mem} {a n b k : Nat} {v : BitVec 8} (h : a + n ≤ b ∨ b + k ≤ a) :
    loadLE (fill m b k v) a n = loadLE m a n :=
  loadLE_congr fun x lo hi => fill_same_outside m b k v x (by omega)

theorem fill_in {m : Mem} {a n x : Nat} {v : BitVec 8} (h : a ≤ x ∧ x < a + n) : fill m a n v x = v := if_pos h

theorem fill_out {m : Mem} {a n x : Nat} {v : BitVec 8} (h : ¬ (a ≤ x ∧ x < a + n)) :
    fill m a n v x = m x := if_neg h

end Lib
