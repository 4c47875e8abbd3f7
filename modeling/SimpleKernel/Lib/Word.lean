import Mathlib.Data.Nat.Bitwise

/-!
# Unsigned 64-bit words as naturals

A word is a natural below `2 ^ 64`; every operation that can wrap is followed by
`u64`. Rounding by a mask (`x & ~(2^k - 1)`) is `land_not64_mask`: integer division and
multiplication by the power of two.
-/

namespace Lib
set_option autoImplicit false

/-- The value of an expression of type `u64`. -/
def u64 (n : Nat) : Nat := n % 2 ^ 64

/-- The value of a 32-bit register. -/
def u32 (n : Nat) : Nat := n % 2 ^ 32

/-- `~n` at 64 bits. -/
def not64 (n : Nat) : Nat := 2 ^ 64 - 1 - n

/-- `a - b` at 64 bits. -/
def sub64 (a b : Nat) : Nat := u64 (a + 2 ^ 64 - b)

theorem u64_of_lt {n : Nat} (h : n < 2 ^ 64) : u64 n = n := Nat.mod_eq_of_lt h

theorem u32_of_lt {n : Nat} (h : n < 2 ^ 32) : u32 n = n := Nat.mod_eq_of_lt h

theorem u64_lt (n : Nat) : u64 n < 2 ^ 64 := Nat.mod_lt _ (by decide)

theorem u64_le (n : Nat) : u64 n ≤ n := Nat.mod_le _ _

theorem sub64_of_le {a b : Nat} (h : b ≤ a) (ha : a < 2 ^ 64) : sub64 a b = a - b := by
  unfold sub64 u64
  omega

/-- Clearing the low `k` bits. -/
theorem land_not64_mask {n k : Nat} (hk : k ≤ 64) : n &&& not64 (2 ^ k - 1) = u64 n / 2 ^ k * 2 ^ k := by
  have pos : 0 < 2 ^ k := Nat.two_pow_pos k
  have le : 2 ^ k ≤ 2 ^ 64 := Nat.pow_le_pow_right (by decide) hk
  have mask : not64 (2 ^ k - 1) = 2 ^ 64 - (2 ^ k - 1 + 1) := by unfold not64; omega
  apply Nat.eq_of_testBit_eq
  intro i
  rw [Nat.testBit_and, mask, Nat.testBit_two_pow_sub_succ (by omega), Nat.testBit_two_pow_sub_one,
    Nat.testBit_mul_two_pow, u64]
  by_cases low : i < k
  · simp [low]
  · have high : k ≤ i := Nat.le_of_not_lt low
    rw [Nat.testBit_div_two_pow, Nat.sub_add_cancel high, Nat.testBit_mod_two_pow]
    simp [low, high, Bool.and_comm]

end Lib
