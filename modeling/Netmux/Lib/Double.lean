import Mathlib.Algebra.Group.Nat.Defs
import Mathlib.Data.Nat.Log
import Mathlib.Data.Nat.Bits

/-!
# Integers in double precision

The double nearest to a natural number, ties going to the even significand. Below 2^53
every number is its own double.
-/

namespace Netmux

/-- Round away the lowest `bits` bits of `n`, to nearest with ties to even. -/
def roundBits (bits n : Nat) : Nat :=
  let q := n / 2 ^ bits
  let r := n % 2 ^ bits
  if 2 * r < 2 ^ bits ∨ 2 * r = 2 ^ bits ∧ q % 2 = 0 then q * 2 ^ bits else (q + 1) * 2 ^ bits

/-- The double nearest to `n`; a double holds 53 significant bits. -/
def toDouble (n : Nat) : Nat := if n < 2 ^ 53 then n else roundBits (Nat.log2 n - 52) n

theorem toDouble_of_lt {n : Nat} (h : n < 2 ^ 53) : toDouble n = n := by
  rw [toDouble, if_pos h]

/-- Rounding never goes below the significand that is kept. -/
theorem le_roundBits (bits n : Nat) : n / 2 ^ bits * 2 ^ bits ≤ roundBits bits n := by
  rw [roundBits]
  split
  · exact Nat.le_refl _
  · exact Nat.mul_le_mul_right _ (Nat.le_succ _)

/-- A double is no smaller than its number below 2^53, and at least 2^53 from there on. -/
theorem min_le_toDouble (n : Nat) : min n (2 ^ 53) ≤ toDouble n := by
  rw [toDouble]
  split
  · exact Nat.min_le_left _ _
  · rename_i h
    have hlog : 53 ≤ Nat.log2 n := (Nat.le_log2 (by omega)).mpr (by omega)
    have hself : 2 ^ Nat.log2 n ≤ n := Nat.log2_self_le (by omega)
    have hexp : Nat.log2 n - 52 + 52 = Nat.log2 n := by omega
    have hquot : 2 ^ 52 ≤ n / 2 ^ (Nat.log2 n - 52) := by
      rw [Nat.le_div_iff_mul_le (Nat.two_pow_pos _), Nat.mul_comm, ← Nat.pow_add, hexp]
      exact hself
    have hunit : 2 ^ 1 ≤ 2 ^ (Nat.log2 n - 52) := Nat.pow_le_pow_right (by decide) (by omega)
    have hround := le_roundBits (Nat.log2 n - 52) n
    have hprod := Nat.mul_le_mul hquot hunit
    omega

end Netmux
