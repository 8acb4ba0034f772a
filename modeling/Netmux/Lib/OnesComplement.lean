import Netmux.Lib.Bytes

/-!
# One's-complement sums

`onesSum n` is the 16-bit one's-complement value of an integer sum `n`: the
representative of `n` modulo 65535 in `1..65535`, and `0` for `0` alone. A byte
string that carries a checksum verifies when this value of its word sum is `65535`.
-/

namespace Netmux

/-- The 16-bit one's-complement value of an integer sum. -/
def onesSum (n : Nat) : Nat := if n = 0 then 0 else (n - 1) % 65535 + 1

@[simp] theorem onesSum_zero : onesSum 0 = 0 := rfl

theorem onesSum_of_pos {n : Nat} (h : 0 < n) : onesSum n = (n - 1) % 65535 + 1 := by
  rw [onesSum, if_neg (by omega)]

theorem onesSum_le (n : Nat) : onesSum n ≤ 65535 := by
  unfold onesSum
  split <;> omega

theorem onesSum_pos {n : Nat} (h : 0 < n) : 0 < onesSum n := by
  rw [onesSum_of_pos h]
  omega

/-- Sums that fit a word are their own value. -/
theorem onesSum_of_lt {n : Nat} (h : n < 65536) : onesSum n = n := by
  unfold onesSum
  split <;> omega

/-- Adding the carries back into the low word keeps the value. -/
theorem onesSum_carry (n : Nat) : onesSum (n % 65536 + n / 65536) = onesSum n := by
  unfold onesSum
  split <;> split <;> omega

/-- The value is the residue modulo 65535 up to the two forms of zero. -/
theorem onesSum_mod (n : Nat) : onesSum n % 65535 = n % 65535 := by
  unfold onesSum
  split <;> omega

/-- Positive sums have one value exactly when they agree modulo 65535. -/
theorem onesSum_eq_iff {m n : Nat} (hm : 0 < m) (hn : 0 < n) :
    onesSum m = onesSum n ↔ m % 65535 = n % 65535 := by
  rw [onesSum_of_pos hm, onesSum_of_pos hn]
  omega

/-- A sum verifies exactly when it is a positive multiple of 65535. -/
theorem onesSum_eq_max_iff {n : Nat} : onesSum n = 65535 ↔ 0 < n ∧ n % 65535 = 0 := by
  unfold onesSum
  split <;> omega

/-- Storing the complement of a sum beside its terms makes the whole verify. -/
theorem onesSum_add_complement (n : Nat) : onesSum (n + (65535 - onesSum n)) = 65535 := by
  have hle := onesSum_le n
  have hmod := onesSum_mod n
  rw [onesSum_eq_max_iff]
  rcases Nat.eq_zero_or_pos n with rfl | hn
  · simp
  · exact ⟨by omega, by omega⟩

/-- The complement is the only checksum below 65535 that makes a positive sum verify. -/
theorem eq_complement_of_onesSum {n c : Nat} (hn : 0 < n) (hc : c < 65535)
    (h : onesSum (n + c) = 65535) : c = 65535 - onesSum n := by
  have hmod := (onesSum_eq_max_iff.mp h).2
  rw [onesSum_of_pos hn]
  omega

/-- A byte string whose words, checksum included, have the one's-complement sum `0xffff`. -/
def Verifies (data : List UInt8) : Prop := onesSum (wordSum data) = 65535

instance (data : List UInt8) : Decidable (Verifies data) :=
  inferInstanceAs (Decidable (_ = _))

end Netmux
