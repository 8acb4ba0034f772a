import Mathlib.Algebra.BigOperators.Ring.Nat
import Mathlib.Algebra.Ring.GeomSum
import Mathlib.Data.Finset.Card
import Mathlib.Data.Nat.Count
import Mathlib.Data.Nat.GCD.Basic
import Mathlib.Data.Nat.ModEq
import Mathlib.Data.Nat.Prime.Basic
import Mathlib.Tactic.Ring

/-!
# Linear congruential sequences

A sequence `x ↦ a * x + c` modulo `2 ^ k`, where `a` is one more than a multiple of four and `c`
is odd. After `n` steps it has moved by an odd multiple of a geometric sum of `n` terms, and such
a sum has as many factors two as `n`; so the sequence meets every residue once in `2 ^ k` steps.
-/

namespace Netmux

/-! ## Geometric sums -/

section

variable {b : Nat}

/-- A geometric sum of odd numbers is as odd as the number of its terms. -/
theorem odd_geomSum_iff (hb : 4 ∣ b) (n : Nat) :
    Odd (∑ i ∈ Finset.range n, (b + 1) ^ i) ↔ Odd n := by
  have hbase : Odd (b + 1) :=
    (even_iff_two_dvd.mpr ((by decide : 2 ∣ 4).trans hb)).add_one
  have hall : (Finset.range n).filter (fun i => Odd ((b + 1) ^ i)) = Finset.range n :=
    Finset.filter_true_of_mem fun i _ => hbase.pow
  rw [Finset.odd_sum_iff_odd_card_odd, hall, Finset.card_range]

/-- The second half of the terms repeats the first. -/
theorem geomSum_two_mul (a m : Nat) : ∑ i ∈ Finset.range (2 * m), a ^ i =
    (∑ i ∈ Finset.range m, a ^ i) * (1 + a ^ m) := by
  rw [Nat.two_mul, Finset.sum_range_add, Nat.mul_add, Nat.mul_one, Finset.sum_mul]
  congr 1
  apply Finset.sum_congr rfl
  intro i _
  rw [Nat.pow_add, Nat.mul_comm]

/-- One and a power of the base make twice an odd number. -/
theorem exists_one_add_pow (hb : 4 ∣ b) (m : Nat) : ∃ q, 1 + (b + 1) ^ m = 2 * (2 * q + 1) := by
  have hdvd := Nat.sub_dvd_pow_sub_pow (b + 1) 1 m
  rw [Nat.add_sub_cancel, Nat.one_pow] at hdvd
  obtain ⟨q, hq⟩ := hb.trans hdvd
  have hpos : 0 < (b + 1) ^ m := Nat.pow_pos (Nat.succ_pos b)
  exact ⟨q, by omega⟩

/-- A geometric sum has the factors two of the number of its terms. -/
theorem two_pow_dvd_geomSum_iff (hb : 4 ∣ b) (k n : Nat) :
    2 ^ k ∣ ∑ i ∈ Finset.range n, (b + 1) ^ i ↔ 2 ^ k ∣ n := by
  induction k generalizing n with
  | zero => simp
  | succ k ih =>
    rcases Nat.even_or_odd' n with ⟨m, rfl | rfl⟩
    · obtain ⟨q, hq⟩ := exists_one_add_pow hb m
      have hodd : Nat.Coprime (2 ^ k) (2 * q + 1) :=
        Nat.Coprime.pow_left k (Nat.coprime_two_left.mpr (odd_two_mul_add_one q))
      rw [geomSum_two_mul, hq, Nat.mul_left_comm, Nat.pow_succ', Nat.mul_dvd_mul_iff_left two_pos,
        Nat.mul_dvd_mul_iff_left two_pos, Nat.Coprime.dvd_mul_right hodd, ih]
    · have hnot {n : Nat} (hn : Odd n) : ¬ 2 ^ (k + 1) ∣ n := by
        intro hdvd
        have htwo : 2 ∣ n := (dvd_pow_self 2 (Nat.succ_ne_zero k)).trans hdvd
        exact Nat.not_even_iff_odd.mpr hn (even_iff_two_dvd.mpr htwo)
      have hn := odd_two_mul_add_one m
      exact iff_of_false (hnot ((odd_geomSum_iff hb _).mpr hn)) (hnot hn)

end

/-! ## The sequence -/

/-- One step of the sequence. -/
def congruential (k a c x : Nat) : Nat := (a * x + c) % 2 ^ k

section

variable {k b c : Nat}

theorem iterate_congruential_lt {x : Nat} (hx : x < 2 ^ k) (n : Nat) :
    (congruential k (b + 1) c)^[n] x < 2 ^ k := by
  cases n with
  | zero => exact hx
  | succ n =>
    rw [Function.iterate_succ_apply']
    exact Nat.mod_lt _ (Nat.two_pow_pos k)

/-- How far the sequence has moved. -/
theorem iterate_congruential_modEq (k b c x n : Nat) :
    (congruential k (b + 1) c)^[n] x ≡
      x + (∑ i ∈ Finset.range n, (b + 1) ^ i) * (b * x + c) [MOD 2 ^ k] := by
  induction n with
  | zero => simp [Nat.ModEq]
  | succ n ih =>
    rw [Function.iterate_succ_apply', congruential]
    refine (Nat.mod_modEq _ _).trans (((ih.mul_left (b + 1)).add_right c).trans ?_)
    rw [Finset.sum_range_succ, ← geom_sum_mul_add b n]
    apply congrArg (· % 2 ^ k)
    ring

/-- The sequence comes back after the multiples of `2 ^ k` steps and after no other number. -/
theorem iterate_congruential_eq_iff (hb : 4 ∣ b) (hc : Odd c) {x : Nat} (hx : x < 2 ^ k)
    (n : Nat) : (congruential k (b + 1) c)^[n] x = x ↔ 2 ^ k ∣ n := by
  have hodd : Nat.Coprime (2 ^ k) (b * x + c) := by
    apply Nat.Coprime.pow_left
    apply Nat.coprime_two_left.mpr
    exact ((even_iff_two_dvd.mpr ((by decide : 2 ∣ 4).trans hb)).mul_right x).add_odd hc
  have hmoved := iterate_congruential_modEq k b c x n
  rw [← two_pow_dvd_geomSum_iff hb k n, ← Nat.Coprime.dvd_mul_right hodd]
  constructor
  · intro heq
    rw [heq] at hmoved
    exact (Nat.modEq_zero_iff_dvd.mp (Nat.ModEq.add_left_cancel' x hmoved.symm))
  · intro hdvd
    have hback := hmoved.trans ((Nat.modEq_zero_iff_dvd.mpr hdvd).add_left x)
    exact Nat.ModEq.eq_of_lt_of_lt hback (iterate_congruential_lt hx n) hx

/-- It meets every residue once in `2 ^ k` steps. -/
theorem existsUnique_iterate_congruential (hb : 4 ∣ b) (hc : Odd c) {x y : Nat} (hx : x < 2 ^ k)
    (hy : y < 2 ^ k) : ∃! n, n < 2 ^ k ∧ (congruential k (b + 1) c)^[n] x = y := by
  have hapart {m n : Nat} (hle : m ≤ n) (hn : n < 2 ^ k)
      (heq : (congruential k (b + 1) c)^[m] x = (congruential k (b + 1) c)^[n] x) : m = n := by
    obtain ⟨d, rfl⟩ := Nat.exists_eq_add_of_le hle
    rw [Nat.add_comm m, Function.iterate_add_apply] at heq
    have hdvd := (iterate_congruential_eq_iff hb hc (iterate_congruential_lt hx m) d).mp heq.symm
    have hd := Nat.eq_zero_of_dvd_of_lt hdvd (by omega)
    omega
  have hinj : Set.InjOn (fun n => (congruential k (b + 1) c)^[n] x) (Finset.range (2 ^ k)) := by
    intro m hm n hn heq
    rw [Finset.coe_range, Set.mem_Iio] at hm hn
    rcases Nat.le_total m n with hle | hle
    · exact hapart hle hn heq
    · exact (hapart hle hm heq.symm).symm
  have hmaps : Set.MapsTo (fun n => (congruential k (b + 1) c)^[n] x) (Finset.range (2 ^ k))
      (Finset.range (2 ^ k)) := by
    intro n _
    rw [Finset.coe_range, Set.mem_Iio]
    exact iterate_congruential_lt hx n
  have hy' : y ∈ (Finset.range (2 ^ k) : Set Nat) := by
    rw [Finset.coe_range, Set.mem_Iio]
    exact hy
  obtain ⟨n, hn, rfl⟩ := Finset.surjOn_of_injOn_of_card_le _ hmaps hinj le_rfl hy'
  rw [Finset.coe_range, Set.mem_Iio] at hn
  refine ⟨n, ⟨hn, rfl⟩, ?_⟩
  rintro m ⟨hm, heq⟩
  exact hinj (by rw [Finset.coe_range]; exact hm) (by rw [Finset.coe_range]; exact hn) heq

theorem count_iterate_congruential (hb : 4 ∣ b) (hc : Odd c) {x y : Nat} (hx : x < 2 ^ k)
    (hy : y < 2 ^ k) :
    Nat.count (fun n => (congruential k (b + 1) c)^[n] x = y) (2 ^ k) = 1 := by
  obtain ⟨n, ⟨hn, heq⟩, hunique⟩ := existsUnique_iterate_congruential hb hc hx hy
  rw [Nat.count_eq_card_filter_range, Finset.card_eq_one]
  refine ⟨n, Finset.ext fun m => ?_⟩
  rw [Finset.mem_filter, Finset.mem_range, Finset.mem_singleton]
  constructor
  · exact hunique m
  · rintro rfl
    exact ⟨hn, heq⟩

end

/-! ## Several sequences in turn -/

/-- Counting along whole turns is counting at each place of the turn. -/
theorem count_turns (p : Nat → Prop) [DecidablePred p] (w m : Nat) :
    Nat.count p (w * m) = ∑ r ∈ Finset.range w, Nat.count (fun q => p (w * q + r)) m := by
  induction m with
  | zero => simp
  | succ m ih =>
    have hturn : Nat.count (fun r => p (w * m + r)) w =
        ∑ r ∈ Finset.range w, if p (w * m + r) then 1 else 0 := by
      rw [Nat.count_eq_card_filter_range, Finset.card_filter]
    rw [Nat.mul_succ, Nat.count_add, ih, hturn, ← Finset.sum_add_distrib]
    apply Finset.sum_congr rfl
    intro r _
    rw [Nat.count_succ]

/-- Sequences that are advanced in turn meet every residue as often as there are sequences. -/
theorem count_congruential_turns {b c k w : Nat} (hb : 4 ∣ b) (hc : Odd c) {x : Nat → Nat}
    (hx : ∀ r < w, x r < 2 ^ k) {y : Nat} (hy : y < 2 ^ k) :
    Nat.count (fun n => (congruential k (b + 1) c)^[n / w] (x (n % w)) = y) (w * 2 ^ k) = w := by
  rw [count_turns]
  have hplace : ∀ r ∈ Finset.range w, Nat.count
      (fun q => (congruential k (b + 1) c)^[(w * q + r) / w] (x ((w * q + r) % w)) = y) (2 ^ k) =
        1 := by
    intro r hr
    have hr := Finset.mem_range.mp hr
    have hdiv (q : Nat) : (w * q + r) / w = q := by
      rw [Nat.mul_add_div (by omega), Nat.div_eq_of_lt hr, Nat.add_zero]
    have hmod (q : Nat) : (w * q + r) % w = r := by
      rw [Nat.mul_add_mod, Nat.mod_eq_of_lt hr]
    simp only [hdiv, hmod]
    exact count_iterate_congruential hb hc (hx r hr) hy
  rw [Finset.sum_congr rfl hplace, Finset.sum_const, Finset.card_range, nsmul_one, Nat.cast_id]

end Netmux
