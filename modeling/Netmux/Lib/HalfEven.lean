import Mathlib.Algebra.Order.Floor.Semiring
import Mathlib.Algebra.Order.Field.Basic
import Mathlib.Tactic.Linarith

/-!
# Rounding to the nearest natural number

Ties go to the even neighbour. Rounding is monotone, keeps natural numbers, and is off by a half
at most.
-/

namespace Netmux

variable {K : Type} [Field K] [LinearOrder K] [FloorSemiring K]

/-- The natural number nearest to `q`. -/
def halfEven (q : K) : Nat :=
  if q - ⌊q⌋₊ < 1 / 2 ∨ q - ⌊q⌋₊ = 1 / 2 ∧ ⌊q⌋₊ % 2 = 0 then ⌊q⌋₊ else ⌊q⌋₊ + 1

theorem floor_le_halfEven (q : K) : ⌊q⌋₊ ≤ halfEven q := by
  rw [halfEven]
  split
  · exact Nat.le_refl _
  · exact Nat.le_succ _

theorem halfEven_le_floor_succ (q : K) : halfEven q ≤ ⌊q⌋₊ + 1 := by
  rw [halfEven]
  split
  · exact Nat.le_succ _
  · exact Nat.le_refl _

variable [IsStrictOrderedRing K]

/-- Rounding is off by a half at most. -/
theorem abs_halfEven_sub_le {q : K} (h : 0 ≤ q) : |(halfEven q : K) - q| ≤ 1 / 2 := by
  have hle := Nat.floor_le h
  have hlt := Nat.lt_floor_add_one q
  rw [halfEven, abs_le]
  split
  · rename_i hdown
    have hhalf : q - ⌊q⌋₊ ≤ 1 / 2 := hdown.elim le_of_lt fun heven => heven.1.le
    constructor
    · linarith
    · linarith
  · rename_i hup
    have hhalf : 1 / 2 ≤ q - ⌊q⌋₊ := not_lt.mp fun hlow => hup (.inl hlow)
    rw [Nat.cast_succ]
    constructor
    · linarith
    · linarith

/-- It keeps the order. -/
theorem halfEven_mono {p q : K} (h : p ≤ q) : halfEven p ≤ halfEven q := by
  have hfloor := Nat.floor_mono h
  rcases Nat.lt_or_eq_of_le hfloor with hlt | heq
  · -- a whole number lies in between
    exact (halfEven_le_floor_succ p).trans (Nat.le_trans hlt (floor_le_halfEven q))
  · rw [halfEven, halfEven, heq]
    have hfrac : p - (⌊q⌋₊ : K) ≤ q - ⌊q⌋₊ := sub_le_sub_right h _
    split
    · split
      · exact Nat.le_refl _
      · exact Nat.le_succ _
    · rename_i hup
      rw [if_neg]
      rintro (hlow | ⟨hhalf, heven⟩)
      · exact hup (.inl (hfrac.trans_lt hlow))
      · rcases (hfrac.trans hhalf.le).lt_or_eq with hlow | hsame
        · exact hup (.inl hlow)
        · exact hup (.inr ⟨hsame, heven⟩)

/-- It keeps the natural numbers. -/
theorem halfEven_natCast (n : Nat) : halfEven (n : K) = n := by
  rw [halfEven, Nat.floor_natCast, if_pos]
  rw [sub_self]
  exact .inl (by norm_num)

end Netmux
