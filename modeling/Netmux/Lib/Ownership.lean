import Mathlib.Data.Finset.Basic

/-!
# Owned handles

A resource manager hands out handles that are not in use. The handles are accounted for when
each one beyond a base has exactly one owner and every owned one is in use; giving a fresh handle
to an owner, who releases the one it had, keeps that.
-/

namespace Netmux

variable {ω δ : Type}

/-- The handles in use are those of the base and those owned, each by one owner. -/
structure Owned (base : Finset δ) (own : ω → Option δ) (used : Finset δ) : Prop where
  used_iff : ∀ x, x ∈ used ↔ x ∈ base ∨ ∃ w, own w = some x
  fresh : ∀ w x, own w = some x → x ∉ base
  unique : ∀ w w' x, own w = some x → own w' = some x → w = w'

/-- Without owners only the base is in use. -/
theorem Owned.unowned (base : Finset δ) : Owned base (fun _ : ω => none) base :=
  ⟨by simp, by simp, by simp⟩

variable [DecidableEq ω] [DecidableEq δ]

/-- The handles in use once an owner has released the one it had. -/
def releasing (used : Finset δ) (old : Option δ) : Finset δ := (old.map used.erase).getD used

theorem mem_releasing {used : Finset δ} {old : Option δ} {x : δ} :
    x ∈ releasing used old ↔ x ∈ used ∧ old ≠ some x := by
  cases old with
  | none => simp [releasing]
  | some y => simp [releasing, and_comm, eq_comm]

namespace Owned

variable {base used : Finset δ} {own : ω → Option δ}

/-- A fresh handle goes to an owner, who releases the one it had. -/
theorem give (h : Owned base own used) (w : ω) {x : δ} (hx : x ∉ used) :
    Owned base (Function.update own w (some x)) (releasing (insert x used) (own w)) := by
  have howned {w' : ω} {y : δ} (hy : Function.update own w (some x) w' = some y) :
      (w' = w ∧ y = x) ∨ (w' ≠ w ∧ own w' = some y) := by
    by_cases hw : w' = w
    · subst hw
      rw [Function.update_self] at hy
      exact .inl ⟨rfl, (Option.some.inj hy).symm⟩
    · rw [Function.update_of_ne hw] at hy
      exact .inr ⟨hw, hy⟩
  have hused {w' : ω} {y : δ} (hy : own w' = some y) : y ∈ used :=
    (h.used_iff y).mpr (.inr ⟨w', hy⟩)
  refine ⟨?_, ?_, ?_⟩
  · intro y
    rw [mem_releasing, Finset.mem_insert, h.used_iff]
    constructor
    · rintro ⟨rfl | hbase | ⟨w', hw'⟩, hold⟩
      · exact .inr ⟨w, Function.update_self w _ own⟩
      · exact .inl hbase
      · refine .inr ⟨w', ?_⟩
        rw [Function.update_of_ne]
        · exact hw'
        · rintro rfl
          exact hold hw'
    · rintro (hbase | ⟨w', hw'⟩)
      · exact ⟨.inr (.inl hbase), fun hold => h.fresh w y hold hbase⟩
      · rcases howned hw' with ⟨-, rfl⟩ | ⟨hne, hy⟩
        · exact ⟨.inl rfl, fun hold => hx (hused hold)⟩
        · exact ⟨.inr (.inr ⟨w', hy⟩), fun hold => hne (h.unique w' w y hy hold)⟩
  · intro w' y hy hbase
    rcases howned hy with ⟨-, rfl⟩ | ⟨-, hy⟩
    · exact hx ((h.used_iff y).mpr (.inl hbase))
    · exact h.fresh w' y hy hbase
  · intro w' w'' y hy hy'
    rcases howned hy with ⟨rfl, rfl⟩ | ⟨-, hown⟩
    · rcases howned hy' with ⟨rfl, -⟩ | ⟨-, hown'⟩
      · rfl
      · exact absurd (hused hown') hx
    · rcases howned hy' with ⟨rfl, rfl⟩ | ⟨-, hown'⟩
      · exact absurd (hused hown) hx
      · exact h.unique w' w'' y hown hown'

end Owned

end Netmux
