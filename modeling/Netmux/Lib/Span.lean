import Mathlib.Data.List.Basic

/-!
# Longest spans

A span is a stretch of a list that repeats one value. A scan from the left keeps two: the
longest that ends where it stands, and the first of the longest that it has passed. One
rule says how the former moves on and one how the latter does.
-/

namespace Netmux

variable {α : Type} {a : α} {xs : List α}

/-- The `n` entries from `i` on are all `a`. -/
def Span (a : α) (xs : List α) (i n : Nat) : Prop := ∀ k, i ≤ k → k < i + n → xs[k]? = some a

/-- The longest span that ends in front of `stop`; it is empty when none does. -/
structure LongestEnding (a : α) (xs : List α) (stop i n : Nat) : Prop where
  span : Span a xs i n
  ends : i + n = stop
  longest : ∀ j m, 0 < m → Span a xs j m → j + m = stop → i ≤ j

/-- The first of the longest spans that end up to `stop`; it is empty when none does. -/
structure FirstLongest (a : α) (xs : List α) (stop i n : Nat) : Prop where
  span : Span a xs i n
  ends : 0 < n → i + n ≤ stop
  longest : ∀ j m, 0 < m → Span a xs j m → j + m ≤ stop → m < n ∨ m = n ∧ i ≤ j

theorem Span.empty (a : α) (xs : List α) (i : Nat) : Span a xs i 0 := by
  intro k hi hk
  omega

/-- Spans lie within the list. -/
theorem Span.le_length {i n : Nat} (h : Span a xs i n) (hn : 0 < n) : i + n ≤ xs.length := by
  have hlast := h (i + n - 1) (by omega) (by omega)
  have hlt := (List.getElem?_eq_some_iff.mp hlast).1
  omega

/-- A list is what stands before a span, the span, and what stands behind it. -/
theorem Span.split {i n : Nat} (h : Span a xs i n) (hn : 0 < n) :
    xs = xs.take i ++ (List.replicate n a ++ xs.drop (i + n)) := by
  have hle := h.le_length hn
  have hspan : (xs.drop i).take n = List.replicate n a := by
    rw [List.eq_replicate_iff, List.length_take, List.length_drop]
    refine ⟨Nat.min_eq_left (by omega), ?_⟩
    intro x hx
    obtain ⟨k, hk⟩ := List.mem_iff_getElem?.mp hx
    have hlt : k < n := by
      have hk' := (List.getElem?_eq_some_iff.mp hk).1
      rw [List.length_take] at hk'
      omega
    rw [List.getElem?_take_of_lt hlt, List.getElem?_drop, h (i + k) (by omega) (by omega)] at hk
    exact (Option.some.inj hk).symm
  rw [← hspan, ← List.drop_drop, List.take_append_drop, List.take_append_drop]

/-- One more occurrence continues the span that ends here. -/
theorem LongestEnding.extend {stop i n : Nat} (h : LongestEnding a xs stop i n)
    (ha : xs[stop]? = some a) : LongestEnding a xs (stop + 1) i (n + 1) := by
  have hends := h.ends
  refine ⟨?_, by omega, ?_⟩
  · intro k hi hk
    by_cases hlast : k = stop
    · rw [hlast]
      exact ha
    · exact h.span k hi (by omega)
  · intro j m hm hspan hj
    by_cases hone : m = 1
    · omega
    · refine h.longest j (m - 1) (by omega) ?_ (by omega)
      intro k hk hk'
      exact hspan k hk (by omega)

/-- Another value ends all spans. -/
theorem LongestEnding.reset {stop : Nat} (ha : xs[stop]? ≠ some a) :
    LongestEnding a xs (stop + 1) (stop + 1) 0 := by
  refine ⟨.empty a xs _, rfl, ?_⟩
  intro j m hm hspan hj
  exact absurd (hspan stop (by omega) (by omega)) ha

/-- In front of a list nothing has ended. -/
theorem LongestEnding.zero (a : α) (xs : List α) : LongestEnding a xs 0 0 0 := by
  refine ⟨.empty a xs 0, rfl, ?_⟩
  intro j m hm hspan hj
  omega

/-- In front of a list there is no span yet, wherever one looks for it. -/
theorem FirstLongest.zero (a : α) (xs : List α) (i : Nat) : FirstLongest a xs 0 i 0 := by
  refine ⟨.empty a xs i, fun hn => absurd hn (Nat.lt_irrefl 0), ?_⟩
  intro j m hm hspan hj
  omega

/-- A longer span that ends here becomes the first of the longest. -/
theorem FirstLongest.replace {stop i n j m : Nat} (h : FirstLongest a xs stop i n)
    (hnew : LongestEnding a xs (stop + 1) j m) (hlt : n < m) :
    FirstLongest a xs (stop + 1) j m := by
  have hends := hnew.ends
  refine ⟨hnew.span, fun _ => by omega, ?_⟩
  intro j' m' hm' hspan hj'
  by_cases hlast : j' + m' = stop + 1
  · have hle := hnew.longest j' m' hm' hspan hlast
    omega
  · have hold := h.longest j' m' hm' hspan (by omega)
    omega

/-- One that is not longer does not. -/
theorem FirstLongest.stay {stop i n j m : Nat} (h : FirstLongest a xs stop i n)
    (hnew : LongestEnding a xs (stop + 1) j m) (hle : m ≤ n) :
    FirstLongest a xs (stop + 1) i n := by
  have hends := hnew.ends
  refine ⟨h.span, fun hn => Nat.le_succ_of_le (h.ends hn), ?_⟩
  intro j' m' hm' hspan hj'
  by_cases hlast : j' + m' = stop + 1
  · have hstart := hnew.longest j' m' hm' hspan hlast
    have hstop := h.ends (by omega)
    omega
  · exact h.longest j' m' hm' hspan (by omega)

/-- There is only one first of the longest spans. -/
theorem FirstLongest.unique {stop i n j m : Nat} (h : FirstLongest a xs stop i n)
    (h' : FirstLongest a xs stop j m) (hm : 0 < m) : i = j ∧ n = m := by
  have hle := h.longest j m hm h'.span (h'.ends hm)
  have hn : 0 < n := by omega
  have hge := h'.longest i n hn h.span (h.ends hn)
  omega

end Netmux
