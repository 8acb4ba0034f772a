import Netmux.Lib.Checked
import Netmux.Lib.HalfEven
import Netmux.Lib.Text
import Mathlib.Data.Rat.Floor

/-!
# Quantities as text

The user interface shows bytes and rates with one decimal in the largest unit that fits. The
double that is shown is an exact rational here; dividing it by 1024 is exact, and its decimals
are those of the nearest tenth, ties to even. The unit is chosen before the rounding, so a text
may show 1024.0 of a unit.
-/

namespace Netmux

/-- `units`. -/
def units : List String := ["B", "KB", "MB", "GB", "TB"]

/-- The loop of `fmt_bytes`, with the number of larger units that are left. -/
def climb : Nat → Nat → ℚ → Nat × ℚ
  | 0, idx, val => (idx, val)
  | left + 1, idx, val => if 1024 ≤ val then climb left (idx + 1) (val / 1024) else (idx, val)

/-- Tenths with a decimal point. -/
def fixedPoint (tenths : Nat) : String := Nat.repr (tenths / 10) ++ "." ++ Nat.repr (tenths % 10)

/-- `{val:.1}`. -/
def fixedOne (val : ℚ) : String := fixedPoint (halfEven (val * 10))

/-- Format a byte quantity (optionally as a rate relative to `scale`). -/
def fmtBytes (bytes : ℚ) (scale : Option ℚ) : Checked String := do
  let v := match scale with
    | some s => bytes / s
    | none => bytes
  let (idx, val) := climb (units.length - 1) 0 v
  let unit ← Checked.index units idx
  pure (fixedOne val ++ unit)

/-- Format bytes per second. -/
def fmtBps (bps : ℚ) : Checked String := do
  let text ← fmtBytes bps (some 1)
  pure (text ++ "/s")

/-! ## What a text stands for -/

/-- A quantity in the tenths of a unit. -/
def quantity (idx tenths : Nat) : ℚ := tenths / 10 * 1024 ^ idx

/-- The text stands for the quantity. -/
def Reads (text : String) (q : ℚ) : Prop :=
  ∃ idx tenths unit, units[idx]? = some unit ∧ text = fixedPoint tenths ++ unit ∧
    q = quantity idx tenths

/-- Different units are different texts, none with a point. -/
theorem units_inj {i j : Nat} {unit : String} (hi : units[i]? = some unit)
    (hj : units[j]? = some unit) : i = j := by
  have hnodup : units.Nodup := by decide
  obtain ⟨hlt, -⟩ := List.getElem?_eq_some_iff.mp hi
  exact (List.getElem?_inj hlt hnodup).mp (hi.trans hj.symm)

/-- A text stands for one quantity. -/
theorem Reads.unique {text : String} {q r : ℚ} (hq : Reads text q) (hr : Reads text r) : q = r := by
  obtain ⟨i, a, unit, hi, rfl, rfl⟩ := hq
  obtain ⟨j, b, unit', hj, heq, rfl⟩ := hr
  have hpoint (n : Nat) : '.' ∉ (Nat.repr n).toList := not_mem_repr (by decide)
  have hdigit (n : Nat) : (Nat.repr (n % 10)).toList = [(n % 10).digitChar] := by
    rw [Nat.toList_repr, Nat.toDigits_of_lt_base (Nat.mod_lt n (by decide))]
  have hlist (n : Nat) (u : String) : (fixedPoint n ++ u).toList =
      (Nat.repr (n / 10)).toList ++ '.' :: ((n % 10).digitChar :: u.toList) := by
    have hdot : ".".toList = ['.'] := by decide
    simp only [fixedPoint, String.toList_append, hdot, hdigit, List.append_assoc, List.cons_append,
      List.nil_append]
  have htexts := congrArg String.toList heq
  rw [hlist, hlist] at htexts
  obtain ⟨hwhole, hrest⟩ := append_cons_inj_of_first (hpoint _) (hpoint _) htexts
  obtain ⟨htenth, hunit⟩ := List.cons.inj hrest
  have hdiv : a / 10 = b / 10 := Nat.repr_inj.mp (String.toList_inj.mp hwhole)
  have hmod : a % 10 = b % 10 := by
    apply Nat.repr_inj.mp
    rw [← String.toList_inj, hdigit, hdigit, htenth]
  obtain rfl : a = b := by omega
  obtain rfl := String.toList_inj.mp hunit
  rw [units_inj hi hj]

/-! ## What is shown -/

/-- The loop divides by the largest unit that fits, and stops at the last. -/
structure Climbed (v : ℚ) (left idx : Nat) (val : ℚ) : Prop where
  value : val * 1024 ^ idx = v
  last : idx ≤ left
  fits : 0 < idx → 1024 ^ idx ≤ v
  largest : idx < left → v < 1024 ^ (idx + 1)

theorem climbed_climb {v val : ℚ} {total left idx : Nat} (hvalue : val * 1024 ^ idx = v)
    (hleft : idx + left = total) (hfits : 0 < idx → 1024 ^ idx ≤ v) :
    Climbed v total (climb left idx val).1 (climb left idx val).2 := by
  induction left generalizing idx val with
  | zero =>
    rw [climb]
    refine ⟨hvalue, by simp only; omega, hfits, fun hlt => ?_⟩
    exact absurd hlt (by simp only; omega)
  | succ left ih =>
    have hpos : (0 : ℚ) < 1024 ^ idx := by positivity
    rw [climb]
    split
    · rename_i hlarge
      apply ih
      · rw [← hvalue, pow_succ]
        ring
      · omega
      · intro _
        rw [← hvalue, pow_succ, mul_comm]
        exact mul_le_mul_of_nonneg_right hlarge hpos.le
    · rename_i hsmall
      refine ⟨hvalue, by simp only; omega, hfits, fun _ => ?_⟩
      rw [← hvalue, pow_succ, mul_comm _ (1024 : ℚ)]
      exact mul_lt_mul_of_pos_right (not_le.mp hsmall) hpos

theorem climbed (v : ℚ) : Climbed v 4 (climb 4 0 v).1 (climb 4 0 v).2 :=
  climbed_climb (by rw [pow_zero, mul_one]) rfl (fun h => absurd h (Nat.lt_irrefl 0))

/-- The quantity that the text of another shows. -/
def shown (v : ℚ) : ℚ := quantity (climb 4 0 v).1 (halfEven ((climb 4 0 v).2 * 10))

/-- It is as near as a tenth of the unit allows. -/
theorem abs_shown_sub_le {v : ℚ} (h : 0 ≤ v) : |shown v - v| ≤ max 1 v / 20 := by
  obtain ⟨hvalue, -, hfits, -⟩ := climbed v
  rw [shown, quantity]
  generalize (climb 4 0 v).1 = idx at *
  generalize (climb 4 0 v).2 = val at *
  have hpos : (0 : ℚ) < 1024 ^ idx := by positivity
  have hval : 0 ≤ val := by
    by_contra hneg
    have hv : v < 0 := by
      rw [← hvalue]
      exact mul_neg_of_neg_of_pos (not_le.mp hneg) hpos
    exact absurd h (not_le.mpr hv)
  have hround := abs_halfEven_sub_le (mul_nonneg hval (by norm_num : (0 : ℚ) ≤ 10))
  have hunit : (1024 : ℚ) ^ idx ≤ max 1 v := by
    rcases Nat.eq_zero_or_pos idx with rfl | hidx
    · rw [pow_zero]
      exact le_max_left 1 v
    · exact (hfits hidx).trans (le_max_right 1 v)
  calc |(halfEven (val * 10) : ℚ) / 10 * 1024 ^ idx - v|
      = |(halfEven (val * 10) : ℚ) - val * 10| * (1024 ^ idx / 10) := by
        rw [← abs_of_pos (by positivity : (0 : ℚ) < 1024 ^ idx / 10), ← abs_mul, ← hvalue]
        congr 1
        ring
    _ ≤ 1 / 2 * (1024 ^ idx / 10) := mul_le_mul_of_nonneg_right hround (by positivity)
    _ = 1024 ^ idx / 20 := by ring
    _ ≤ max 1 v / 20 := by linarith

/-- More is never shown as less. -/
theorem shown_mono {v w : ℚ} (h : v ≤ w) : shown v ≤ shown w := by
  obtain ⟨hv, hvlast, hvfits, hvlargest⟩ := climbed v
  obtain ⟨hw, hwlast, hwfits, hwlargest⟩ := climbed w
  rw [shown, shown, quantity, quantity]
  generalize (climb 4 0 v).1 = i at *
  generalize (climb 4 0 v).2 = x at *
  generalize (climb 4 0 w).1 = j at *
  generalize (climb 4 0 w).2 = y at *
  have hi : (0 : ℚ) < 1024 ^ i := by positivity
  have hj : (0 : ℚ) < 1024 ^ j := by positivity
  rcases Nat.lt_trichotomy i j with hlt | rfl | hgt
  · -- the smaller one shows at most 1024.0 of its unit, the larger one at least 1.0
    have hpower : (1024 : ℚ) ^ (i + 1) ≤ 1024 ^ j := pow_le_pow_right₀ (by norm_num) hlt
    have hx : x * 10 ≤ (10240 : Nat) := by
      have hsmall := hvlargest (by omega)
      rw [← hv, pow_succ, mul_comm _ (1024 : ℚ)] at hsmall
      have hx := lt_of_mul_lt_mul_right hsmall hi.le
      push_cast
      linarith
    have hy : ((10 : Nat) : ℚ) ≤ y * 10 := by
      have hlarge := hwfits (by omega)
      rw [← hw] at hlarge
      have hy : 1 ≤ y := le_of_mul_le_mul_right (by rwa [one_mul]) hj
      push_cast
      linarith
    have hlow : halfEven (x * 10) ≤ 10240 := by
      have hmono := halfEven_mono hx
      rwa [halfEven_natCast] at hmono
    have hhigh : 10 ≤ halfEven (y * 10) := by
      have hmono := halfEven_mono hy
      rwa [halfEven_natCast] at hmono
    have hlow' : (halfEven (x * 10) : ℚ) ≤ 10240 := by exact_mod_cast hlow
    have hhigh' : (10 : ℚ) ≤ halfEven (y * 10) := by exact_mod_cast hhigh
    calc (halfEven (x * 10) : ℚ) / 10 * 1024 ^ i
        ≤ 10240 / 10 * 1024 ^ i := mul_le_mul_of_nonneg_right (by linarith) hi.le
      _ = 1024 ^ (i + 1) := by ring
      _ ≤ 1024 ^ j := hpower
      _ = 10 / 10 * 1024 ^ j := by ring
      _ ≤ (halfEven (y * 10) : ℚ) / 10 * 1024 ^ j :=
        mul_le_mul_of_nonneg_right (by linarith) hj.le
  · have hxy : x ≤ y := by
      rw [← hv, ← hw] at h
      exact le_of_mul_le_mul_right h hi
    have hmono : halfEven (x * 10) ≤ halfEven (y * 10) :=
      halfEven_mono (mul_le_mul_of_nonneg_right hxy (by norm_num))
    have hmono' : (halfEven (x * 10) : ℚ) ≤ halfEven (y * 10) := by exact_mod_cast hmono
    exact mul_le_mul_of_nonneg_right (by linarith) hi.le
  · -- the larger one would have fitted a larger unit
    have hpower : (1024 : ℚ) ^ (j + 1) ≤ 1024 ^ i := pow_le_pow_right₀ (by norm_num) hgt
    have hsmall := hwlargest (by omega)
    have hlarge := hvfits (by omega)
    linarith

/-- A quantity has a text, which stands for one quantity and no other, off by a twentieth at most,
or by a twentieth of a byte. -/
structure Readable (v : ℚ) : Prop where
  text : ∃ text, fmtBytes v none = .ok text ∧ fmtBps v = .ok (text ++ "/s") ∧
    ∀ q, Reads text q ↔ q = shown v
  near : |shown v - v| ≤ max 1 v / 20

theorem readable {v : ℚ} (h : 0 ≤ v) : Readable v := by
  refine ⟨?_, abs_shown_sub_le h⟩
  have hlast := (climbed v).last
  obtain ⟨unit, hunit⟩ : ∃ unit, units[(climb 4 0 v).1]? = some unit :=
    ⟨_, List.getElem?_eq_getElem (by change _ < 5; omega)⟩
  have htext : fmtBytes v none = .ok (fixedOne (climb 4 0 v).2 ++ unit) := by
    simp only [fmtBytes]
    change (Checked.index units (climb 4 0 v).1 >>= fun unit =>
      pure (fixedOne (climb 4 0 v).2 ++ unit)) = _
    rw [Checked.index_eq hunit]
    rfl
  have hrate : fmtBytes v (some 1) = fmtBytes v none := by simp only [fmtBytes, div_one]
  refine ⟨_, htext, by rw [fmtBps, hrate, htext]; rfl, ?_⟩
  have hreads : Reads (fixedOne (climb 4 0 v).2 ++ unit) (shown v) := ⟨_, _, unit, hunit, rfl, rfl⟩
  intro q
  constructor
  · intro hq
    exact hq.unique hreads
  · rintro rfl
    exact hreads

/-- What is shown can be read back within a twentieth, and never shows the larger of two quantities
as less than the smaller. -/
theorem fmtBytes_readable {v w : ℚ} (hv : 0 ≤ v) (hvw : v ≤ w) :
    Readable v ∧ Readable w ∧ shown v ≤ shown w :=
  ⟨readable hv, readable (hv.trans hvw), shown_mono hvw⟩

/-- The last byte of a kilobyte's range is rounded up to the first megabyte. -/
theorem fmtBytes_readable_carry : fmtBytes 1048575 none = .ok "1024.0KB" ∧
    fmtBytes 1048576 none = .ok "1.0MB" ∧
    Readable 1048575 ∧ Readable 1048576 ∧ shown 1048575 ≤ shown 1048576 := by
  have hlow : fmtBytes 1048575 none = .ok "1024.0KB" := by decide +kernel
  have hhigh : fmtBytes 1048576 none = .ok "1.0MB" := by decide +kernel
  exact ⟨hlow, hhigh, fmtBytes_readable (by norm_num) (by norm_num)⟩

end Netmux
