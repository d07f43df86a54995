import Mathlib.Algebra.Order.Field.Power
import Mathlib.Algebra.Order.Field.Rat
import Mathlib.Tactic.FieldSimp
import Mathlib.Tactic.Linarith
import Mathlib.Tactic.NormNum
import Mathlib.Tactic.Positivity
import Mathlib.Tactic.Ring
import PvNet.Number.Binary64
set_option autoImplicit false

/-!
# Rounding

What a ratio is rounded to, said without the computation: a nearest whole number,
and a nearest number of the format, in both cases the even one of two that are
equally near.  Both follow from one fact about grids: on the grid of the multiples
of `2 ^ e` on which a ratio has 53 digits, no number of the format is nearer than
the nearest grid point.

A number of the format and the next one have a middle, and on which side of it a
ratio lies says on which side of the gap it is rounded to (`Nearest.value_le_iff`).
So a condition on what a text is rounded to is one on the number that it stands for.
-/

namespace PvNet

/-- A whole number nearest to a ratio, and of two that are equally near the even one. -/
structure RoundsHalfEven (q : ℚ) (r : Nat) : Prop where
  near : |(r : ℚ) - q| ≤ 1 / 2
  even : |(r : ℚ) - q| = 1 / 2 → r % 2 = 0

theorem roundsHalfEven_roundHalfEven (num : Nat) {den : Nat} (hden : 0 < den) :
    RoundsHalfEven (num / den) (roundHalfEven num den) := by
  have hpos : (0 : ℚ) < den := by exact_mod_cast hden
  have hsplit : (num : ℚ) / den = (num / den : Nat) + ((num % den : Nat) : ℚ) / den := by
    rw [div_eq_iff hpos.ne', add_mul, div_mul_cancel₀ _ hpos.ne']
    exact_mod_cast (Nat.div_add_mod' num den).symm
  have hrest : num % den < den := Nat.mod_lt num hden
  simp only [roundHalfEven]
  rw [hsplit]
  generalize num / den = q at *
  generalize num % den = r at *
  -- the three cases of the computation, said of the fraction
  have hle : (r : ℚ) / den ≤ 1 / 2 ↔ 2 * r ≤ den := by
    rw [div_le_div_iff₀ hpos two_pos, one_mul, mul_comm]
    exact_mod_cast Iff.rfl
  have hge : 1 / 2 ≤ (r : ℚ) / den ↔ den ≤ 2 * r := by
    rw [div_le_div_iff₀ two_pos hpos, one_mul, mul_comm]
    exact_mod_cast Iff.rfl
  split
  case isTrue h =>
    have hdist : |(q : ℚ) - (q + r / den)| = r / den := by
      rw [sub_add_cancel_left, abs_neg, abs_of_nonneg (by positivity)]
    refine ⟨by rw [hdist, hle]; omega, fun hhalf => ?_⟩
    have hreach := hge.mp (hdist.symm.trans hhalf).ge
    omega
  case isFalse h =>
    have hlt : (r : ℚ) / den < 1 := (div_lt_one hpos).mpr (by exact_mod_cast hrest)
    have hdist : |((q + 1 : Nat) : ℚ) - (q + r / den)| = 1 - r / den := by
      rw [show ((q + 1 : Nat) : ℚ) - (q + r / den) = 1 - r / den by push_cast; ring,
        abs_of_pos (by linarith)]
    have hreach := hge.mpr (by omega)
    refine ⟨by rw [hdist]; linarith, fun hhalf => ?_⟩
    rw [hdist] at hhalf
    have hbelow := hle.mp (by linarith)
    omega

namespace RoundsHalfEven

variable {q : ℚ} {r : Nat}

/-- Another whole number is farther away, or as far away if the nearest one is even. -/
theorem near_or_eq (h : RoundsHalfEven q r) (k : Nat) :
    k = r ∨ (|(r : ℚ) - q| < |(k : ℚ) - q|) ∨ (|(k : ℚ) - q| = |(r : ℚ) - q| ∧ r % 2 = 0) := by
  by_cases hk : k = r
  · exact .inl hk
  have hone : (1 : ℚ) ≤ |(k : ℚ) - r| := by
    have : (1 : ℤ) ≤ |(k : ℤ) - r| := Int.one_le_abs (by omega)
    exact_mod_cast this
  have htri : |(k : ℚ) - r| ≤ |(k : ℚ) - q| + |(r : ℚ) - q| := by
    rw [abs_sub_comm (r : ℚ) q]
    exact abs_sub_le _ _ _
  have hnear := h.near
  rcases lt_or_eq_of_le (show |(r : ℚ) - q| ≤ |(k : ℚ) - q| by linarith) with hlt | heq
  · exact .inr (.inl hlt)
  · exact .inr (.inr ⟨heq.symm, h.even (by linarith)⟩)

theorem near_le (h : RoundsHalfEven q r) (k : Nat) : |(r : ℚ) - q| ≤ |(k : ℚ) - q| := by
  rcases h.near_or_eq k with rfl | hlt | ⟨heq, -⟩
  · exact le_rfl
  · exact hlt.le
  · exact heq.ge

theorem le_of_le_natCast (h : RoundsHalfEven q r) {n : Nat} (hq : q ≤ n) : r ≤ n := by
  by_contra hlt
  have hsucc : (n : ℚ) + 1 ≤ r := by exact_mod_cast Nat.lt_of_not_le hlt
  have := (abs_le.mp h.near).2
  linarith

theorem le_of_le (h : RoundsHalfEven q r) {n : Nat} (hq : n ≤ q) : n ≤ r := by
  by_contra hlt
  have hsucc : (r : ℚ) + 1 ≤ n := by exact_mod_cast Nat.lt_of_not_le hlt
  have := (abs_le.mp h.near).1
  linarith

/-- A ratio is rounded to less than a whole number exactly below the middle in front of that
number, and at the middle if that goes to the number before. -/
theorem lt_iff (h : RoundsHalfEven q r) (n : Nat) :
    r < n ↔ q < n - 1 / 2 ∨ (q = n - 1 / 2 ∧ n % 2 = 1) := by
  have hnear := abs_le.mp h.near
  constructor
  · intro hlt
    have hsucc : (r : ℚ) + 1 ≤ n := by exact_mod_cast hlt
    rcases lt_or_eq_of_le (show q ≤ n - 1 / 2 by linarith) with hq | hq
    · exact .inl hq
    · have hr : (r : ℚ) + 1 = n := by linarith
      have heven := h.even (by rw [hq, ← hr, abs_of_nonpos (by linarith)]; ring)
      have hr : r + 1 = n := by exact_mod_cast hr
      exact .inr ⟨hq, by omega⟩
  · rintro (hq | ⟨rfl, hodd⟩)
    · exact_mod_cast (show (r : ℚ) < n by linarith)
    · have hle : r ≤ n := by exact_mod_cast (show (r : ℚ) ≤ n by linarith)
      refine Nat.lt_of_le_of_ne hle fun heq => ?_
      have heven := h.even (by rw [heq]; norm_num)
      omega

/-- A ratio of at most one half, and no other, is rounded to zero. -/
theorem eq_zero_iff (h : RoundsHalfEven q r) : r = 0 ↔ q ≤ 1 / 2 := by
  rw [← Nat.lt_one_iff, h.lt_iff 1, le_iff_lt_or_eq]
  norm_num

end RoundsHalfEven

namespace Binary64

/-- The number as a ratio. -/
def value (x : Binary64) : ℚ := x.mantissa * 2 ^ x.exponent

/-- Mantissa and exponent are in their ranges: a number of the format, in its only form. -/
structure Canonical (x : Binary64) : Prop where
  mantissa_lt : x.mantissa < 2 * leastNormal
  normal : leastNormal ≤ x.mantissa ∨ x.exponent = minExponent
  minExponent_le : minExponent ≤ x.exponent
  le_maxExponent : x.exponent ≤ maxExponent

/-- A number of the format nearest to a ratio, and of two that are equally near the one with the
even mantissa. -/
structure Nearest (q : ℚ) (x : Binary64) : Prop where
  canonical : x.Canonical
  near : ∀ {y : Binary64}, y.Canonical → |x.value - q| ≤ |y.value - q|
  even : ∀ {y : Binary64}, y.Canonical → y ≠ x → |y.value - q| = |x.value - q| → x.mantissa % 2 = 0

/-- Half a step beyond the largest number: ratios from here on have no nearest number. -/
def overflow : ℚ := (2 * leastNormal - 1 / 2) * 2 ^ maxExponent

/-- What a ratio is rounded to, if anything. -/
def RoundsTo (q : ℚ) : Option Binary64 → Prop
  | none => overflow ≤ q
  | some x => q < overflow ∧ Nearest q x

theorem two_zpow_pos (e : Int) : (0 : ℚ) < 2 ^ e := zpow_pos (by norm_num) e

theorem two_zpow_le {e f : Int} (h : e ≤ f) : (2 : ℚ) ^ e ≤ 2 ^ f :=
  zpow_le_zpow_right₀ (by norm_num) h

theorem two_zpow_succ (e : Int) : (2 : ℚ) ^ (e + 1) = 2 * 2 ^ e := by
  rw [zpow_add_one₀ (by norm_num), mul_comm]

theorem value_nonneg (x : Binary64) : 0 ≤ x.value :=
  mul_nonneg (Nat.cast_nonneg _) (two_zpow_pos _).le

@[simp] theorem value_zero : zero.value = 0 := by simp [value, zero]

theorem canonical_zero : zero.Canonical := ⟨by decide, .inr rfl, by decide, by decide⟩

/-! ## The grid of a number -/

namespace Canonical

variable {x y : Binary64}

/-- A number is a point of every finer grid. -/
theorem exists_value_eq {e : Int} (h : e ≤ x.exponent) : ∃ k : Nat, x.value = k * 2 ^ e := by
  obtain ⟨n, hn⟩ := Int.eq_ofNat_of_zero_le (Int.sub_nonneg.mpr h)
  refine ⟨x.mantissa * 2 ^ n, ?_⟩
  rw [value, show x.exponent = n + e by omega, zpow_add₀ (by norm_num), zpow_natCast]
  push_cast
  ring

/-- A number with a smaller exponent is below all normal ones. -/
theorem value_lt (hx : x.Canonical) {e : Int} (h : x.exponent < e) :
    x.value < leastNormal * 2 ^ e := by
  have hm : (x.mantissa : ℚ) < 2 * leastNormal := by exact_mod_cast hx.mantissa_lt
  calc x.value < 2 * leastNormal * 2 ^ x.exponent :=
        mul_lt_mul_of_pos_right hm (two_zpow_pos _)
    _ = leastNormal * 2 ^ (x.exponent + 1) := by rw [two_zpow_succ]; ring
    _ ≤ leastNormal * 2 ^ e := mul_le_mul_of_nonneg_left (two_zpow_le h) (Nat.cast_nonneg _)

/-- Above the least exponent every number is normal. -/
theorem le_value (hx : x.Canonical) {e : Int} (he : minExponent ≤ e) (h : e < x.exponent) :
    leastNormal * 2 ^ x.exponent ≤ x.value := by
  have hm : leastNormal ≤ x.mantissa := hx.normal.resolve_right (by omega)
  exact mul_le_mul_of_nonneg_right (by exact_mod_cast hm) (two_zpow_pos _).le

/-- Every number has one form. -/
theorem eq_of_value_eq (hx : x.Canonical) (hy : y.Canonical) (h : x.value = y.value) : x = y := by
  have hexp : x.exponent = y.exponent := by
    rcases lt_trichotomy x.exponent y.exponent with hlt | heq | hlt
    · exact absurd h ((hx.value_lt hlt).trans_le (hy.le_value hx.minExponent_le hlt)).ne
    · exact heq
    · exact absurd h.symm ((hy.value_lt hlt).trans_le (hx.le_value hy.minExponent_le hlt)).ne
  have hm : (x.mantissa : ℚ) = y.mantissa := by
    rw [value, value, hexp] at h
    exact mul_right_cancel₀ (two_zpow_pos _).ne' h
  cases x
  cases y
  simp_all

/-- Between a number and the next point of its grid there is no other number. -/
theorem add_le_value (hx : x.Canonical) (hy : y.Canonical) (h : y.value < x.value) :
    y.value + 2 ^ y.exponent ≤ x.value := by
  rcases lt_or_ge x.exponent y.exponent with hlt | hle
  · exact absurd h ((hx.value_lt hlt).trans_le (hy.le_value hx.minExponent_le hlt)).le.not_gt
  · obtain ⟨k, hk⟩ := exists_value_eq hle
    have hpos := two_zpow_pos y.exponent
    rw [hk, value] at h
    have hlt : (y.mantissa : ℚ) < k := lt_of_mul_lt_mul_right h hpos.le
    have hsucc : (y.mantissa : ℚ) + 1 ≤ k := by exact_mod_cast hlt
    calc y.value + 2 ^ y.exponent = (y.mantissa + 1) * 2 ^ y.exponent := by rw [value]; ring
      _ ≤ k * 2 ^ y.exponent := mul_le_mul_of_nonneg_right hsucc hpos.le
      _ = x.value := hk.symm

end Canonical

/-! ## Rounding on a grid -/

/-- A point of a grid, in the form of the next exponent if the mantissa has become too long. -/
def carried (m : Nat) (e : Int) : Binary64 :=
  if m = 2 * leastNormal then ⟨leastNormal, e + 1⟩ else ⟨m, e⟩

@[simp] theorem value_carried (m : Nat) (e : Int) : (carried m e).value = m * 2 ^ e := by
  unfold carried
  split
  · rename_i hm
    rw [hm, value, two_zpow_succ]
    push_cast
    ring
  · rfl

/-- The parity of a point of a grid is that of its mantissa. -/
theorem even_mantissa_carried_iff (m : Nat) (e : Int) :
    (carried m e).mantissa % 2 = 0 ↔ m % 2 = 0 := by
  unfold carried
  split
  · rename_i hm
    simp only [hm, Nat.mul_mod_right, iff_true]
    decide
  · rfl

section Grid

variable {q : ℚ} {m : Nat} {e : Int}

/-- Distances in steps of the grid. -/
theorem dist_grid (q : ℚ) (k : Nat) (e : Int) :
    |(k : ℚ) * 2 ^ e - q| = |(k : ℚ) - q / 2 ^ e| * 2 ^ e := by
  have hpos := two_zpow_pos e
  rw [← abs_of_pos hpos, ← abs_mul, abs_of_pos hpos, sub_mul, div_mul_cancel₀ _ hpos.ne']

/-- On the grid on which a ratio is normal, no number is nearer to it than the nearest grid point:
those with a smaller exponent are all below the least normal point. -/
theorem near_carried (hm : RoundsHalfEven (q / 2 ^ e) m)
    (hnormal : leastNormal ≤ q / 2 ^ e ∨ e = minExponent) {y : Binary64} (hy : y.Canonical) :
    y.value = m * 2 ^ e ∨ |m * 2 ^ e - q| < |y.value - q| ∨
      (|y.value - q| = |m * 2 ^ e - q| ∧ m % 2 = 0) := by
  have hpos := two_zpow_pos e
  rcases lt_or_ge y.exponent e with hlt | hle
  · right; left
    have hreach : leastNormal * 2 ^ e ≤ q := by
      rcases hnormal with h | h
      · exact (le_div_iff₀ hpos).mp h
      · exact absurd hy.minExponent_le (by omega)
    have hbelow := hy.value_lt hlt
    calc |m * 2 ^ e - q| = |(m : ℚ) - q / 2 ^ e| * 2 ^ e := dist_grid q m e
      _ ≤ |(leastNormal : ℚ) - q / 2 ^ e| * 2 ^ e :=
        mul_le_mul_of_nonneg_right (hm.near_le leastNormal) hpos.le
      _ = |leastNormal * 2 ^ e - q| := (dist_grid q leastNormal e).symm
      _ < |y.value - q| := by
        rw [abs_of_nonpos (by linarith), abs_of_nonpos (by linarith)]
        linarith
  · obtain ⟨k, hk⟩ := Canonical.exists_value_eq hle
    rw [hk, dist_grid q m e, dist_grid q k e]
    rcases hm.near_or_eq k with rfl | hlt | ⟨heq, heven⟩
    · exact .inl rfl
    · exact .inr (.inl (mul_lt_mul_of_pos_right hlt hpos))
    · exact .inr (.inr ⟨by rw [heq], heven⟩)

theorem nearest_carried (hm : RoundsHalfEven (q / 2 ^ e) m)
    (hnormal : leastNormal ≤ q / 2 ^ e ∨ e = minExponent) (hx : (carried m e).Canonical) :
    Nearest q (carried m e) := by
  refine ⟨hx, fun {y} hy => ?_, fun {y} hy hne heq => ?_⟩
  · rw [value_carried]
    rcases near_carried hm hnormal hy with h | h | ⟨h, -⟩
    · rw [h]
    · exact h.le
    · exact h.ge
  · rw [value_carried] at heq
    rcases near_carried hm hnormal hy with h | h | ⟨-, h⟩
    · exact absurd (hy.eq_of_value_eq hx (h.trans (value_carried m e).symm)) hne
    · exact absurd heq h.ne'
    · exact (even_mantissa_carried_iff m e).mpr h

theorem canonical_carried (hle : m ≤ 2 * leastNormal)
    (hnormal : leastNormal ≤ m ∨ e = minExponent) (hmin : minExponent ≤ e)
    (hmax : (carried m e).exponent ≤ maxExponent) : (carried m e).Canonical := by
  unfold carried at hmax ⊢
  split at hmax
  · rename_i hm
    rw [if_pos hm]
    exact ⟨show leastNormal < 2 * leastNormal by decide, .inl le_rfl, Int.le_add_one hmin, hmax⟩
  · rename_i hm
    rw [if_neg hm]
    exact ⟨Nat.lt_of_le_of_ne hle hm, hnormal, hmin, hmax⟩

/-- On the grid on which a ratio is normal, the nearest point is a number of the format exactly if
the ratio is not too large.  On the last grid, whose points behind the largest number are missing,
this is because the largest mantissa is odd. -/
theorem lt_overflow_iff (hm : RoundsHalfEven (q / 2 ^ e) m) (hlt : q / 2 ^ e < 2 * leastNormal)
    (hnormal : leastNormal ≤ q / 2 ^ e ∨ e = minExponent) :
    q < overflow ↔ (carried m e).exponent ≤ maxExponent := by
  have hpos := two_zpow_pos e
  have hexp : (carried m e).exponent = if m = 2 * leastNormal then e + 1 else e := by
    unfold carried
    split <;> rfl
  rw [hexp]
  rcases lt_trichotomy e maxExponent with he | rfl | he
  · have hq : q < overflow := by
      calc q < 2 * leastNormal * 2 ^ e := (div_lt_iff₀ hpos).mp hlt
        _ = leastNormal * 2 ^ (e + 1) := by rw [two_zpow_succ]; ring
        _ ≤ leastNormal * 2 ^ maxExponent :=
          mul_le_mul_of_nonneg_left (two_zpow_le he) (Nat.cast_nonneg _)
        _ ≤ overflow :=
          mul_le_mul_of_nonneg_right (by norm_num [leastNormal]) (two_zpow_pos _).le
    exact iff_of_true hq (by split <;> omega)
  · have hle : m ≤ 2 * leastNormal := hm.le_of_le_natCast (by exact_mod_cast hlt.le)
    have hround : m < 2 * leastNormal ↔ q / 2 ^ maxExponent < 2 * leastNormal - 1 / 2 := by
      rw [hm.lt_iff, Nat.mul_mod_right]
      simp
    rw [overflow, ← div_lt_iff₀ hpos, ← hround]
    split <;> omega
  · have hq : overflow ≤ q := by
      calc overflow ≤ leastNormal * (2 * 2 ^ maxExponent) := by
            rw [overflow, ← mul_assoc]
            exact mul_le_mul_of_nonneg_right (by linarith) (two_zpow_pos _).le
        _ = leastNormal * 2 ^ (maxExponent + 1) := by rw [two_zpow_succ]
        _ ≤ leastNormal * 2 ^ e := mul_le_mul_of_nonneg_left (two_zpow_le he) (Nat.cast_nonneg _)
        _ ≤ q := (le_div_iff₀ hpos).mp
          (hnormal.resolve_right fun h => absurd he (by rw [h]; decide))
    exact iff_of_false hq.not_gt (by split <;> omega)

/-- The nearest point of the grid on which a ratio is normal, unless that is too large. -/
theorem roundsTo_carried (hm : RoundsHalfEven (q / 2 ^ e) m) (hlt : q / 2 ^ e < 2 * leastNormal)
    (hnormal : leastNormal ≤ q / 2 ^ e ∨ e = minExponent) (hmin : minExponent ≤ e) :
    RoundsTo q (if maxExponent < (carried m e).exponent then none else some (carried m e)) := by
  have hfits := lt_overflow_iff hm hlt hnormal
  split
  case isTrue hbig => exact le_of_not_gt fun hq => absurd (hfits.mp hq) (not_le.mpr hbig)
  case isFalse hsmall =>
    have hmax : (carried m e).exponent ≤ maxExponent := not_lt.mp hsmall
    have hle : m ≤ 2 * leastNormal := hm.le_of_le_natCast (by exact_mod_cast hlt.le)
    exact ⟨hfits.mpr hmax,
      nearest_carried hm hnormal (canonical_carried hle (hnormal.imp_left hm.le_of_le) hmin hmax)⟩

end Grid

/-- A ratio below half the least number is rounded to zero. -/
theorem roundsTo_zero {q : ℚ} (hq : 0 ≤ q) (hlt : q < 2 ^ minExponent / 2) :
    RoundsTo q (some zero) := by
  have hpos := two_zpow_pos minExponent
  -- on the finest grid the nearest point is zero
  have hhalf : q / 2 ^ minExponent < 1 / 2 := by
    rw [div_lt_iff₀ hpos]
    linarith
  have hm : RoundsHalfEven (q / 2 ^ minExponent) 0 := by
    have hdist : |((0 : Nat) : ℚ) - q / 2 ^ minExponent| = q / 2 ^ minExponent := by
      rw [Nat.cast_zero, zero_sub, abs_neg, abs_of_nonneg (div_nonneg hq hpos.le)]
    exact ⟨hdist.trans_le hhalf.le, fun h => absurd (hdist.symm.trans h) hhalf.ne⟩
  have hlt : q / 2 ^ minExponent < 2 * leastNormal := hhalf.trans (by norm_num [leastNormal])
  exact roundsTo_carried hm hlt (.inr rfl) le_rfl

/-! ## Ratios and decimal numbers -/

theorem power_fst_pos {base : Nat} (hbase : 0 < base) (e : Int) : 0 < (power base e).1 := by
  unfold power
  split
  · exact Nat.pow_pos hbase
  · exact Nat.one_pos

theorem power_snd_pos {base : Nat} (hbase : 0 < base) (e : Int) : 0 < (power base e).2 := by
  unfold power
  split
  · exact Nat.one_pos
  · exact Nat.pow_pos hbase

/-- The two numbers have the quotient that they stand for. -/
theorem power_div (base : Nat) (e : Int) :
    ((power base e).1 : ℚ) / (power base e).2 = (base : ℚ) ^ e := by
  unfold power
  split
  case isTrue h =>
    obtain ⟨n, rfl⟩ := Int.eq_ofNat_of_zero_le h
    simp
  case isFalse h =>
    obtain ⟨n, hn⟩ := Int.eq_ofNat_of_zero_le (show 0 ≤ -e by omega)
    rw [show e = -(n : Int) by omega]
    simp

theorem ratio_snd_pos (x : Binary64) : 0 < x.ratio.2 := power_snd_pos (by decide) x.exponent

theorem ratio_div (x : Binary64) : (x.ratio.1 : ℚ) / x.ratio.2 = x.value := by
  have := power_div 2 x.exponent
  rw [value, ← Nat.cast_two (R := ℚ), ← this, ← mul_div_assoc]
  simp [ratio]

theorem log2_bounds {n : Nat} (hn : 0 < n) :
    (2 : ℚ) ^ (n.log2 : Int) ≤ n ∧ (n : ℚ) < 2 ^ ((n.log2 : Int) + 1) := by
  constructor
  · rw [zpow_natCast]
    exact_mod_cast Nat.log2_self_le hn.ne'
  · exact_mod_cast Nat.lt_log2_self

/-- The magnitude of a positive ratio is the exponent of the power of two that it reaches last. -/
theorem magnitude_bounds {num den : Nat} (hnum : 0 < num) (hden : 0 < den) :
    (2 : ℚ) ^ magnitude num den ≤ num / den ∧ (num : ℚ) / den < 2 ^ (magnitude num den + 1) := by
  have hd : (0 : ℚ) < den := by exact_mod_cast hden
  obtain ⟨hnumLe, hnumLt⟩ := log2_bounds hnum
  obtain ⟨hdenLe, hdenLt⟩ := log2_bounds hden
  -- the difference of the two lengths is the magnitude, or one more
  have hlower : (2 : ℚ) ^ ((num.log2 : Int) - den.log2 - 1) ≤ num / den := by
    rw [le_div_iff₀ hd]
    calc (2 : ℚ) ^ ((num.log2 : Int) - den.log2 - 1) * den
        ≤ 2 ^ ((num.log2 : Int) - den.log2 - 1) * 2 ^ ((den.log2 : Int) + 1) :=
          mul_le_mul_of_nonneg_left hdenLt.le (two_zpow_pos _).le
      _ = 2 ^ (num.log2 : Int) := by
        rw [← zpow_add₀ (by norm_num)]
        congr 1
        omega
      _ ≤ num := hnumLe
  have hupper : (num : ℚ) / den < 2 ^ ((num.log2 : Int) - den.log2 + 1) := by
    rw [div_lt_iff₀ hd]
    calc (num : ℚ) < 2 ^ ((num.log2 : Int) + 1) := hnumLt
      _ = 2 ^ ((num.log2 : Int) - den.log2 + 1) * 2 ^ (den.log2 : Int) := by
        rw [← zpow_add₀ (by norm_num)]
        congr 1
        omega
      _ ≤ 2 ^ ((num.log2 : Int) - den.log2 + 1) * den :=
        mul_le_mul_of_nonneg_left hdenLe (two_zpow_pos _).le
  have hcompare (g : Int) :
      num * (power 2 g).2 < den * (power 2 g).1 ↔ (num : ℚ) / den < 2 ^ g := by
    have hb : (0 : ℚ) < (power 2 g).2 := by exact_mod_cast power_snd_pos (by decide) g
    rw [← Nat.cast_two (R := ℚ), ← power_div 2 g, div_lt_div_iff₀ hd hb,
      mul_comm ((power 2 g).1 : ℚ)]
    exact_mod_cast Iff.rfl
  simp only [magnitude, hcompare]
  split
  case isTrue h => exact ⟨hlower, by rwa [sub_add_cancel]⟩
  case isFalse h => exact ⟨not_lt.mp h, hupper⟩

/-- A ratio is rounded to a nearest number. -/
theorem roundsTo_ofRatio? (num : Nat) {den : Nat} (hden : 0 < den) :
    RoundsTo (num / den) (ofRatio? num den) := by
  rcases Nat.eq_zero_or_pos num with rfl | hnum
  · rw [Nat.cast_zero, zero_div]
    exact roundsTo_zero le_rfl (half_pos (two_zpow_pos minExponent))
  obtain ⟨hreach, hbelow⟩ := magnitude_bounds hnum hden
  rw [ofRatio?, if_neg hnum.ne']
  generalize magnitude num den = g at *
  have hpos := two_zpow_pos (max minExponent (g - 52))
  have hround : RoundsHalfEven (num / den / 2 ^ max minExponent (g - 52))
      (roundHalfEven (num * (power 2 (max minExponent (g - 52))).2)
        (den * (power 2 (max minExponent (g - 52))).1)) := by
    have hscale := power_div 2 (max minExponent (g - 52))
    rw [Nat.cast_two] at hscale
    rw [← hscale, div_div_div_eq]
    exact_mod_cast roundsHalfEven_roundHalfEven _
      (Nat.mul_pos hden (power_fst_pos (by decide) (max minExponent (g - 52))))
  refine roundsTo_carried hround ?_ ?_ (le_max_left _ _)
  · rw [div_lt_iff₀ hpos]
    calc (num : ℚ) / den < 2 ^ (g + 1) := hbelow
      _ ≤ 2 ^ (53 + max minExponent (g - 52)) := two_zpow_le (by omega)
      _ = 2 * leastNormal * 2 ^ max minExponent (g - 52) := by
        rw [zpow_add₀ (by norm_num)]
        norm_num [leastNormal]
  · rcases le_total (g - 52) minExponent with h | h
    · exact .inr (max_eq_left h)
    · left
      rw [max_eq_right h, le_div_iff₀ (two_zpow_pos _)]
      calc (leastNormal : ℚ) * 2 ^ (g - 52) = 2 ^ (52 + (g - 52)) := by
            rw [zpow_add₀ (by norm_num)]
            norm_num [leastNormal]
        _ = 2 ^ g := by rw [add_sub_cancel]
        _ ≤ num / den := hreach

/-- A sum is rounded to a nearest number. -/
theorem roundsTo_add? (x y : Binary64) : RoundsTo (x.value + y.value) (x.add? y) := by
  have hx : (x.ratio.2 : ℚ) ≠ 0 := by exact_mod_cast x.ratio_snd_pos.ne'
  have hy : (y.ratio.2 : ℚ) ≠ 0 := by exact_mod_cast y.ratio_snd_pos.ne'
  have hsum : x.value + y.value =
      (x.ratio.1 * y.ratio.2 + y.ratio.1 * x.ratio.2 : Nat) / (x.ratio.2 * y.ratio.2 : Nat) := by
    rw [← x.ratio_div, ← y.ratio_div, div_add_div _ _ hx hy]
    push_cast
    ring
  rw [hsum]
  exact roundsTo_ofRatio? _ (Nat.mul_pos x.ratio_snd_pos y.ratio_snd_pos)

/-- A number of digits is between two neighbouring powers of ten. -/
theorem toDigits_bounds {n : Nat} (hn : n ≠ 0) (e : Int) :
    (10 : ℚ) ^ ((Nat.toDigits 10 n).length + e - 1) ≤ n * 10 ^ e ∧
      (n : ℚ) * 10 ^ e < 10 ^ ((Nat.toDigits 10 n).length + e) := by
  have hpos : (0 : ℚ) < 10 ^ e := by positivity
  obtain ⟨k, hk⟩ : ∃ k, (Nat.toDigits 10 n).length = k + 1 :=
    Nat.exists_eq_succ_of_ne_zero Nat.length_toDigits_pos.ne'
  have hbelow : n < 10 ^ (k + 1) :=
    (Nat.length_toDigits_le_iff (by decide) (Nat.succ_pos k)).mp hk.le
  have hreach : 10 ^ k ≤ n := by
    rcases Nat.eq_zero_or_pos k with rfl | hkpos
    · exact Nat.one_le_iff_ne_zero.mpr hn
    · by_contra hlt
      have := (Nat.length_toDigits_le_iff (by decide) hkpos).mpr (Nat.lt_of_not_le hlt)
      omega
  rw [hk]
  constructor
  · calc (10 : ℚ) ^ (((k + 1 : Nat) : Int) + e - 1) = 10 ^ k * 10 ^ e := by
          rw [← zpow_natCast, ← zpow_add₀ (by norm_num)]
          congr 1
          omega
      _ ≤ n * 10 ^ e := mul_le_mul_of_nonneg_right (by exact_mod_cast hreach) hpos.le
  · calc (n : ℚ) * 10 ^ e < 10 ^ (k + 1) * 10 ^ e :=
          mul_lt_mul_of_pos_right (by exact_mod_cast hbelow) hpos
      _ = 10 ^ (((k + 1 : Nat) : Int) + e) := by rw [zpow_add₀ (by norm_num), zpow_natCast]

theorem overflow_le_ten_zpow : overflow ≤ 10 ^ (310 : Int) := by
  have hpow : 2 ^ 1024 ≤ 10 ^ 310 := by decide +kernel
  calc overflow ≤ 2 * leastNormal * 2 ^ maxExponent :=
        mul_le_mul_of_nonneg_right (by linarith) (two_zpow_pos _).le
    _ = 2 ^ (53 + maxExponent) := by
      rw [zpow_add₀ (by norm_num)]
      norm_num [leastNormal]
    _ = 2 ^ 1024 := zpow_natCast 2 1024
    _ ≤ 10 ^ 310 := by exact_mod_cast hpow
    _ = 10 ^ (310 : Int) := (zpow_natCast 10 310).symm

theorem ten_zpow_lt_half : (10 : ℚ) ^ (-331 : Int) < 2 ^ minExponent / 2 := by
  have hpow : 2 ^ 1075 < 10 ^ 331 := by decide +kernel
  have hhalf : (2 : ℚ) ^ minExponent / 2 = (2 ^ 1075)⁻¹ := by
    rw [div_eq_mul_inv, ← zpow_sub_one₀ (by norm_num)]
    exact zpow_negSucc 2 1074
  rw [hhalf]
  calc (10 : ℚ) ^ (-331 : Int) = (10 ^ 331)⁻¹ := zpow_negSucc 10 330
    _ < (2 ^ 1075)⁻¹ := inv_strictAnti₀ (by positivity) (by exact_mod_cast hpow)

/-- A decimal number is rounded to a nearest number, also where the power is not computed. -/
theorem roundsTo_ofDecimal? (n : Nat) (e : Int) : RoundsTo (n * 10 ^ e) (ofDecimal? n e) := by
  by_cases hn : n = 0
  · subst hn
    rw [Nat.cast_zero, zero_mul]
    exact roundsTo_zero le_rfl (half_pos (two_zpow_pos minExponent))
  obtain ⟨hreach, hbelow⟩ := toDigits_bounds hn e
  simp only [ofDecimal?, if_neg hn]
  generalize ((Nat.toDigits 10 n).length : Int) + e = top at *
  split
  case isTrue h =>
    calc overflow ≤ 10 ^ (310 : Int) := overflow_le_ten_zpow
      _ ≤ 10 ^ (top - 1) := zpow_le_zpow_right₀ (by norm_num) (by omega)
      _ ≤ n * 10 ^ e := hreach
  split
  case isTrue h =>
    refine roundsTo_zero (by positivity) ?_
    calc (n : ℚ) * 10 ^ e < 10 ^ top := hbelow
      _ ≤ 10 ^ (-331 : Int) := zpow_le_zpow_right₀ (by norm_num) (by omega)
      _ < 2 ^ minExponent / 2 := ten_zpow_lt_half
  case isFalse h =>
    have hratio : (n : ℚ) * 10 ^ e = (n * (power 10 e).1 : Nat) / (power 10 e).2 := by
      have hscale := power_div 10 e
      rw [Nat.cast_ofNat] at hscale
      rw [← hscale, Nat.cast_mul, mul_div_assoc]
    rw [hratio]
    exact roundsTo_ofRatio? _ (power_snd_pos (by decide) e)

/-! ## The middle of two neighbours -/

section Middle

variable {q : ℚ} {x y : Binary64}

theorem value_next (y : Binary64) :
    (carried (y.mantissa + 1) y.exponent).value = y.value + 2 ^ y.exponent := by
  rw [value_carried, value]
  push_cast
  ring

theorem Nearest.middle_of_value_le (h : Nearest q x) (hy : y.Canonical)
    (hnext : (carried (y.mantissa + 1) y.exponent).Canonical) (hle : x.value ≤ y.value) :
    q < y.value + 2 ^ y.exponent / 2 ∨
      (q = y.value + 2 ^ y.exponent / 2 ∧ y.mantissa % 2 = 0) := by
  have hpos := two_zpow_pos y.exponent
  have hnearNext := h.near hnext
  rw [value_next] at hnearNext
  rcases lt_trichotomy q (y.value + 2 ^ y.exponent / 2) with hlt | heq | hgt
  · exact .inl hlt
  -- in the middle both neighbours are nearest, so the number is the lower one and its mantissa even
  · have hdistX : |x.value - q| = q - x.value := by
      rw [abs_of_nonpos (by linarith), neg_sub]
    have hdistNext : |y.value + 2 ^ y.exponent - q| = 2 ^ y.exponent / 2 := by
      rw [abs_of_nonneg (by linarith)]
      linarith
    have hxy : x = y := h.canonical.eq_of_value_eq hy (by linarith)
    subst hxy
    refine .inr ⟨heq, h.even hnext (fun hsame => ?_) ?_⟩
    · have hstep := value_next x
      rw [hsame] at hstep
      linarith
    · rw [value_next, hdistNext, hdistX]
      linarith
  -- beyond it the next number is nearer
  · have hdistX : q - y.value ≤ |x.value - q| := by
      rw [abs_of_nonpos (by linarith)]
      linarith
    have hdistNext : |y.value + 2 ^ y.exponent - q| < q - y.value :=
      abs_lt.mpr ⟨by linarith, by linarith⟩
    linarith

theorem Nearest.value_le_of_middle (h : Nearest q x) (hy : y.Canonical)
    (hnext : (carried (y.mantissa + 1) y.exponent).Canonical)
    (hq : q < y.value + 2 ^ y.exponent / 2 ∨
      (q = y.value + 2 ^ y.exponent / 2 ∧ y.mantissa % 2 = 0)) : x.value ≤ y.value := by
  by_contra hgt
  have hpos := two_zpow_pos y.exponent
  have hnearY := h.near hy
  have hge := h.canonical.add_le_value hy (not_le.mp hgt)
  have hdistX : y.value + 2 ^ y.exponent - q ≤ |x.value - q| :=
    le_trans (by linarith) (le_abs_self _)
  rcases hq with hlt | ⟨heq, heven⟩
  · have hdistY : |y.value - q| < y.value + 2 ^ y.exponent - q :=
      abs_lt.mpr ⟨by linarith, by linarith⟩
    linarith
  · have hdistY : |y.value - q| = 2 ^ y.exponent / 2 := by
      rw [abs_of_nonpos (by linarith)]
      linarith
    have hxNext : x = carried (y.mantissa + 1) y.exponent := by
      refine h.canonical.eq_of_value_eq hnext ?_
      rw [value_next]
      linarith [le_abs_self (x.value - q)]
    have hx := h.even hy (fun hsame => hgt (by rw [hsame])) (by linarith)
    rw [hxNext, even_mantissa_carried_iff] at hx
    omega

/-- A ratio is rounded to at most a number exactly up to the middle between this number and the
next one; the middle itself counts if the mantissa is even. -/
theorem Nearest.value_le_iff (h : Nearest q x) (hy : y.Canonical)
    (hnext : (carried (y.mantissa + 1) y.exponent).Canonical) :
    x.value ≤ y.value ↔ q < y.value + 2 ^ y.exponent / 2 ∨
      (q = y.value + 2 ^ y.exponent / 2 ∧ y.mantissa % 2 = 0) :=
  ⟨h.middle_of_value_le hy hnext, h.value_le_of_middle hy hnext⟩

end Middle

/-- A number below another one has a next number. -/
theorem Canonical.next {x y : Binary64} (hx : x.Canonical) (hy : y.Canonical)
    (h : x.value < y.value) : (carried (x.mantissa + 1) x.exponent).Canonical := by
  refine canonical_carried hx.mantissa_lt (hx.normal.imp_left Nat.le_succ_of_le)
    hx.minExponent_le ?_
  have hmax := hx.le_maxExponent
  by_contra hbig
  unfold carried at hbig
  split at hbig
  case isFalse hm => exact hbig hmax
  case isTrue hm =>
    -- the number is the largest one
    have hexp : x.exponent = maxExponent := by
      simp only [not_le] at hbig
      omega
    have hlast : x.value + 2 ^ maxExponent = 2 * leastNormal * 2 ^ maxExponent := by
      have hm : (x.mantissa : ℚ) + 1 = 2 * leastNormal := by exact_mod_cast hm
      rw [← hm, value, hexp]
      ring
    have hreach := hy.add_le_value hx h
    rw [hexp, hlast] at hreach
    have hbelow := hy.value_lt (Int.lt_add_one_of_le hy.le_maxExponent)
    rw [two_zpow_succ] at hbelow
    linarith

/-- There is one number that a ratio is rounded to. -/
theorem Nearest.unique {q : ℚ} {x y : Binary64} (hx : Nearest q x) (hy : Nearest q y) : x = y := by
  refine hx.canonical.eq_of_value_eq hy.canonical ?_
  rcases lt_trichotomy x.value y.value with h | h | h
  · have hnext := hx.canonical.next hy.canonical h
    have hle := (hx.value_le_iff hx.canonical hnext).mp le_rfl
    exact absurd h ((hy.value_le_iff hx.canonical hnext).mpr hle).not_gt
  · exact h
  · have hnext := hy.canonical.next hx.canonical h
    have hle := (hy.value_le_iff hy.canonical hnext).mp le_rfl
    exact absurd h ((hx.value_le_iff hy.canonical hnext).mpr hle).not_gt

theorem RoundsTo.unique {q : ℚ} {a b : Option Binary64} (ha : RoundsTo q a) (hb : RoundsTo q b) :
    a = b := by
  cases a with
  | none =>
    cases b with
    | none => rfl
    | some y => exact absurd hb.1 (not_lt.mpr ha)
  | some x =>
    cases b with
    | none => exact absurd ha.1 (not_lt.mpr hb)
    | some y => rw [ha.2.unique hb.2]

/-- A ratio that is not too large is rounded to a number. -/
theorem RoundsTo.exists_of_lt {q : ℚ} {a : Option Binary64} (h : RoundsTo q a)
    (hq : q < overflow) : ∃ x, a = some x ∧ Nearest q x := by
  cases a with
  | none => exact absurd hq (not_lt.mpr h)
  | some x => exact ⟨x, rfl, h.2⟩

end Binary64

end PvNet
