import PvNet.Number.Duration
import PvNet.Proofs.Number.Rounding
set_option autoImplicit false

/-!
# Numbers of seconds

A number of seconds becomes the nearest number of nanoseconds.  The numbers of the
format reach further than durations in both directions, so there are positive ones
for which there is no duration, or only the empty one.  Where this begins is said
here of the ratio that has been rounded, since that is what a text stands for
(`Duration.ofSeconds?_eq_none_iff`, `Duration.nanoseconds_eq_zero_iff`).

A duration that comes from a number of seconds has seconds that are again those of a
duration (`Duration.Reachable.exists_ofSeconds?_seconds`).
-/

namespace PvNet

namespace Duration

open Binary64

/-- A duration is a nearest number of nanoseconds. -/
theorem roundsHalfEven_of_ofSeconds? {x : Binary64} {d : Duration} (h : ofSeconds? x = some d) :
    RoundsHalfEven (x.value * perSecond) d.nanoseconds := by
  simp only [ofSeconds?] at h
  split at h
  · cases h
  · cases h
    rw [← x.ratio_div, div_mul_eq_mul_div]
    exact_mod_cast roundsHalfEven_roundHalfEven (x.ratio.1 * perSecond) x.ratio_snd_pos

/-- The middle in front of `2 ^ 64`: what is below is rounded to less than `2 ^ 64`. -/
def endless : ℚ := 2 ^ 64 - 2 ^ 10

/-- The middle between the last number of at most half a nanosecond and the next one. -/
def vanishing : ℚ := 9671406556917033 / 2 ^ 84

/-- The last number below `2 ^ 64`. -/
def lastBelow : Binary64 := ⟨2 * leastNormal - 1, 11⟩

theorem canonical_lastBelow : lastBelow.Canonical :=
  ⟨by decide, .inl (by decide), by decide, by decide⟩

theorem next_lastBelow : (carried (lastBelow.mantissa + 1) lastBelow.exponent).Canonical :=
  canonical_carried (by decide) (.inl (by decide)) (by decide) (by decide)

/-- The last number of at most half a nanosecond. -/
def lastHalf : Binary64 := ⟨4835703278458516, -83⟩

theorem canonical_lastHalf : lastHalf.Canonical :=
  ⟨by decide, .inl (by decide), by decide, by decide⟩

theorem next_lastHalf : (carried (lastHalf.mantissa + 1) lastHalf.exponent).Canonical :=
  canonical_carried (by decide) (.inl (by decide)) (by decide) (by decide)

section

variable {q : ℚ} {x : Binary64}

theorem value_lastBelow : lastBelow.value = 2 ^ 64 - 2 ^ 11 := by
  norm_num [value, lastBelow, leastNormal]

theorem value_le_lastBelow_iff (h : Nearest q x) : x.value ≤ lastBelow.value ↔ q < endless := by
  -- the mantissa of the last number below is odd, so the middle itself is rounded up
  have hle := h.value_le_iff canonical_lastBelow next_lastBelow
  have hmiddle : lastBelow.value + 2 ^ lastBelow.exponent / 2 = endless := by
    rw [value_lastBelow]
    norm_num [lastBelow, endless]
  rwa [hmiddle, or_iff_left fun h => absurd h.2 (by decide)] at hle

/-- From `2 ^ 64` seconds on there is no duration. -/
theorem ofSeconds?_eq_none_iff (h : Nearest q x) : ofSeconds? x = none ↔ endless ≤ q := by
  have hden : (0 : ℚ) < x.ratio.2 := by exact_mod_cast x.ratio_snd_pos
  have hlimit : UInt64.size * x.ratio.2 ≤ x.ratio.1 ↔ 2 ^ 64 ≤ x.value := by
    rw [← x.ratio_div, le_div_iff₀ hden]
    exact_mod_cast Iff.rfl
  have hgap : 2 ^ 64 ≤ x.value ↔ lastBelow.value < x.value := by
    refine ⟨fun hx => lt_of_lt_of_le (by rw [value_lastBelow]; norm_num) hx, fun hx => ?_⟩
    have := h.canonical.add_le_value canonical_lastBelow hx
    rw [value_lastBelow] at this
    norm_num [lastBelow] at this ⊢
    linarith
  have hsome : ofSeconds? x = none ↔ 2 ^ 64 ≤ x.value := by simp [ofSeconds?, hlimit]
  rw [hsome, hgap, ← not_le, value_le_lastBelow_iff h, not_lt]

/-- Half a nanosecond and less is no time. -/
theorem nanoseconds_eq_zero_iff (h : Nearest q x) {d : Duration} (hd : ofSeconds? x = some d) :
    d.nanoseconds = 0 ↔ q ≤ vanishing := by
  rw [(roundsHalfEven_of_ofSeconds? hd).eq_zero_iff]
  have hlast : lastHalf.value = 4835703278458516 / 2 ^ 83 := by
    norm_num [value, lastHalf, zpow_neg]
  have hgap : x.value * perSecond ≤ 1 / 2 ↔ x.value ≤ lastHalf.value := by
    constructor
    · intro hx
      by_contra hlt
      have := h.canonical.add_le_value canonical_lastHalf (not_le.mp hlt)
      rw [hlast] at this
      norm_num [lastHalf, perSecond] at this hx
      linarith
    · intro hx
      rw [hlast] at hx
      norm_num [perSecond] at hx ⊢
      linarith
  -- the mantissa of the last number is even, so the middle itself is rounded down
  have hle := h.value_le_iff canonical_lastHalf next_lastHalf
  have hmiddle : lastHalf.value + 2 ^ lastHalf.exponent / 2 = vanishing := by
    rw [hlast]
    norm_num [lastHalf, vanishing]
  rw [hmiddle, and_iff_left (by decide), ← le_iff_lt_or_eq] at hle
  rw [hgap, hle]

end

/-! ## The seconds of a duration -/

/-- A duration that is not longer than what a number of seconds can give. -/
def Reachable (d : Duration) : Prop := (d.nanoseconds : ℚ) ≤ lastBelow.value * perSecond

theorem reachable_of_ofSeconds? {q : ℚ} {x : Binary64} {d : Duration} (h : Nearest q x)
    (hd : ofSeconds? x = some d) : d.Reachable := by
  have hlimit : lastBelow.value * perSecond = ((UInt64.size - 2048) * perSecond : Nat) := by
    rw [value_lastBelow]
    norm_num [UInt64.size, perSecond]
  have hlt : q < endless := by
    rw [← not_le, ← ofSeconds?_eq_none_iff h, hd]
    exact Option.some_ne_none d
  have hle : x.value * perSecond ≤ lastBelow.value * perSecond :=
    mul_le_mul_of_nonneg_right ((value_le_lastBelow_iff h).mpr hlt) (Nat.cast_nonneg _)
  rw [Reachable, hlimit]
  exact_mod_cast (roundsHalfEven_of_ofSeconds? hd).le_of_le_natCast (hle.trans_eq hlimit)

theorem endless_lt_overflow : endless < overflow := by
  have hlarge : (2 : ℚ) ^ (64 : Int) ≤ 2 ^ maxExponent := two_zpow_le (by decide)
  calc endless < 2 ^ (64 : Int) := by norm_num [endless]
    _ ≤ 2 ^ maxExponent := hlarge
    _ ≤ overflow := le_mul_of_one_le_left (two_zpow_pos _).le (by norm_num [leastNormal])

/-- The seconds of a duration within reach are again within reach: the gap in front of `2 ^ 64` is
wide enough for what the three roundings add. -/
theorem Reachable.exists_ofSeconds?_seconds {d : Duration} (h : d.Reachable) :
    ∃ d', ofSeconds? d.seconds = some d' := by
  have hsecond : (0 : ℚ) < perSecond := by norm_num [perSecond]
  have hwhole : ((d.nanoseconds / perSecond : Nat) : ℚ) / (1 : Nat) < endless := by
    calc ((d.nanoseconds / perSecond : Nat) : ℚ) / (1 : Nat)
        ≤ d.nanoseconds / perSecond := by
          rw [Nat.cast_one, div_one, le_div_iff₀ hsecond]
          exact_mod_cast Nat.div_mul_le_self _ _
      _ ≤ lastBelow.value := (div_le_iff₀ hsecond).mpr h
      _ < endless := by
          rw [value_lastBelow]
          norm_num [endless]
  have hpart : ((d.nanoseconds % perSecond : Nat) : ℚ) / perSecond < 1 := by
    rw [div_lt_one hsecond]
    exact_mod_cast Nat.mod_lt _ (by decide)
  have hone : (1 : ℚ) < overflow := lt_trans (by norm_num [endless]) endless_lt_overflow
  obtain ⟨w, hw, hnearW⟩ := (roundsTo_ofRatio? (d.nanoseconds / perSecond) one_pos).exists_of_lt
    (hwhole.trans endless_lt_overflow)
  obtain ⟨f, hf, hnearF⟩ := (roundsTo_ofRatio? (d.nanoseconds % perSecond)
    (show 0 < perSecond by decide)).exists_of_lt (hpart.trans hone)
  -- the fraction is at most twice what it has been rounded from
  have hfraction : f.value < 2 := by
    have hnonneg : 0 ≤ ((d.nanoseconds % perSecond : Nat) : ℚ) / perSecond :=
      div_nonneg (Nat.cast_nonneg _) hsecond.le
    have hnear := (le_abs_self _).trans (hnearF.near canonical_zero)
    rw [value_zero, zero_sub, abs_neg, abs_of_nonneg hnonneg] at hnear
    linarith
  have hsum : w.value + f.value < endless := by
    have hw := (value_le_lastBelow_iff hnearW).mpr hwhole
    rw [value_lastBelow] at hw
    norm_num [endless] at hw ⊢
    linarith
  obtain ⟨y, hy, hnearY⟩ := (roundsTo_add? w f).exists_of_lt (hsum.trans endless_lt_overflow)
  have hseconds : d.seconds = y := by
    simp only [seconds, hw, hf, hy, Option.getD_some]
  rw [← Option.isSome_iff_exists, Option.isSome_iff_ne_none, hseconds, ne_eq,
    ofSeconds?_eq_none_iff hnearY]
  exact hsum.not_ge

end Duration

end PvNet
