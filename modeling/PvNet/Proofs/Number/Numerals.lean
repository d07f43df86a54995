import PvNet.Proofs.Number.Rounding
import PvNet.Proofs.Text.Decimals
set_option autoImplicit false

/-!
# Numerals

The texts that stand for numbers with a point or an exponent, as a grammar that
mentions no reader.  The reader of floating-point numbers rounds the number that
the text stands for (`Binary64.roundsTo_of_denotes`).  The reader of positive
numbers gives nothing for other texts, and where the number is too large or so
small that it is rounded to zero (`Binary64.positive?_eq_some_iff`,
`Binary64.positive?_eq_none_iff`).
-/

namespace PvNet

/-! ## Numbers with a point and an exponent -/

open Decimal (Digits Unsigned)

/-- Digits with an optional sign. -/
inductive Signed : List Char → Int → Prop where
  | unsigned {cs : List Char} {n : Nat} (h : Unsigned Digits cs n) : Signed cs n
  | minus {cs : List Char} {n : Nat} (h : Digits cs n) : Signed ('-' :: cs) (-n)

/-- The exponent behind the digits of a number, if there is one. -/
inductive Exponent : List Char → Int → Prop where
  | absent : Exponent [] 0
  | present {c : Char} {cs : List Char} {e : Int} (hc : c = 'e' ∨ c = 'E') (h : Signed cs e) :
      Exponent (c :: cs) e

/-- A number without a sign: digits, among, before or behind which a point may stand, and an
exponent. -/
inductive Numeral : List Char → ℚ → Prop where
  | whole {ds es : List Char} {n : Nat} {e : Int} (h : Digits ds n) (he : Exponent es e) :
      Numeral (ds ++ es) (n * 10 ^ e)
  | pointed {ds fs es : List Char} {n : Nat} {e : Int} (h : Digits (ds ++ fs) n)
      (he : Exponent es e) : Numeral (ds ++ '.' :: (fs ++ es)) (n * 10 ^ (e - fs.length))

/-- A text that stands for a number that is not negative. -/
def Denotes (s : String) (q : ℚ) : Prop := Unsigned Numeral s.toList q

namespace Binary64

/-! ## The reader accepts the grammar -/

theorem exponentOf?_of_ne {c : Char} {cs : List Char} (h : c ≠ '-') :
    exponentOf? (c :: cs) =
      (Decimal.ofDigits? (Decimal.withoutPlus (c :: cs))).map fun (n : Nat) => (n : Int) := by
  simp [exponentOf?, h]

theorem exponentOf?_eq_some_iff {cs : List Char} {e : Int} :
    exponentOf? cs = some e ↔ Signed cs e := by
  have hunsigned :
      (Decimal.ofDigits? (Decimal.withoutPlus cs)).map (fun (n : Nat) => (n : Int)) = some e ↔
        ∃ n : Nat, Unsigned Digits cs n ∧ (n : Int) = e := by
    simp only [Option.map_eq_some_iff, Decimal.ofDigits?_eq_some_iff,
      Decimal.unsigned_iff Decimal.not_digits_plus]
  cases cs with
  | nil =>
    refine hunsigned.trans ⟨?_, ?_⟩
    · rintro ⟨n, h, rfl⟩
      exact .unsigned h
    · rintro (h | h)
      exact ⟨_, h, rfl⟩
  | cons c cs =>
    by_cases hc : c = '-'
    · subst hc
      simp only [exponentOf?, Option.map_eq_some_iff, Decimal.ofDigits?_eq_some_iff]
      constructor
      · rintro ⟨n, h, rfl⟩
        exact .minus h
      · rintro ((h | h) | h)
        · exact absurd (h.isDigit '-' List.mem_cons_self) (by decide)
        · exact ⟨_, h, rfl⟩
    · rw [exponentOf?_of_ne hc, hunsigned]
      constructor
      · rintro ⟨n, h, rfl⟩
        exact .unsigned h
      · rintro (h | h)
        · exact ⟨_, h, rfl⟩
        · exact absurd rfl hc

theorem exponent?_eq_some_iff {cs : List Char} {e : Int} :
    exponent? cs = some e ↔ Exponent cs e := by
  cases cs with
  | nil =>
    refine ⟨fun h => ?_, fun h => ?_⟩
    · cases h
      exact .absent
    · cases h
      rfl
  | cons c cs =>
    simp only [exponent?, Option.ite_none_right_eq_some, exponentOf?_eq_some_iff]
    refine ⟨fun h => .present h.1 h.2, fun h => ?_⟩
    cases h with
    | present hc h => exact ⟨hc, h⟩

/-- An exponent is not taken for digits or for a point. -/
theorem fraction_of_exponent {es : List Char} {e : Int} (h : Exponent es e) :
    es.takeWhile Char.isDigit = [] ∧ es.dropWhile Char.isDigit = es ∧ fraction es = ([], es) := by
  cases h with
  | absent => exact ⟨rfl, rfl, rfl⟩
  | present hc h => rcases hc with rfl | rfl <;> exact ⟨rfl, rfl, rfl⟩

/-- Digits before something else are told apart from it. -/
theorem span_digits {ds cs : List Char} (h : ∀ c ∈ ds, c.isDigit = true)
    (hcs : cs.takeWhile Char.isDigit = [] ∧ cs.dropWhile Char.isDigit = cs) :
    (ds ++ cs).takeWhile Char.isDigit = ds ∧ (ds ++ cs).dropWhile Char.isDigit = cs := by
  rw [List.takeWhile_append_of_pos h, List.dropWhile_append_of_pos h, hcs.1, hcs.2, List.append_nil]
  exact ⟨rfl, rfl⟩

/-- What stands behind a point is taken apart, and nothing else. -/
theorem append_fraction (cs : List Char) :
    (∃ rest : List Char, fraction cs = (rest.takeWhile Char.isDigit, rest.dropWhile Char.isDigit) ∧
      cs = '.' :: (rest.takeWhile Char.isDigit ++ rest.dropWhile Char.isDigit)) ∨
    fraction cs = ([], cs) := by
  cases cs with
  | nil => exact .inr rfl
  | cons c cs =>
    by_cases hc : c = '.'
    · subst hc
      exact .inl ⟨cs, rfl, by rw [List.takeWhile_append_dropWhile]⟩
    · right
      simp [fraction, hc]

/-- What the reader takes apart is a numeral, and stands for what the reader goes on with. -/
theorem numeral_of_decimal? {cs : List Char} {n : Nat} {e : Int} (h : decimal? cs = some (n, e)) :
    Numeral cs (n * 10 ^ e) := by
  simp only [decimal?, Option.bind_eq_bind, Option.bind_eq_some_iff, Option.pure_def,
    Option.some.injEq, Prod.mk.injEq, Decimal.ofDigits?_eq_some_iff, exponent?_eq_some_iff] at h
  obtain ⟨digits, hdigits, exponent, he, rfl, rfl⟩ := h
  have hcs : cs.takeWhile Char.isDigit ++ cs.dropWhile Char.isDigit = cs :=
    List.takeWhile_append_dropWhile
  generalize cs.takeWhile Char.isDigit = ds at *
  generalize cs.dropWhile Char.isDigit = rest at *
  subst hcs
  rcases append_fraction rest with ⟨behind, hfraction, rfl⟩ | hfraction
  · rw [hfraction] at hdigits he ⊢
    exact .pointed hdigits he
  · rw [hfraction] at hdigits he ⊢
    rw [List.append_nil] at hdigits
    rw [List.length_nil, Nat.cast_zero, sub_zero]
    exact .whole hdigits he

/-- The reader takes every numeral apart. -/
theorem exists_decimal?_of_numeral {cs : List Char} {q : ℚ} (h : Numeral cs q) :
    ∃ n e, decimal? cs = some (n, e) ∧ q = n * 10 ^ e := by
  cases h with
  | @whole ds es n e h he =>
    obtain ⟨htake, hdrop, hfraction⟩ := fraction_of_exponent he
    obtain ⟨hds, hes⟩ := span_digits h.isDigit ⟨htake, hdrop⟩
    refine ⟨n, e, ?_, rfl⟩
    simp [decimal?, hds, hes, hfraction, Decimal.ofDigits?_eq_some_iff.mpr h,
      exponent?_eq_some_iff.mpr he]
  | @pointed ds fs es n e h he =>
    obtain ⟨htake, hdrop, -⟩ := fraction_of_exponent he
    have hpoint : ('.' :: (fs ++ es)).takeWhile Char.isDigit = [] ∧
        ('.' :: (fs ++ es)).dropWhile Char.isDigit = '.' :: (fs ++ es) := ⟨rfl, rfl⟩
    obtain ⟨hds, hrest⟩ := span_digits
      (fun c hc => h.isDigit c (List.mem_append_left fs hc)) hpoint
    obtain ⟨hfs, hes⟩ := span_digits
      (fun c hc => h.isDigit c (List.mem_append_right ds hc)) ⟨htake, hdrop⟩
    refine ⟨n, e - fs.length, ?_, rfl⟩
    simp [decimal?, hds, hrest, fraction, hfs, hes, Decimal.ofDigits?_eq_some_iff.mpr h,
      exponent?_eq_some_iff.mpr he]

/-- A numeral does not start with a sign. -/
theorem not_numeral_plus (cs : List Char) (q : ℚ) : ¬ Numeral ('+' :: cs) q := by
  intro h
  obtain ⟨n, e, h, -⟩ := exists_decimal?_of_numeral h
  simp [decimal?, fraction, Decimal.ofDigits?] at h

end Binary64

/-- A text stands for one number at most. -/
theorem Denotes.unique {s : String} {p q : ℚ} (hp : Denotes s p) (hq : Denotes s q) : p = q := by
  rw [Denotes, Decimal.unsigned_iff Binary64.not_numeral_plus] at hp hq
  obtain ⟨m, e, hm, rfl⟩ := Binary64.exists_decimal?_of_numeral hp
  obtain ⟨n, f, hn, rfl⟩ := Binary64.exists_decimal?_of_numeral hq
  rw [hm] at hn
  cases hn
  rfl

namespace Binary64

/-- The reader rounds the number that a numeral stands for. -/
theorem roundsTo_of_denotes {s : String} {q : ℚ} (h : Denotes s q) :
    RoundsTo q (ofUnsigned? (Decimal.withoutPlus s.toList)) := by
  rw [Denotes, Decimal.unsigned_iff not_numeral_plus] at h
  obtain ⟨n, e, hn, rfl⟩ := exists_decimal?_of_numeral h
  rw [ofUnsigned?, hn]
  exact roundsTo_ofDecimal? n e

theorem exists_denotes_of_ofUnsigned? {s : String} {x : Binary64}
    (h : ofUnsigned? (Decimal.withoutPlus s.toList) = some x) : ∃ q, Denotes s q := by
  rw [ofUnsigned?] at h
  obtain ⟨⟨n, e⟩, hn, -⟩ := Option.bind_eq_some_iff.mp h
  exact ⟨_, (Decimal.unsigned_iff not_numeral_plus).mpr (numeral_of_decimal? hn)⟩

/-! ## Positive numbers -/

theorem canonical_least : (carried (zero.mantissa + 1) zero.exponent).Canonical :=
  canonical_carried (by decide) (.inr rfl) le_rfl (by decide)

/-- Nothing above half the least number is rounded to zero. -/
theorem Nearest.eq_zero_iff {q : ℚ} {x : Binary64} (h : Nearest q x) :
    x = zero ↔ q ≤ 2 ^ minExponent / 2 := by
  have hle := h.value_le_iff canonical_zero canonical_least
  rw [value_zero, zero_add] at hle
  have hzero : x = zero ↔ x.value ≤ 0 := by
    refine ⟨fun hx => by rw [hx, value_zero], fun hx => ?_⟩
    exact h.canonical.eq_of_value_eq canonical_zero
      ((le_antisymm hx x.value_nonneg).trans value_zero.symm)
  rw [hzero, hle, le_iff_lt_or_eq]
  exact or_congr_right (and_iff_left rfl)

/-- The reader of positive numbers gives the nearest one to what the text stands for, if that is
neither too large nor so small that it is rounded to zero. -/
theorem positive?_eq_some_iff {s : String} {x : Binary64} :
    positive? s = some x ↔
      ∃ q, Denotes s q ∧ 2 ^ minExponent / 2 < q ∧ q < overflow ∧ Nearest q x := by
  rw [positive?, Option.filter_eq_some_iff]
  constructor
  · rintro ⟨hx, hne⟩
    obtain ⟨q, hq⟩ := exists_denotes_of_ofUnsigned? hx
    have hround := roundsTo_of_denotes hq
    rw [hx] at hround
    obtain ⟨hlt, hnear⟩ := hround
    have hne : x ≠ zero := by simpa using hne
    exact ⟨q, hq, not_le.mp fun h => hne (hnear.eq_zero_iff.mpr h), hlt, hnear⟩
  · rintro ⟨q, hq, hpos, hlt, hnear⟩
    refine ⟨(roundsTo_of_denotes hq).unique ⟨hlt, hnear⟩, ?_⟩
    simpa using fun h => absurd hpos (hnear.eq_zero_iff.mp h).not_gt

/-- Every other text gives nothing. -/
theorem positive?_eq_none_iff {s : String} :
    positive? s = none ↔ ∀ q, Denotes s q → q ≤ 2 ^ minExponent / 2 ∨ overflow ≤ q := by
  constructor
  · intro h q hq
    by_contra hrange
    obtain ⟨hpos, hlt⟩ := not_or.mp hrange
    obtain ⟨x, -, hnear⟩ := (roundsTo_of_denotes hq).exists_of_lt (not_le.mp hlt)
    rw [positive?_eq_some_iff.mpr ⟨q, hq, not_le.mp hpos, not_le.mp hlt, hnear⟩] at h
    cases h
  · intro h
    cases hx : positive? s with
    | none => rfl
    | some x =>
      obtain ⟨q, hq, hpos, hlt, -⟩ := positive?_eq_some_iff.mp hx
      rcases h q hq with hle | hle
      · exact absurd hpos hle.not_gt
      · exact absurd hlt hle.not_gt

end Binary64

end PvNet
