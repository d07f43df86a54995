import PvNet.Proofs.Number.Numerals
set_option autoImplicit false

/-!
# Texts of floating-point numbers

Digits with an exponent of ten are written as a numeral that stands for exactly that
number (`Binary64.numeral_positional`).  Of the digits of a number only those are taken
that read back, so its text stands for something that is rounded to it, unless it is
the zero (`Binary64.exists_denotes_text`).
-/

namespace PvNet

namespace Decimal

variable {cs : List Char} {n : Nat}

theorem isDigit_of_mem_replicate {c : Char} {k : Nat} (h : c ∈ List.replicate k '0') :
    c.isDigit = true := by
  rw [List.eq_of_mem_replicate h]
  decide

/-- Zeros in front of digits do not count. -/
theorem Digits.replicate_append (h : Digits cs n) (k : Nat) :
    Digits (List.replicate k '0' ++ cs) n := by
  refine ⟨by simp [h.ne_nil], fun c hc => ?_, ?_⟩
  · exact (List.mem_append.mp hc).elim isDigit_of_mem_replicate (h.isDigit c)
  · rw [Nat.ofDigitChars_append, Nat.ofDigitChars_replicate_zero, Nat.mul_zero, h.value]

/-- Zeros behind digits are factors of ten. -/
theorem Digits.append_replicate (h : Digits cs n) (k : Nat) :
    Digits (cs ++ List.replicate k '0') (10 ^ k * n) := by
  refine ⟨by simp [h.ne_nil], fun c hc => ?_, ?_⟩
  · exact (List.mem_append.mp hc).elim (h.isDigit c) isDigit_of_mem_replicate
  · rw [Nat.ofDigitChars_append, h.value, Nat.ofDigitChars_replicate_zero]

end Decimal

namespace Binary64

open Decimal (Digits digits_toDigits)

/-- Digits with a decimal exponent are written with zeros behind them, or with a point in front of
as many digits as the exponent says. -/
theorem positional_cases (digits : Nat) (e : Int) :
    (∃ n : Nat, Digits (positional digits e).toList n ∧ (digits * 10 ^ e : ℚ) = n) ∨
      ∃ ds fs : List Char, (positional digits e).toList = ds ++ '.' :: fs ∧
        Digits (ds ++ fs) digits ∧ e = -fs.length := by
  have hdigits := digits_toDigits digits
  simp only [positional]
  split
  case isTrue h =>
    left
    obtain ⟨k, rfl⟩ := Int.eq_ofNat_of_zero_le h
    refine ⟨10 ^ k * digits, ?_, ?_⟩
    · rw [String.toList_ofList]
      exact hdigits.append_replicate k
    · push_cast
      rw [zpow_natCast, mul_comm]
  case isFalse h =>
    right
    obtain ⟨places, hplaces⟩ := Int.eq_ofNat_of_zero_le (show 0 ≤ -e by omega)
    rw [hplaces, Int.toNat_natCast]
    have hpadded := hdigits.replicate_append (places + 1 - (Nat.toDigits 10 digits).length)
    have hlength : places ≤ (List.replicate (places + 1 - (Nat.toDigits 10 digits).length) '0' ++
        Nat.toDigits 10 digits).length := by
      rw [List.length_append, List.length_replicate]
      omega
    generalize List.replicate (places + 1 - (Nat.toDigits 10 digits).length) '0' ++
      Nat.toDigits 10 digits = cs at hpadded hlength ⊢
    refine ⟨cs.take (cs.length - places), cs.drop (cs.length - places), ?_, ?_, ?_⟩
    · rw [String.toList_ofList, List.splitAt_eq]
    · rwa [List.take_append_drop]
    · rw [List.length_drop, Nat.sub_sub_self hlength, ← hplaces, neg_neg]

/-- What is written is a numeral that stands for just these digits with their exponent. -/
theorem numeral_positional (digits : Nat) (e : Int) :
    Numeral (positional digits e).toList (digits * 10 ^ e) := by
  rcases positional_cases digits e with ⟨n, hn, hvalue⟩ | ⟨ds, fs, htext, hdigits, he⟩
  · have h := Numeral.whole hn .absent
    rwa [List.append_nil, zpow_zero, mul_one, ← hvalue] at h
  · have h := Numeral.pointed hdigits .absent
    rwa [List.append_nil, zero_sub, ← he, ← htext] at h

/-- Of the digits of a number only those are taken that read back; without any, it is zero. -/
theorem shortestFrom_cases (x : Binary64) (fuel : Nat) (k : Int) :
    (x.shortestFrom fuel k).1 = 0 ∨
      ofDecimal? (x.shortestFrom fuel k).1 (x.shortestFrom fuel k).2 = some x := by
  induction fuel generalizing k with
  | zero => exact .inl rfl
  | succ fuel ih =>
    rw [shortestFrom]
    cases h : x.neighbours k with
    | nil => exact ih (k - 1)
    | cons d ds =>
      have hd : d ∈ x.neighbours k := h ▸ List.mem_cons_self
      exact .inr (of_decide_eq_true (List.mem_filter.mp hd).2)

theorem shortest_cases (x : Binary64) :
    x.shortest.1 = 0 ∨ ofDecimal? x.shortest.1 x.shortest.2 = some x :=
  x.shortestFrom_cases _ _

/-- The text of a number stands for zero, or for something that is rounded to the number. -/
theorem exists_denotes_text (x : Binary64) :
    ∃ q, Denotes x.text q ∧ (q = 0 ∨ RoundsTo q (some x)) := by
  unfold text
  split
  case isTrue h =>
    have hzero : Digits ['0'] 0 := ⟨by decide, by simp, by decide⟩
    refine ⟨_, .plain (Numeral.whole hzero .absent), .inl ?_⟩
    rw [Nat.cast_zero, zero_mul]
  case isFalse h =>
    refine ⟨x.shortest.1 * 10 ^ x.shortest.2, .plain (numeral_positional _ _), ?_⟩
    rcases x.shortest_cases with hzero | hread
    · left
      rw [hzero, Nat.cast_zero, zero_mul]
    · right
      rw [← hread]
      exact roundsTo_ofDecimal? _ _

/-- A number is written without blanks. -/
theorem isBlank_of_mem_text {x : Binary64} {c : Char} (h : c ∈ x.text.toList) :
    Text.isBlank c = false := by
  unfold text at h
  split at h
  · rw [show c = '0' by simpa using h]
    decide
  rcases positional_cases x.shortest.1 x.shortest.2 with ⟨n, hn, -⟩ | ⟨ds, fs, htext, hdigits, -⟩
  · exact Decimal.isBlank_of_isDigit (hn.isDigit c h)
  · rw [htext, List.mem_append, List.mem_cons] at h
    rcases h with h | rfl | h
    · exact Decimal.isBlank_of_isDigit (hdigits.isDigit c (List.mem_append_left fs h))
    · decide
    · exact Decimal.isBlank_of_isDigit (hdigits.isDigit c (List.mem_append_right ds h))

end Binary64

end PvNet
