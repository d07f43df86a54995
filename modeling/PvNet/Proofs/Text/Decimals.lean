import PvNet.Proofs.Text.Blanks
import PvNet.Text.Decimal
set_option autoImplicit false

/-!
# Texts of whole numbers

The texts that stand for whole numbers, as a grammar that mentions no reader: one
or more digits, with a plus sign in front of them or without.  The readers accept
exactly these texts (`below?_eq_some_iff`).  Digits without leading zeros are the
decimal text of their number (`Digits.eq_toDigits`), so whoever asks for that reads
back only what was written.
-/

namespace PvNet.Decimal

/-- One or more decimal digits and the number that they stand for. -/
structure Digits (cs : List Char) (n : Nat) : Prop where
  ne_nil : cs ≠ []
  isDigit : ∀ c ∈ cs, c.isDigit = true
  value : Nat.ofDigitChars 10 cs 0 = n

/-- What is written with a grammar, with or without a plus sign in front of it. -/
inductive Unsigned {α : Type} (P : List Char → α → Prop) : List Char → α → Prop where
  | plain {cs : List Char} {a : α} (h : P cs a) : Unsigned P cs a
  | plus {cs : List Char} {a : α} (h : P cs a) : Unsigned P ('+' :: cs) a

/-- A text that stands for a whole number. -/
def Whole (s : String) (n : Nat) : Prop := Unsigned Digits s.toList n

theorem digit?_eq (c : Char) : digit? c = if c.isDigit then some (c.toNat - 48) else none := by
  have h : ('0' ≤ c ∧ c ≤ '9') ↔ c.isDigit = true := by
    simp [Char.isDigit, Char.le_def]
  simp [digit?, h]

theorem continue?_eq_some_iff {cs : List Char} {n m : Nat} :
    continue? n cs = some m ↔ (∀ c ∈ cs, c.isDigit = true) ∧ Nat.ofDigitChars 10 cs n = m := by
  induction cs generalizing n with
  | nil => simp [continue?]
  | cons c cs ih =>
    simp only [continue?, digit?_eq, Nat.ofDigitChars_cons, List.forall_mem_cons]
    cases hc : c.isDigit with
    | false => simp
    | true => simp [ih]

theorem ofDigits?_eq_some_iff {cs : List Char} {n : Nat} :
    ofDigits? cs = some n ↔ Digits cs n := by
  unfold ofDigits?
  cases cs with
  | nil => exact iff_of_false (by simp) fun h => h.ne_nil rfl
  | cons c cs =>
    rw [if_neg (by simp), continue?_eq_some_iff]
    exact ⟨fun h => ⟨by simp, h.1, h.2⟩, fun h => ⟨h.isDigit, h.value⟩⟩

theorem withoutPlus_of_ne {c : Char} {cs : List Char} (h : c ≠ '+') :
    withoutPlus (c :: cs) = c :: cs := by
  simp [withoutPlus, h]

/-- Digits do not start with a sign. -/
theorem not_digits_plus (cs : List Char) (n : Nat) : ¬ Digits ('+' :: cs) n := fun h =>
  absurd (h.isDigit '+' List.mem_cons_self) (by decide)

/-- Where nothing that is written starts with a plus sign, one plus sign in front is left out. -/
theorem unsigned_iff {α : Type} {P : List Char → α → Prop} (hP : ∀ cs a, ¬ P ('+' :: cs) a)
    {cs : List Char} {a : α} : Unsigned P cs a ↔ P (withoutPlus cs) a := by
  constructor
  · rintro (h | h)
    · cases cs with
      | nil => exact h
      | cons c cs =>
        have hc : c ≠ '+' := by
          rintro rfl
          exact hP cs a h
        rwa [withoutPlus_of_ne hc]
    · exact h
  · intro h
    cases cs with
    | nil => exact .plain h
    | cons c cs =>
      by_cases hc : c = '+'
      · subst hc
        exact .plus h
      · rw [withoutPlus_of_ne hc] at h
        exact .plain h

theorem below?_eq_some_iff {limit n : Nat} {s : String} :
    below? limit s = some n ↔ Whole s n ∧ n < limit := by
  rw [Whole, unsigned_iff not_digits_plus, ← ofDigits?_eq_some_iff]
  simp [below?, Option.filter_eq_some_iff]

theorem below?_eq_none_iff {limit : Nat} {s : String} :
    below? limit s = none ↔ ¬ ∃ n, Whole s n ∧ n < limit := by
  simp only [Option.eq_none_iff_forall_ne_some, ne_eq, below?_eq_some_iff, not_exists]

theorem word16?_eq_none_iff {s : String} :
    word16? s = none ↔ ¬ ∃ n, Whole s n ∧ n < 65536 := by
  rw [word16?, Option.map_eq_none_iff, below?_eq_none_iff]

theorem word32?_eq_none_iff {s : String} :
    word32? s = none ↔ ¬ ∃ n, Whole s n ∧ n < 4294967296 := by
  rw [word32?, Option.map_eq_none_iff, below?_eq_none_iff]

/-! ## The text of a number -/

theorem digits_toDigits (n : Nat) : Digits (Nat.toDigits 10 n) n :=
  ⟨Nat.toDigits_ne_nil, fun _ hc => Nat.isDigit_of_mem_toDigits (by decide) (by decide) hc,
    Nat.ofDigitChars_ten_toDigits⟩

theorem bounds_of_isDigit {c : Char} (h : c.isDigit = true) : 48 ≤ c.toNat ∧ c.toNat ≤ 57 := by
  simpa [Char.isDigit, UInt32.le_iff_toNat_le] using h

theorem isBlank_of_isDigit {c : Char} (h : c.isDigit = true) : Text.isBlank c = false := by
  obtain ⟨hlow, hhigh⟩ := bounds_of_isDigit h
  simp [Text.isBlank]
  omega

/-- The characters of a whole number. -/
theorem Whole.isDigit_or_plus {s : String} {n : Nat} (h : Whole s n) :
    ∀ c ∈ s.toList, c.isDigit = true ∨ c = '+' := by
  intro c hc
  rw [Whole] at h
  generalize s.toList = cs at h hc
  cases h with
  | plain h => exact .inl (h.isDigit c hc)
  | plus h =>
    rcases List.mem_cons.mp hc with rfl | hc
    · exact .inr rfl
    · exact .inl (h.isDigit c hc)

/-- A number is written as a text that stands for it. -/
theorem whole_toString (n : Nat) : Whole (toString n) n := by
  rw [Whole, Nat.toString_eq_ofList_toDigits, String.toList_ofList]
  exact .plain (digits_toDigits n)

theorem isDigit_of_mem_toString {n : Nat} {c : Char} (h : c ∈ (toString n).toList) :
    c.isDigit = true := by
  rw [Nat.toString_eq_ofList_toDigits, String.toList_ofList] at h
  exact (digits_toDigits n).isDigit c h

theorem trim_toString (n : Nat) : Text.trim (toString n) = toString n :=
  Text.trim_eq_self_of_forall fun _ hc => isBlank_of_isDigit (isDigit_of_mem_toString hc)

theorem word16?_toString (n : UInt16) : word16? (toString n.toNat) = some n := by
  have h := below?_eq_some_iff.mpr ⟨whole_toString n.toNat, n.toNat_lt⟩
  rw [word16?, h, Option.map_some, UInt16.ofNat_toNat]

theorem word32?_toString (n : UInt32) : word32? (toString n.toNat) = some n := by
  have h := below?_eq_some_iff.mpr ⟨whole_toString n.toNat, n.toNat_lt⟩
  rw [word32?, h, Option.map_some, UInt32.ofNat_toNat]

/-- The digit that a character is. -/
theorem digitChar_of_isDigit {c : Char} (h : c.isDigit = true) :
    c.toNat - 48 < 10 ∧ Nat.digitChar (c.toNat - 48) = c := by
  obtain ⟨hlow, hhigh⟩ := bounds_of_isDigit h
  have hlt : c.toNat - 48 < 10 := by omega
  refine ⟨hlt, Char.toNat_inj.mp ?_⟩
  rw [Nat.toNat_digitChar_of_lt_ten hlt]
  omega

/-- The text of a number has no leading zero, except for that of zero itself. -/
theorem head?_toDigits {n : Nat} (hn : 0 < n) : (Nat.toDigits 10 n).head? ≠ some '0' := by
  induction n using Nat.strongRecOn with
  | ind n ih =>
    rcases Nat.lt_or_ge n 10 with hlt | hle
    · rw [Nat.toDigits_of_lt_base hlt]
      simpa using Nat.ne_of_gt hn
    · have hdiv := ih (n / 10) (Nat.div_lt_self hn (by decide)) (Nat.div_pos hle (by decide))
      rw [Nat.toDigits_of_base_le (by decide) hle]
      cases hcs : Nat.toDigits 10 (n / 10) with
      | nil => exact absurd hcs Nat.toDigits_ne_nil
      | cons c cs => rwa [hcs] at hdiv

/-- Digits behind the text of a positive number continue it. -/
theorem toDigits_append {cs : List Char} (hcs : ∀ c ∈ cs, c.isDigit = true) {n : Nat} (hn : 0 < n) :
    Nat.toDigits 10 n ++ cs = Nat.toDigits 10 (Nat.ofDigitChars 10 cs n) := by
  induction cs generalizing n with
  | nil => rw [List.append_nil, Nat.ofDigitChars_nil]
  | cons c cs ih =>
    obtain ⟨hlt, hchar⟩ := digitChar_of_isDigit (hcs c List.mem_cons_self)
    have hnext : Nat.toDigits 10 n ++ [c] = Nat.toDigits 10 (10 * n + (c.toNat - 48)) := by
      rw [← Nat.toDigits_append_toDigits (by decide) hn hlt, Nat.toDigits_of_lt_base hlt, hchar]
    rw [Nat.ofDigitChars_cons, List.append_cons, hnext]
    exact ih (fun d hd => hcs d (List.mem_cons_of_mem c hd)) (by omega)

/-- Digits without leading zeros are the text of their number. -/
theorem Digits.eq_toDigits {cs : List Char} {n : Nat} (h : Digits cs n)
    (hzero : cs.length = 1 ∨ cs.head? ≠ some '0') : cs = Nat.toDigits 10 n := by
  cases cs with
  | nil => exact absurd rfl h.ne_nil
  | cons c cs =>
    obtain ⟨hlt, hchar⟩ := digitChar_of_isDigit (h.isDigit c List.mem_cons_self)
    have hfirst : Nat.toDigits 10 (c.toNat - 48) = [c] := by
      rw [Nat.toDigits_of_lt_base hlt, hchar]
    rw [← h.value, Nat.ofDigitChars_cons, Nat.mul_zero, Nat.zero_add]
    rcases hzero with hone | hne
    · have hnil : cs = [] := List.length_eq_zero_iff.mp (Nat.succ.inj hone)
      subst hnil
      exact hfirst.symm
    · have hpos : 0 < c.toNat - 48 := by
        refine Nat.pos_of_ne_zero fun h0 => hne ?_
        rw [h0] at hchar
        rw [← hchar]
        rfl
      have happend := toDigits_append (fun d hd => h.isDigit d (List.mem_cons_of_mem c hd)) hpos
      rwa [hfirst] at happend

end PvNet.Decimal
