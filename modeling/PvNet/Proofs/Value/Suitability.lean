import PvNet.Proofs.Wire.Invariants
import PvNet.Value.Decode
set_option autoImplicit false

/-!
# Values that suit a descriptor

What a value looks like once its descriptor admits it: the constructors are the same,
and there is one value for every member.  Every value that is read by a descriptor
suits it, and its strings and arrays are no longer than the size field can say.
-/

namespace PvNet

namespace Field

variable {v : Value}

theorem exists_of_admits_scalar {t : ScalarType} (h : (Field.scalar t).admits v = true) :
    ∃ value, v = .scalar value ∧ value.type = t := by
  cases v with
  | scalar value => exact ⟨value, rfl, by simpa [admits] using h⟩
  | _ => simp [admits] at h

theorem exists_of_admits_scalarArray {t : ScalarType} (h : (Field.scalarArray t).admits v = true) :
    ∃ items, v = .scalarArray items ∧ ∀ item ∈ items, item.type = t := by
  cases v with
  | scalarArray items => exact ⟨items, rfl, by simpa [admits] using h⟩
  | _ => simp [admits] at h

theorem exists_of_admits_struct {s : Structure} (h : (Field.struct s).admits v = true) :
    ∃ members, v = .struct members ∧ s.admits members = true := by
  cases v with
  | struct members => exact ⟨members, rfl, by simpa [admits] using h⟩
  | _ => simp [admits] at h

theorem exists_of_admits_structArray {s : Structure} (h : (Field.structArray s).admits v = true) :
    ∃ elements, v = .structArray elements ∧
      ∀ members, some members ∈ elements → s.admits members = true := by
  cases v with
  | structArray elements =>
    refine ⟨elements, rfl, fun members hmem => ?_⟩
    simp only [admits, List.all_eq_true] at h
    exact h _ hmem
  | _ => simp [admits] at h

end Field

namespace Structure

variable {name : String} {f : Field} {ms : List (String × Field)} {vs : List Value}

theorem eq_nil_of_admitsMembers (h : admitsMembers [] vs = true) : vs = [] := by
  cases vs with
  | nil => rfl
  | cons v vs => simp [admitsMembers] at h

theorem exists_of_admitsMembers (h : admitsMembers ((name, f) :: ms) vs = true) :
    ∃ v vs', vs = v :: vs' ∧ f.admits v = true ∧ admitsMembers ms vs' = true := by
  cases vs with
  | nil => simp [admitsMembers] at h
  | cons v vs =>
    rw [admitsMembers, Bool.and_eq_true] at h
    exact ⟨v, vs, rfl, h⟩

theorem length_eq_of_admitsMembers (h : admitsMembers ms vs = true) : vs.length = ms.length := by
  induction ms generalizing vs with
  | nil => rw [eq_nil_of_admitsMembers h, List.length_nil, List.length_nil]
  | cons m ms ih =>
    obtain ⟨v, vs, rfl, _, hvs⟩ := exists_of_admitsMembers h
    rw [List.length_cons, List.length_cons, ih hvs]

end Structure

/-! ## Sizes -/

/-- Whether the size field can hold the size of a string. -/
def ScalarValue.fits : ScalarValue → Bool
  | .string text => text.utf8ByteSize ≤ Wire.maxSize
  | _ => true

mutual

/-- Whether the size field can hold the sizes of all strings and arrays in a value. -/
def Value.fits : Value → Bool
  | .scalar v => v.fits
  | .scalarArray items => items.length ≤ Wire.maxSize && items.all ScalarValue.fits
  | .struct members => Value.membersFit members
  | .structArray elements => elements.length ≤ Wire.maxSize && Value.elementsFit elements
termination_by structural v => v

/-- Whether the size field can hold the sizes in all members of a structure. -/
def Value.membersFit : List Value → Bool
  | [] => true
  | v :: vs => v.fits && Value.membersFit vs
termination_by structural vs => vs

/-- Whether the size field can hold the sizes in all elements of an array of structures. -/
def Value.elementsFit : List (Option (List Value)) → Bool
  | [] => true
  | e :: es => Value.elementFits e && Value.elementsFit es
termination_by structural es => es

/-- Whether the size field can hold the sizes in an element of an array of structures. -/
def Value.elementFits : Option (List Value) → Bool
  | none => true
  | some members => Value.membersFit members
termination_by structural e => e

end

theorem Value.elementsFit_iff (es : List (Option (List Value))) :
    Value.elementsFit es = true ↔
      ∀ members, some members ∈ es → Value.membersFit members = true := by
  induction es with
  | nil => simp [Value.elementsFit]
  | cons e es ih => cases e <;> simp [Value.elementsFit, Value.elementFits, ih]

/-! ## Values that are read -/

open Decoder

variable {σ : Type} {I : σ → Prop}

theorem ScalarType.maintains_decode (t : ScalarType) :
    (t.decode : Decoder σ ScalarValue).Maintains I fun v => v.type = t ∧ v.fits = true := by
  cases t with
  | boolean => exact Maintains.bool.map fun _ _ => ⟨rfl, rfl⟩
  | byte | ubyte => exact Maintains.octet.map fun _ _ => ⟨rfl, rfl⟩
  | short | ushort => exact Maintains.word16.map fun _ _ => ⟨rfl, rfl⟩
  | int | uint | float => exact Maintains.word32.map fun _ _ => ⟨rfl, rfl⟩
  | long | ulong | double => exact Maintains.word64.map fun _ _ => ⟨rfl, rfl⟩
  | string => exact Maintains.string.map fun _ h => ⟨rfl, decide_eq_true h⟩

mutual

/-- What is read suits the descriptor and could be written. -/
theorem Field.maintains_decodeFitting :
    ∀ f : Field, (f.decodeValue : Decoder σ Value).Maintains I
      fun v => f.admits v = true ∧ v.fits = true
  | .scalar t => t.maintains_decode.map fun v hv => ⟨decide_eq_true hv.1, hv.2⟩
  | .scalarArray t => by
    refine Maintains.length.bind fun count hcount =>
      (t.maintains_decode.times count).bind fun items hitems => Maintains.pure ⟨?_, ?_⟩
    · rw [Field.admits, List.all_eq_true]
      exact fun item hitem => decide_eq_true (hitems.2 item hitem).1
    · rw [Value.fits, hitems.1, decide_eq_true hcount, Bool.true_and, List.all_eq_true]
      exact fun item hitem => (hitems.2 item hitem).2
  | .struct s => (Structure.maintains_decodeFitting s).map fun _ hmembers => hmembers
  | .structArray s => by
    have helement : (do if ← bool then some <$> s.decodeValue else pure none :
        Decoder σ (Option (List Value))).Maintains I fun element => ∀ members,
          element = some members → s.admits members = true ∧ Value.membersFit members = true := by
      refine Maintains.bool.bind fun present _ => ?_
      cases present with
      | true =>
        refine (Structure.maintains_decodeFitting s).map fun members hmembers members' h => ?_
        obtain rfl := Option.some.inj h
        exact hmembers
      | false => exact Maintains.pure fun members h => nomatch h
    refine Maintains.length.bind fun count hcount =>
      (helement.times count).bind fun elements helements => Maintains.pure ⟨?_, ?_⟩
    · rw [Field.admits, List.all_eq_true]
      intro element hmem
      cases element with
      | none => rfl
      | some members => exact (helements.2 _ hmem members rfl).1
    · rw [Value.fits, helements.1, decide_eq_true hcount, Bool.true_and, Value.elementsFit_iff]
      exact fun members hmem => (helements.2 _ hmem members rfl).2

theorem Structure.maintains_decodeFitting :
    ∀ s : Structure, (s.decodeValue : Decoder σ (List Value)).Maintains I
      fun members => s.admits members = true ∧ Value.membersFit members = true
  | ⟨_, ms⟩ => Structure.maintains_decodeMembersFitting ms

theorem Structure.maintains_decodeMembersFitting :
    ∀ ms : List (String × Field),
      (Structure.decodeMemberValues ms : Decoder σ (List Value)).Maintains I
        fun vs => Structure.admitsMembers ms vs = true ∧ Value.membersFit vs = true
  | [] => Maintains.pure ⟨rfl, rfl⟩
  | (_, f) :: ms => by
    refine (Field.maintains_decodeFitting f).bind fun v hv =>
      (Structure.maintains_decodeMembersFitting ms).bind fun vs hvs => Maintains.pure ?_
    rw [Structure.admitsMembers, Value.membersFit, hv.1, hv.2, hvs.1, hvs.2]
    exact ⟨rfl, rfl⟩

end

/-- Every value that is read by a descriptor suits it. -/
theorem Field.maintains_decodeValue (f : Field) :
    (f.decodeValue : Decoder σ Value).Maintains I fun v => f.admits v = true :=
  f.maintains_decodeFitting.mono fun _ h => h.1

end PvNet
