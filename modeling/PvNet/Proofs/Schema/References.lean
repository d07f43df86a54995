import PvNet.Proofs.Schema.Levels
set_option autoImplicit false

/-!
# References to descriptors

A number that a receiver knows can be used in place of its descriptor, provided that
the levels of the descriptor fit where the reference stands.  A descriptor that
arrives in full is held to its nesting instead, so exactly those descriptors can be
defined but not referred to whose leaves lie one level below the limit.
-/

namespace PvNet

/-- The tables that a receiver can come to have: it starts without a number and decodes whatever
arrives, in any byte order. -/
inductive KnownTypes.Reached : KnownTypes → Prop where
  | empty : Reached {}
  | decode {t : KnownTypes} (h : Reached t) (o : ByteOrder) (bs : Bytes) :
      Reached (Field.decode?.run o t bs).state

namespace Field

open Decoder

theorem maintains_decode? :
    decode?.Maintains KnownTypes.Sound fun r => ∀ f, r = some f → f.nesting ≤ maxLevels := by
  have hlevelled := maintains_decodeLevelled (Nat.le_refl maxLevels)
    (maintains_decodeBody (Nat.le_refl maxLevels))
  refine hlevelled.bind fun r hr => Maintains.pure fun f hf => ?_
  obtain ⟨d, hd, rfl⟩ := Option.map_eq_some_iff.1 hf
  exact (hr d hd).nesting_le

end Field

/-- Every table that a receiver can come to have stores true levels. -/
theorem KnownTypes.Reached.sound {t : KnownTypes} (h : t.Reached) : t.Sound := by
  induction h with
  | empty => exact KnownTypes.sound_empty
  | decode _ o bs ih => exact (Field.maintains_decode? o _ bs ih).1

namespace Field

open Decoder

variable {o : ByteOrder} {t t' : KnownTypes} {n : UInt16} {d : Levelled} {room : Nat}

/-! ## The three forms of a descriptor -/

theorem run_decodeLevelled_reference (o : ByteOrder) (room : Nat) (h : t.find? n = some d)
    (rest : Bytes) :
    (decodeLevelled room).run o t (referenceCode :: (Wire.word16 o n ++ rest)) =
      if room < d.levels then ⟨.error (.nestingTooDeep maxLevels), t, rest⟩
      else ⟨.ok (some d), t, rest⟩ := by
  rw [decodeLevelled, run_octet_bind, if_neg (by decide), if_pos rfl,
    run_bind_of_ok (Reads.word16 o t n rest), run_bind_of_ok (run_get o t rest)]
  simp only [h]
  split
  · rfl
  · rfl

theorem reads_reference (h : t.find? n = some d) (hle : d.levels ≤ room) :
    (decodeLevelled room).Reads o t (referenceCode :: Wire.word16 o n) (some d) t := by
  intro rest
  rw [List.cons_append, run_decodeLevelled_reference o room h, if_neg (Nat.not_lt.2 hle)]

theorem reads_definition {code : UInt8} {bs : Bytes}
    (h : (decodeBody room code).Reads o t bs d t') :
    (decodeLevelled room).Reads o t (definitionCode :: (Wire.word16 o n ++ code :: bs)) (some d)
      (t'.define n d) := by
  rw [decodeLevelled]
  refine Reads.octet_bind o t ?_
  rw [if_neg (by decide), if_neg (by decide), if_pos rfl]
  refine (Reads.word16 o t n).bind (Reads.octet_bind o t (h.bind_pure ?_))
  exact fun _ => rfl

/-- Whether an octet starts a descriptor in full rather than one of the other forms. -/
def IsTypeCode (code : UInt8) : Prop :=
  code ≠ nullCode ∧ code ≠ referenceCode ∧ code ≠ definitionCode

instance (code : UInt8) : Decidable (IsTypeCode code) :=
  inferInstanceAs (Decidable (_ ∧ _ ∧ _))

theorem isTypeCode_typeCode (f : Field) : IsTypeCode f.typeCode := by
  cases f with
  | scalar s => cases s <;> decide
  | scalarArray s => cases s <;> decide
  | struct s =>
    show IsTypeCode structCode
    decide
  | structArray s =>
    show IsTypeCode structArrayCode
    decide

theorem reads_plain {code : UInt8} {bs : Bytes} (hcode : IsTypeCode code)
    (h : (decodeBody room code).Reads o t bs d t') :
    (decodeLevelled room).Reads o t (code :: bs) (some d) t' := by
  rw [decodeLevelled]
  refine Reads.octet_bind o t ?_
  rw [if_neg hcode.1, if_neg hcode.2.1, if_neg hcode.2.2]
  exact h.bind_pure (Reads.pure (some d) o t')

/-! ## The body of a descriptor -/

theorem reads_leaf {code : UInt8} {f : Field} (hstruct : code ≠ structCode)
    (harray : code ≠ structArrayCode) (h : ofLeafCode? code = some f) :
    (decodeBody room code).Reads o t [] ⟨f, 1⟩ t := by
  rw [decodeBody.eq_def, if_neg hstruct, if_neg harray, h]
  exact Reads.pure (⟨f, 1⟩ : Levelled) o t

/-- A scalar or an array of scalars is its type code, whatever room there is. -/
theorem reads_typeCode (o : ByteOrder) (t : KnownTypes) (room : Nat) {f : Field}
    (hleaf : f.isNumbered = false) :
    (decodeLevelled room).Reads o t [f.typeCode] (some ⟨f, f.levels⟩) t := by
  have hread : f.typeCode ≠ structCode ∧ f.typeCode ≠ structArrayCode ∧
      ofLeafCode? f.typeCode = some f ∧ f.levels = 1 := by
    cases f with
    | scalar s => cases s <;> exact ⟨by decide, by decide, rfl, rfl⟩
    | scalarArray s => cases s <;> exact ⟨by decide, by decide, rfl, rfl⟩
    | struct | structArray => cases hleaf
  rw [hread.2.2.2]
  exact reads_plain f.isTypeCode_typeCode (reads_leaf hread.1 hread.2.1 hread.2.2.1)

theorem reads_member {name : String} {bs : Bytes} (hname : name.utf8ByteSize ≤ Wire.maxSize)
    (h : (decodeLevelled room).Reads o t bs (some d) t') :
    (decodeMember room).Reads o t (Wire.string o name ++ bs) (name, d) t' := by
  rw [decodeMember]
  exact (Reads.string o t hname).bind (h.bind_pure (Reads.pure (name, d) o t'))

theorem reads_struct {id : String} {ms : List (String × Levelled)} {bs : Bytes}
    (hid : id.utf8ByteSize ≤ Wire.maxSize) (hcount : ms.length ≤ Wire.maxSize)
    (h : (times ms.length (decodeMember room)).Reads o t bs ms t') :
    (decodeBody (room + 1) structCode).Reads o t
      (Wire.string o id ++ Wire.length o ms.length ++ bs)
      ⟨.struct ⟨id, ms.map fun m => (m.1, m.2.field)⟩, levelsOver ms⟩ t' := by
  rw [decodeBody, if_pos rfl, List.append_assoc]
  refine (Reads.string o t hid).bind ((Reads.length o t hcount).bind (h.bind_pure ?_))
  exact Reads.pure _ o t'

theorem reads_structArray {s : Structure} {levels : Nat} {bs : Bytes}
    (h : (decodeLevelled room).Reads o t bs (some ⟨.struct s, levels⟩) t') :
    (decodeBody (room + 1) structArrayCode).Reads o t bs ⟨.structArray s, levels + 1⟩ t' := by
  rw [decodeBody, if_neg (by decide), if_pos rfl]
  exact h.bind_pure (Reads.pure _ o t')

/-- A structure fails as its first member does. -/
theorem run_decodeBody_of_member {id : String} {count : Nat} {e : WireError} {bs rest : Bytes}
    (hid : id.utf8ByteSize ≤ Wire.maxSize) (hcount : count + 1 ≤ Wire.maxSize)
    (h : (decodeMember room).run o t bs = ⟨.error e, t', rest⟩) :
    (decodeBody (room + 1) structCode).run o t
        (Wire.string o id ++ (Wire.length o (count + 1) ++ bs)) = ⟨.error e, t', rest⟩ := by
  rw [decodeBody, if_pos rfl, run_bind_of_ok (Reads.string o t hid _),
    run_bind_of_ok (Reads.length o t hcount _), times_succ]
  exact run_bind_of_error (run_bind_of_error h)

/-- A definition that succeeds stores what it returns. -/
theorem exists_of_run_definition {bs rest : Bytes} {r : Option Levelled}
    (h : (decodeLevelled room).run o t (definitionCode :: (Wire.word16 o n ++ bs)) =
      ⟨.ok r, t', rest⟩) :
    ∃ (code : UInt8) (cs : Bytes) (d : Levelled) (u : KnownTypes), bs = code :: cs ∧ r = some d ∧
      t' = u.define n d ∧ (decodeBody room code).run o t cs = ⟨.ok d, u, rest⟩ := by
  rw [decodeLevelled, run_octet_bind, if_neg (by decide), if_neg (by decide), if_pos rfl,
    run_bind_of_ok (Reads.word16 o t n bs)] at h
  cases bs with
  | nil => cases h
  | cons code cs =>
    rw [run_octet_bind] at h
    obtain ⟨d, u, cs', hbody, h⟩ := exists_of_run_bind h
    obtain ⟨hr, rfl, rfl⟩ := Outcome.mk.inj h
    obtain rfl : some d = r := Except.ok.inj hr
    exact ⟨code, cs, d, u, rfl, rfl, rfl, hbody⟩

/-! ## Definition and reference -/

/-- After a definition has arrived at the top, a reference to its number succeeds exactly if the
levels of the descriptor, leaves included, are within the limit.  The definition itself was held to
the nesting, which leaves one case out: a leaf one level below the limit. -/
theorem reference_after_definition {bs rest : Bytes} {f : Field} (ht : t.Reached)
    (h : decode?.run o t (definitionCode :: (Wire.word16 o n ++ bs)) = ⟨.ok (some f), t', rest⟩) :
    (∀ o' rest', decode?.run o' t' (referenceCode :: (Wire.word16 o' n ++ rest')) =
      if f.levels ≤ maxLevels then ⟨.ok (some f), t', rest'⟩
      else ⟨.error (.nestingTooDeep maxLevels), t', rest'⟩) ∧
      f.nesting ≤ maxLevels ∧ f.levels ≤ maxLevels + 1 := by
  obtain ⟨r, u, cs, hlevelled, hpure⟩ := exists_of_run_bind h
  obtain ⟨code, bs', d, t₁, rfl, rfl, rfl, hbody⟩ := exists_of_run_definition hlevelled
  obtain ⟨hf, rfl, rfl⟩ := Outcome.mk.inj hpure
  obtain rfl : d.field = f := Option.some.inj (Except.ok.inj hf)
  have hwithin := (maintains_decodeBody (Nat.le_refl maxLevels) code o t bs' ht.sound).2 d
    (by rw [hbody])
  have hbounds := nesting_le_levels d.field
  refine ⟨fun o' rest' => ?_, hwithin.nesting_le, ?_⟩
  · have hfind : (t₁.define n d).find? n = some d := by
      rw [KnownTypes.find?_define, if_pos rfl]
    have hrun := run_decodeLevelled_reference o' maxLevels hfind rest'
    rw [hwithin.levels_eq] at hrun
    by_cases hle : d.field.levels ≤ maxLevels
    · rw [if_neg (Nat.not_lt.2 hle)] at hrun
      rw [if_pos hle]
      exact run_bind_of_ok hrun
    · rw [if_pos (Nat.lt_of_not_le hle)] at hrun
      rw [if_neg hle]
      exact run_bind_of_error hrun
  · have hnesting := hwithin.nesting_le
    omega

/-- Structures without a name, each the only member of the next, around an integer. -/
def nested : Nat → Field
  | 0 => .scalar .int
  | n + 1 => .struct ⟨"", [("", nested n)]⟩

theorem levels_nested (n : Nat) : (nested n).levels = n + 1 := by
  induction n with
  | zero => rfl
  | succ n ih => simp [nested, Field.height, Structure.height, Structure.memberHeight, ih]

/-- The descriptor of `nested` in full, without numbers. -/
def nestedOctets (o : ByteOrder) : Nat → Bytes
  | 0 => [(Field.scalar .int).typeCode]
  | n + 1 =>
    structCode :: (Wire.string o "" ++ Wire.length o 1 ++ (Wire.string o "" ++ nestedOctets o n))

theorem reads_nestedBody {o : ByteOrder} {t : KnownTypes} {n room : Nat}
    (h : (decodeLevelled room).Reads o t (nestedOctets o n) (some ⟨nested n, n + 1⟩) t) :
    (decodeBody (room + 1) structCode).Reads o t
      (Wire.string o "" ++ Wire.length o 1 ++ (Wire.string o "" ++ nestedOctets o n))
      ⟨nested (n + 1), n + 2⟩ t := by
  have hempty : "".utf8ByteSize ≤ Wire.maxSize := by decide
  have hmembers : (times [("", (⟨nested n, n + 1⟩ : Levelled))].length (decodeMember room)).Reads
      o t (Wire.string o "" ++ nestedOctets o n) [("", ⟨nested n, n + 1⟩)] t := by
    have hone := Reads.times_succ (reads_member hempty h) (Reads.times_zero _ o t)
    rwa [List.append_nil] at hone
  have hlevels : levelsOver [("", ⟨nested n, n + 1⟩)] = n + 2 := by
    show max 1 (n + 1 + 1) = n + 2
    omega
  have hstruct := reads_struct hempty (by simp [Wire.maxSize]) hmembers
  rwa [hlevels] at hstruct

/-- In full a leaf needs no room of its own. -/
theorem reads_nestedOctets (o : ByteOrder) (t : KnownTypes) {n room : Nat} (h : n ≤ room) :
    (decodeLevelled room).Reads o t (nestedOctets o n) (some ⟨nested n, n + 1⟩) t := by
  induction n generalizing room with
  | zero => exact reads_typeCode o t room rfl
  | succ n ih =>
    obtain ⟨room, rfl⟩ := Nat.exists_eq_add_of_le' (Nat.le_trans (Nat.le_add_left 1 n) h)
    exact reads_plain (by decide) (reads_nestedBody (ih (Nat.le_of_succ_le_succ h)))

theorem reads_definition_nested (o : ByteOrder) (t : KnownTypes) (number : UInt16) {n : Nat}
    (h : n < maxLevels) :
    decode?.Reads o t (definitionCode :: (Wire.word16 o number ++ nestedOctets o (n + 1)))
      (some (nested (n + 1))) (t.define number ⟨nested (n + 1), n + 2⟩) :=
  (reads_definition (reads_nestedBody (reads_nestedOctets o t (Nat.le_of_lt_succ h)))).bind_pure
    (Reads.pure _ o _)

/-- With its leaf on the last level a descriptor can be defined and referred to. -/
theorem reference_after_definition_at_limit :
    KnownTypes.Reached {} ∧
      decode?.run .big {} (definitionCode :: (Wire.word16 .big 1 ++ nestedOctets .big 63)) =
        ⟨.ok (some (nested 63)), ⟨[(1, ⟨nested 63, 64⟩)]⟩, []⟩ ∧
      decode?.run .little ⟨[(1, ⟨nested 63, 64⟩)]⟩
          (referenceCode :: (Wire.word16 .little 1 ++ [])) =
        ⟨.ok (some (nested 63)), ⟨[(1, ⟨nested 63, 64⟩)]⟩, []⟩ := by
  have hdefine := reads_definition_nested .big {} 1 (show 62 < maxLevels by decide) []
  rw [List.append_nil] at hdefine
  have href := (reference_after_definition KnownTypes.Reached.empty hdefine).1 .little []
  rw [levels_nested, if_pos (by decide)] at href
  exact ⟨.empty, hdefine, href⟩

/-- With its leaf one level further down it can be defined but not referred to. -/
theorem definition_not_referable :
    decode?.run .big {} (definitionCode :: (Wire.word16 .big 1 ++ nestedOctets .big 64)) =
        ⟨.ok (some (nested 64)), ⟨[(1, ⟨nested 64, 65⟩)]⟩, []⟩ ∧
      decode?.run .big ⟨[(1, ⟨nested 64, 65⟩)]⟩ (referenceCode :: (Wire.word16 .big 1 ++ [])) =
        ⟨.error (.nestingTooDeep maxLevels), ⟨[(1, ⟨nested 64, 65⟩)]⟩, []⟩ := by
  have hdefine := reads_definition_nested .big {} 1 (show 63 < maxLevels by decide) []
  rw [List.append_nil] at hdefine
  have hfind : (⟨[(1, ⟨nested 64, 65⟩)]⟩ : KnownTypes).find? 1 = some ⟨nested 64, 65⟩ := rfl
  have href := run_decodeLevelled_reference .big maxLevels hfind []
  exact ⟨hdefine, run_bind_of_error href⟩

end Field

end PvNet
