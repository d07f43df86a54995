import PvNet.Proofs.Value.Suitability
import PvNet.Proofs.Wire.Emission
import PvNet.Proofs.Wire.Reading
import PvNet.Value.Decode
set_option autoImplicit false

/-!
# Values read back as they were written

A value can be written against a descriptor exactly if the descriptor admits it, and
then reading gives the value back, bit by bit, and stops where the value ends.  The
only limit is the size field: strings and arrays have to fit in it.
-/

namespace PvNet

/-! ## What can be written -/

/-- Writes an element of an array of structures, its presence in front. -/
def Structure.encodeElement (o : ByteOrder) (s : Structure) : Option (List Value) → Emission
  | none => .ofBytes (Wire.bool false)
  | some members => .ofBytes (Wire.bool true) ++ s.encodeValue o members

theorem Field.encodeValue_structArray (o : ByteOrder) (s : Structure)
    (elements : List (Option (List Value))) :
    (Field.structArray s).encodeValue o (.structArray elements) =
      .ofBytes (Wire.length o elements.length) ++ .ofList (s.encodeElement o) elements := by
  rw [Field.encodeValue]
  congr 2

mutual

/-- A value can be written exactly if the descriptor admits it. -/
theorem Field.fault_encodeValue_iff (o : ByteOrder) :
    ∀ (f : Field) (v : Value), (f.encodeValue o v).fault = none ↔ f.admits v = true
  | .scalar t, v => by
    cases v with
    | scalar v =>
      simp only [Field.encodeValue, Field.admits, decide_eq_true_eq]
      split <;> simp_all
    | _ => simp [Field.encodeValue, Field.admits]
  | .scalarArray t, v => by
    cases v with
    | scalarArray items =>
      simp only [Field.encodeValue, Field.admits, Emission.fault_append, Emission.fault_ofBytes,
        Option.none_or, Emission.fault_ofList_eq_none_iff, List.all_eq_true, decide_eq_true_eq]
      refine forall₂_congr fun item _ => ?_
      split <;> simp_all
    | _ => simp [Field.encodeValue, Field.admits]
  | .struct s, v => by
    cases v with
    | struct members =>
      simpa only [Field.encodeValue, Field.admits] using Structure.fault_encodeValue_iff o s members
    | _ => simp [Field.encodeValue, Field.admits]
  | .structArray s, v => by
    cases v with
    | structArray elements =>
      simp only [Field.encodeValue_structArray, Field.admits, Emission.fault_append,
        Emission.fault_ofBytes, Option.none_or, Emission.fault_ofList_eq_none_iff,
        List.all_eq_true]
      refine forall₂_congr fun e _ => ?_
      cases e with
      | none => simp [Structure.encodeElement]
      | some members =>
        rw [Structure.encodeElement, Emission.fault_append, Emission.fault_ofBytes, Option.none_or]
        exact Structure.fault_encodeValue_iff o s members
    | _ => simp [Field.encodeValue, Field.admits]

theorem Structure.fault_encodeValue_iff (o : ByteOrder) :
    ∀ (s : Structure) (members : List Value),
      (s.encodeValue o members).fault = none ↔ s.admits members = true
  | ⟨id, ms⟩, members => by
    rw [Structure.encodeValue, Structure.admits]
    split
    · rename_i hlen
      exact Structure.fault_encodeMemberValues_iff o ms members hlen
    · rename_i hlen
      simp only [Emission.fault_fail, reduceCtorEq, false_iff, Bool.not_eq_true]
      exact Bool.eq_false_iff.2 fun h => hlen (Structure.length_eq_of_admitsMembers h)

theorem Structure.fault_encodeMemberValues_iff (o : ByteOrder) :
    ∀ (ms : List (String × Field)) (vs : List Value), vs.length = ms.length →
      ((Structure.encodeMemberValues o ms vs).fault = none ↔
        Structure.admitsMembers ms vs = true)
  | [], [], _ => by simp [Structure.encodeMemberValues, Structure.admitsMembers]
  | (_, f) :: ms, v :: vs, hlen => by
    simp only [Structure.encodeMemberValues, Structure.admitsMembers, Emission.fault_append,
      Option.or_eq_none_iff, Bool.and_eq_true, Field.fault_encodeValue_iff o f v,
      Structure.fault_encodeMemberValues_iff o ms vs (by simpa using hlen)]
  | [], _ :: _, hlen => by simp at hlen
  | _ :: _, [], hlen => by simp at hlen

end

/-- A value that cannot be written is reported as a mismatch. -/
theorem ScalarValue.fault_encode_mismatch (o : ByteOrder) (f : Field) (t : ScalarType)
    (v : ScalarValue) (e : WireError)
    (h : (if v.type = t then Emission.ofBytes (v.encode o) else .fail f.mismatch).fault = some e) :
    ∃ what, e = .mismatch what := by
  split at h
  · simp at h
  · exact ⟨_, (Option.some.inj h).symm⟩

mutual

theorem Field.fault_encodeValue_mismatch (o : ByteOrder) :
    ∀ (f : Field) (v : Value) (e : WireError),
      (f.encodeValue o v).fault = some e → ∃ what, e = .mismatch what
  | .scalar t, v, e, h => by
    cases v with
    | scalar v => exact ScalarValue.fault_encode_mismatch o _ t v e h
    | _ => exact ⟨_, (Option.some.inj h).symm⟩
  | .scalarArray t, v, e, h => by
    cases v with
    | scalarArray items =>
      rw [Field.encodeValue, Emission.fault_append, Emission.fault_ofBytes, Option.none_or] at h
      exact Emission.fault_ofList _ (fun item e => ScalarValue.fault_encode_mismatch o _ t item e)
        items e h
    | _ => exact ⟨_, (Option.some.inj h).symm⟩
  | .struct s, v, e, h => by
    cases v with
    | struct members => exact Structure.fault_encodeValue_mismatch o s members e h
    | _ => exact ⟨_, (Option.some.inj h).symm⟩
  | .structArray s, v, e, h => by
    cases v with
    | structArray elements =>
      rw [Field.encodeValue_structArray, Emission.fault_append, Emission.fault_ofBytes,
        Option.none_or] at h
      refine Emission.fault_ofList (p := fun e => ∃ what, e = .mismatch what) _
        (fun element e he => ?_) elements e h
      cases element with
      | none => simp [Structure.encodeElement] at he
      | some members =>
        rw [Structure.encodeElement, Emission.fault_append, Emission.fault_ofBytes,
          Option.none_or] at he
        exact Structure.fault_encodeValue_mismatch o s members e he
    | _ => exact ⟨_, (Option.some.inj h).symm⟩

theorem Structure.fault_encodeValue_mismatch (o : ByteOrder) :
    ∀ (s : Structure) (members : List Value) (e : WireError),
      (s.encodeValue o members).fault = some e → ∃ what, e = .mismatch what
  | ⟨id, ms⟩, members, e, h => by
    rw [Structure.encodeValue] at h
    split at h
    · exact Structure.fault_encodeMemberValues_mismatch o ms members e h
    · exact ⟨_, (Option.some.inj h).symm⟩

theorem Structure.fault_encodeMemberValues_mismatch (o : ByteOrder) :
    ∀ (ms : List (String × Field)) (vs : List Value) (e : WireError),
      (Structure.encodeMemberValues o ms vs).fault = some e → ∃ what, e = .mismatch what
  | [], _, e, h => by simp [Structure.encodeMemberValues] at h
  | _ :: _, [], e, h => by simp [Structure.encodeMemberValues] at h
  | (_, f) :: ms, v :: vs, e, h => by
    rw [Structure.encodeMemberValues, Emission.fault_append, Option.or_eq_some_iff] at h
    rcases h with h | ⟨_, h⟩
    · exact Field.fault_encodeValue_mismatch o f v e h
    · exact Structure.fault_encodeMemberValues_mismatch o ms vs e h

end

/-! ## Reading back -/

variable {σ : Type}

open Decoder

theorem ScalarValue.reads_decode (o : ByteOrder) (st : σ) (v : ScalarValue)
    (h : v.fits = true) : v.type.decode.Reads o st (v.encode o) v st := by
  cases v with
  | boolean v => exact (Reads.bool o st v).map _
  | byte v => exact (Reads.octet o st v.toUInt8).map fun b => ScalarValue.byte b.toInt8
  | short v => exact (Reads.word16 o st v.toUInt16).map fun n => ScalarValue.short n.toInt16
  | int v => exact (Reads.word32 o st v.toUInt32).map fun n => ScalarValue.int n.toInt32
  | long v => exact (Reads.word64 o st v.toUInt64).map fun n => ScalarValue.long n.toInt64
  | ubyte v => exact (Reads.octet o st v).map _
  | ushort v => exact (Reads.word16 o st v).map _
  | uint v => exact (Reads.word32 o st v).map _
  | ulong v => exact (Reads.word64 o st v).map _
  | float bits => exact (Reads.word32 o st bits).map _
  | double bits => exact (Reads.word64 o st bits).map _
  | string text => exact (Reads.string o st (by simpa [ScalarValue.fits] using h)).map _

mutual

/-- A suitable value is read back, and nothing behind it is touched. -/
theorem Field.reads_decodeValue (o : ByteOrder) (st : σ) :
    ∀ (f : Field) (v : Value), f.admits v = true → v.fits = true →
      f.decodeValue.Reads o st (f.encodeValue o v).bytes v st
  | .scalar t, v, hv, hfit => by
    obtain ⟨value, rfl, rfl⟩ := Field.exists_of_admits_scalar hv
    rw [Field.encodeValue, if_pos rfl]
    exact (ScalarValue.reads_decode o st value hfit).map Value.scalar
  | .scalarArray t, v, hv, hfit => by
    have hok := (Field.fault_encodeValue_iff o (.scalarArray t) v).2 hv
    obtain ⟨items, rfl, htype⟩ := Field.exists_of_admits_scalarArray hv
    simp only [Value.fits, Bool.and_eq_true, decide_eq_true_eq, List.all_eq_true] at hfit
    rw [Field.encodeValue] at hok ⊢
    rw [Emission.fault_append, Emission.fault_ofBytes, Option.none_or] at hok
    rw [Emission.bytes_ofBytes_append, Emission.bytes_ofList _ hok]
    have hitems : ∀ item ∈ items, t.decode.Reads o st
        (if item.type = t then Emission.ofBytes (item.encode o)
          else .fail (Field.scalarArray t).mismatch).bytes item st := by
      intro item hitem
      obtain rfl := htype item hitem
      rw [if_pos rfl, Emission.bytes_ofBytes]
      exact ScalarValue.reads_decode o st item (hfit.2 item hitem)
    exact (Reads.length o st hfit.1).bind ((Reads.times_of_forall _ items hitems).bind_pure
      (Reads.pure (Value.scalarArray items) o st))
  | .struct s, v, hv, hfit => by
    obtain ⟨members, rfl, hmembers⟩ := Field.exists_of_admits_struct hv
    exact (Structure.reads_decodeValue o st s members hmembers hfit).map Value.struct
  | .structArray s, v, hv, hfit => by
    have hok := (Field.fault_encodeValue_iff o (.structArray s) v).2 hv
    obtain ⟨elements, rfl, hsuit⟩ := Field.exists_of_admits_structArray hv
    simp only [Value.fits, Bool.and_eq_true, decide_eq_true_eq, Value.elementsFit_iff] at hfit
    rw [Field.encodeValue_structArray] at hok ⊢
    rw [Emission.fault_append, Emission.fault_ofBytes, Option.none_or] at hok
    rw [Emission.bytes_ofBytes_append, Emission.bytes_ofList _ hok]
    refine (Reads.length o st hfit.1).bind ((Reads.times_of_forall _ elements ?_).bind_pure
      (Reads.pure (Value.structArray elements) o st))
    intro element helement
    cases element with
    | none => exact (Reads.bool o st false).bind_pure (Reads.pure none o st)
    | some members =>
      rw [Structure.encodeElement, Emission.bytes_ofBytes_append]
      refine (Reads.bool o st true).bind (Reads.map some ?_)
      exact Structure.reads_decodeValue o st s members (hsuit members helement)
        (hfit.2 members helement)

theorem Structure.reads_decodeValue (o : ByteOrder) (st : σ) :
    ∀ (s : Structure) (members : List Value), s.admits members = true →
      Value.membersFit members = true →
      s.decodeValue.Reads o st (s.encodeValue o members).bytes members st
  | ⟨id, ms⟩, members, hv, hfit => by
    rw [Structure.admits] at hv
    rw [Structure.encodeValue, if_pos (Structure.length_eq_of_admitsMembers hv)]
    exact Structure.reads_decodeMemberValues o st ms members hv hfit

theorem Structure.reads_decodeMemberValues (o : ByteOrder) (st : σ) :
    ∀ (ms : List (String × Field)) (vs : List Value), Structure.admitsMembers ms vs = true →
      Value.membersFit vs = true →
      (Structure.decodeMemberValues ms).Reads o st
        (Structure.encodeMemberValues o ms vs).bytes vs st
  | [], vs, hv, _ => by
    obtain rfl := Structure.eq_nil_of_admitsMembers hv
    exact Reads.pure [] o st
  | (_, f) :: ms, vs, hv, hfit => by
    obtain ⟨v, vs, rfl, hhere, hbehind⟩ := Structure.exists_of_admitsMembers hv
    simp only [Value.membersFit, Bool.and_eq_true] at hfit
    rw [Structure.encodeMemberValues,
      Emission.bytes_append ((Field.fault_encodeValue_iff o f v).2 hhere)]
    refine (Field.reads_decodeValue o st f v hhere hfit.1).bind ?_
    exact (Structure.reads_decodeMemberValues o st ms vs hbehind hfit.2).bind_pure
      (Reads.pure (v :: vs) o st)

end

end PvNet
