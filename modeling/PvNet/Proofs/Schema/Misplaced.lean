import PvNet.Proofs.Schema.References
import PvNet.Proofs.Wire.Failures
set_option autoImplicit false

/-!
# Descriptors out of place

A member of a structure must not be described by the null descriptor, and an element
of an array of structures must be a structure.  Descriptors that break these rules
fail with a mismatch, and apart from them descriptors fail for malformed octets only.
-/

namespace PvNet

namespace Field

open Decoder

/-- A descriptor ends the octets `bs` in front of `rest` where it must not stand. -/
inductive Misplaced (o : ByteOrder) : Bytes → Bytes → WireError → Prop where
  /-- The null descriptor, behind the name of a member. -/
  | member (front : Bytes) {bs rest : Bytes} {name : String} {t t' : KnownTypes}
      (named : string.run o t bs = ⟨.ok name, t', nullCode :: rest⟩) :
      Misplaced o (front ++ bs) rest (.mismatch (.nullMember name))
  /-- Another descriptor than that of a structure, or none, for the elements of an array. -/
  | element (front : Bytes) {bs rest : Bytes} {room : Nat} {r : Option Levelled} {t t' : KnownTypes}
      (described : (decodeLevelled room).run o t bs = ⟨.ok r, t', rest⟩)
      (other : ∀ d, r = some d → d.field.asStruct? = none) :
      Misplaced o (front ++ structArrayCode :: bs) rest (.mismatch .elementNotStructure)

/-- Malformed octets or a descriptor out of place. -/
def reasons : Reasons := fun o bs rest e => e.isDecode = true ∨ Misplaced o bs rest e

theorem Misplaced.append {o : ByteOrder} {bs rest : Bytes} {e : WireError} (front : Bytes)
    (h : Misplaced o bs rest e) : Misplaced o (front ++ bs) rest e := by
  cases h with
  | member front' named =>
    rw [← List.append_assoc]
    exact .member (front ++ front') named
  | element front' described other =>
    rw [← List.append_assoc]
    exact .element (front ++ front') described other

theorem closed_reasons : reasons.Closed where
  of_isDecode h := .inl h
  append front h := h.imp_right (Misplaced.append front)

/-- What is out of place is not counted as malformed. -/
theorem Misplaced.isDecode_eq_false {o : ByteOrder} {bs rest : Bytes} {e : WireError}
    (h : Misplaced o bs rest e) : e.isDecode = false := by
  cases h with
  | member => rfl
  | element => rfl

theorem isDecode_eq_false_iff {o : ByteOrder} {bs rest : Bytes} {e : WireError}
    (h : reasons o bs rest e) : e.isDecode = false ↔ Misplaced o bs rest e := by
  refine ⟨?_, Misplaced.isDecode_eq_false⟩
  intro he
  rcases h with h | h
  · rw [he] at h
    cases h
  · exact h

/-! ## Reading descriptors -/

variable {o : ByteOrder} {t t' : KnownTypes} {bs rest : Bytes} {room : Nat}

/-- Only the null descriptor is read as none. -/
theorem eq_of_run_decodeLevelled_none
    (h : (decodeLevelled room).run o t bs = ⟨.ok none, t', rest⟩) : bs = nullCode :: rest := by
  rw [decodeLevelled] at h
  cases bs with
  | nil => cases h
  | cons first bs =>
    rw [run_octet_bind] at h
    split at h
    · rename_i hnull
      obtain ⟨_, _, rfl⟩ := Outcome.mk.inj h
      rw [hnull]
    split at h
    · obtain ⟨n, t₁, bs₁, _, h⟩ := exists_of_run_bind h
      obtain ⟨known, t₂, bs₂, _, h⟩ := exists_of_run_bind h
      split at h
      · cases h
      · split at h
        · cases h
        · cases h
    split at h
    · obtain ⟨n, t₁, bs₁, _, h⟩ := exists_of_run_bind h
      obtain ⟨code, t₂, bs₂, _, h⟩ := exists_of_run_bind h
      obtain ⟨d, t₃, bs₃, _, h⟩ := exists_of_run_bind h
      cases h
    · obtain ⟨d, t₁, bs₁, _, h⟩ := exists_of_run_bind h
      cases h

/-- A member fails as its descriptor does, or because it has none. -/
theorem failsFor_decodeMember (h : (decodeLevelled room).FailsFor reasons) :
    (decodeMember room).FailsFor reasons := by
  rw [decodeMember]
  apply FailsFor.bind_of_run (FailsFor.string closed_reasons)
  intro o t bs name t₁ rest hname left
  obtain ⟨front, rfl⟩ := left
  have hlevelled := h o t₁ rest
  rcases hrun : (decodeLevelled room).run o t₁ rest with ⟨e | r, t₂, rest'⟩
  · rw [hrun] at hlevelled
    rw [run_bind_of_error hrun]
    cases hlevelled with
    | error left reason =>
      exact .error (left.trans (List.suffix_append front rest))
        (closed_reasons.append front reason)
  · rw [hrun] at hlevelled
    rw [run_bind_of_ok hrun]
    cases hlevelled with
    | ok left =>
      have hleft : rest' <:+ front ++ rest := left.trans (List.suffix_append front rest)
      cases r with
      | some d => exact .ok hleft
      | none =>
        obtain rfl := eq_of_run_decodeLevelled_none hrun
        exact .error hleft (.inr (.member [] hname))

/-- Given this of the descriptor's body and its type code. -/
theorem failsFor_decodeLevelled
    (hbody : ∀ code, (decodeBody room code).FailsFor (reasons.behind code)) :
    (decodeLevelled room).FailsFor reasons := by
  rw [decodeLevelled]
  apply FailsFor.octet_bind closed_reasons
  intro first
  split
  · exact FailsFor.pure none
  split
  · apply FailsFor.behind closed_reasons
    apply FailsFor.bind closed_reasons (FailsFor.word16 closed_reasons)
    intro n
    apply FailsFor.bind closed_reasons FailsFor.get
    intro known
    split
    · exact FailsFor.fail_decode closed_reasons rfl
    · split
      · exact FailsFor.fail_decode closed_reasons rfl
      · exact FailsFor.pure _
  split
  · apply FailsFor.behind closed_reasons
    apply FailsFor.bind closed_reasons (FailsFor.word16 closed_reasons)
    intro n
    apply FailsFor.octet_bind closed_reasons
    intro code
    apply FailsFor.bind_of_run (hbody code)
    intro o t bs d t' rest _ left
    exact .ok left
  · apply FailsFor.bind_of_run (hbody first)
    intro o t bs d t' rest _ left
    exact .ok left

theorem failsFor_leaf (code : UInt8) :
    (match ofLeafCode? code with
      | some f => return ⟨f, 1⟩
      | none => fail (.unknownTypeCode code) : Decoder KnownTypes Levelled).FailsFor
      (reasons.behind code) := by
  apply FailsFor.behind closed_reasons
  split
  · exact FailsFor.pure _
  · exact FailsFor.fail_decode closed_reasons rfl

/-- By induction on the room; the type code belongs to what is out of place in an array. -/
theorem failsFor_decodeBody (room : Nat) (code : UInt8) :
    (decodeBody room code).FailsFor (reasons.behind code) := by
  induction room generalizing code with
  | zero =>
    rw [decodeBody]
    have htooDeep : (tooDeep : Decoder KnownTypes Levelled).FailsFor (reasons.behind code) :=
      FailsFor.behind closed_reasons (FailsFor.fail_decode closed_reasons rfl) code
    split
    · exact htooDeep
    split
    · exact htooDeep
    · exact failsFor_leaf code
  | succ room ih =>
    have hlevelled := failsFor_decodeLevelled ih
    rw [decodeBody]
    split
    · apply FailsFor.behind closed_reasons
      apply FailsFor.bind closed_reasons (FailsFor.string closed_reasons)
      intro id
      apply FailsFor.bind closed_reasons (FailsFor.length closed_reasons)
      intro count
      have hmembers := FailsFor.times closed_reasons (failsFor_decodeMember hlevelled) count
      apply FailsFor.bind closed_reasons hmembers
      intro ms
      exact FailsFor.pure _
    split
    · rename_i hcode
      rw [hcode]
      apply FailsFor.bind_of_run (FailsFor.behind closed_reasons hlevelled structArrayCode)
      intro o t bs r t' rest hrun left
      split
      · exact .ok left
      · rename_i hother
        refine .error left (.inr (.element [] hrun ?_))
        intro d hd
        obtain ⟨f, levels⟩ := d
        cases f with
        | struct s => exact absurd hd (hother s levels)
        | scalar => rfl
        | scalarArray => rfl
        | structArray => rfl
    · exact failsFor_leaf code

/-- A descriptor fails for malformed octets or a descriptor out of place. -/
theorem failsFor_decode? : decode?.FailsFor reasons := by
  have hlevelled := failsFor_decodeLevelled (failsFor_decodeBody maxLevels)
  apply FailsFor.bind closed_reasons hlevelled
  intro r
  exact FailsFor.pure _

/-! ## What is out of place -/

theorem run_decodeLevelled_null (o : ByteOrder) (t : KnownTypes) (room : Nat) (rest : Bytes) :
    (decodeLevelled room).run o t (nullCode :: rest) = ⟨.ok none, t, rest⟩ := by
  rw [decodeLevelled, run_octet_bind, if_pos rfl, run_pure]

/-- A structure fails whose first member has no descriptor. -/
theorem run_decodeBody_nullMember {id name : String} {count : Nat}
    (hid : id.utf8ByteSize ≤ Wire.maxSize) (hname : name.utf8ByteSize ≤ Wire.maxSize)
    (hcount : count + 1 ≤ Wire.maxSize) (rest : Bytes) :
    (decodeBody (room + 1) structCode).run o t
        (Wire.string o id ++ (Wire.length o (count + 1) ++
          (Wire.string o name ++ nullCode :: rest))) =
      ⟨.error (.mismatch (.nullMember name)), t, rest⟩ := by
  have hmember : (decodeMember room).run o t (Wire.string o name ++ nullCode :: rest) =
      ⟨.error (.mismatch (.nullMember name)), t, rest⟩ := by
    rw [decodeMember, run_bind_of_ok (Reads.string o t hname _),
      run_bind_of_ok (run_decodeLevelled_null o t room rest), run_fail]
  exact run_decodeBody_of_member hid hcount hmember

/-- An array of structures fails whose element is not a structure. -/
theorem run_decodeBody_elementNotStructure {r : Option Levelled}
    (h : (decodeLevelled room).run o t bs = ⟨.ok r, t', rest⟩)
    (hother : ∀ d, r = some d → d.field.asStruct? = none) :
    (decodeBody (room + 1) structArrayCode).run o t bs =
      ⟨.error (.mismatch .elementNotStructure), t', rest⟩ := by
  rw [decodeBody, if_neg (by decide), if_pos rfl, run_bind_of_ok h]
  rcases r with _ | ⟨f, levels⟩
  · rfl
  · cases f with
    | struct s =>
      have hnone : some s = none := hother _ rfl
      cases hnone
    | scalar | scalarArray | structArray => rfl

/-- A descriptor in full fails as its body does. -/
theorem run_decode?_of_body {code : UInt8} {e : WireError} (hcode : IsTypeCode code)
    (h : (decodeBody maxLevels code).run o t bs = ⟨.error e, t', rest⟩) :
    decode?.run o t (code :: bs) = ⟨.error e, t', rest⟩ := by
  apply run_bind_of_error
  rw [decodeLevelled, run_octet_bind, if_neg hcode.1, if_neg hcode.2.1, if_neg hcode.2.2]
  exact run_bind_of_error h

end Field

end PvNet
