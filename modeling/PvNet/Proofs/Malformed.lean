import PvNet.Discovery.Beacon
import PvNet.Discovery.Search
import PvNet.Error
import PvNet.Proofs.Formats
import PvNet.Proofs.Message.Encoding
import PvNet.Proofs.Schema.Misplaced
import PvNet.Status
import PvNet.Validation
import PvNet.Value.Partial
set_option autoImplicit false

/-!
# Failures that blame the octets

What is decoded from memory can only fail because of its octets.  Every decoder says
so, apart from those that read descriptors: a descriptor out of place is reported as
a mismatch, the failure that also stands for a caller's mistake, and is therefore not
counted as malformed.
-/

namespace PvNet

open Decoder

variable {σ : Type} {P : Reasons}

/-! ## Values -/

theorem Field.failsFor_decodeValue (hP : P.Closed) (f : Field) :
    (f.decodeValue : Decoder σ Value).FailsFor P :=
  FailsFor.of_plain hP f.plain_decodeValue

theorem Structure.failsFor_decodeValue (hP : P.Closed) (s : Structure) :
    (s.decodeValue : Decoder σ (List Value)).FailsFor P :=
  FailsFor.of_plain hP s.plain_decodeValue

/-! ## Partial updates -/

theorem failsFor_replaceBy (hP : P.Closed) {α : Type} {d : Decoder α α} (hd : d.FailsFor P) :
    (Decoder.replaceBy d).FailsFor P :=
  FailsFor.bind hP hd fun _ => FailsFor.modify _

/-- A member that is read in full, or one without members of its own. -/
theorem Field.failsFor_decodeChanges_whole (hP : P.Closed) {changed : BitSet} {offset : Nat}
    {f : Field} (h : offset ∈ changed ∨ f.asStruct? = none) :
    (f.decodeChanges changed offset).FailsFor P := by
  intro o target bs
  by_cases hoffset : offset ∈ changed
  · rw [Field.decodeChanges_of_mem hoffset]
    exact failsFor_replaceBy hP (f.failsFor_decodeValue hP) o target bs
  · have hrun : (f.decodeChanges changed offset).run o target bs = ⟨.ok (), target, bs⟩ := by
      have hleaf := h.resolve_left hoffset
      cases f with
      | struct s => cases hleaf
      | scalar | scalarArray | structArray => simp [Decoder.run, Field.decodeChanges, hoffset]
    rw [hrun]
    exact .ok (List.suffix_refl bs)

mutual

theorem Field.failsFor_decodeChanges (hP : P.Closed) (changed : BitSet) :
    ∀ (f : Field) (offset : Nat), (f.decodeChanges changed offset).FailsFor P
  | .scalar _, _ | .scalarArray _, _ | .structArray _, _ =>
    Field.failsFor_decodeChanges_whole hP (.inr rfl)
  | .struct s, offset => by
    by_cases hoffset : offset ∈ changed
    · exact Field.failsFor_decodeChanges_whole hP (.inl hoffset)
    · intro o target bs
      let members : List Value := match target with
        | .struct members => members
        | _ => s.zero
      let after := (s.decodeChangesBelow changed offset).run o members bs
      have hrun : ((Field.struct s).decodeChanges changed offset).run o target bs =
          ⟨after.result, .struct after.state, after.rest⟩ := by
        cases target <;> simp only [Decoder.run, Field.decodeChanges, hoffset, if_false, after,
          members]
      have hbelow := Structure.failsFor_decodeChangesBelow hP changed s offset o members bs
      rw [hrun]
      exact hbelow.withState _

theorem Structure.failsFor_decodeChangesBelow (hP : P.Closed) (changed : BitSet) :
    ∀ (s : Structure) (base : Nat), (s.decodeChangesBelow changed base).FailsFor P
  | ⟨_, ms⟩, base => by
    intro o target bs
    exact Structure.failsFor_decodeMemberChanges hP changed ms (base + 1) o _ bs

theorem Structure.failsFor_decodeMemberChanges (hP : P.Closed) (changed : BitSet) :
    ∀ (ms : List (String × Field)) (offset : Nat),
      (Structure.decodeMemberChanges changed offset ms).FailsFor P
  | [], _ => fun _ _ bs => .ok (List.suffix_refl bs)
  | (_, f) :: ms, offset => by
    intro o target bs
    cases target with
    | nil => exact .ok (List.suffix_refl bs)
    | cons v vs =>
      have hfirst := Field.failsFor_decodeChanges hP changed f offset o v bs
      rw [Decoder.run] at hfirst ⊢
      rw [Structure.decodeMemberChanges]
      rcases h : f.decodeChanges changed offset o v bs with ⟨e | _, v', rest⟩
      · rw [h] at hfirst
        exact hfirst.withState _
      · rw [h] at hfirst
        cases hfirst with
        | ok left =>
          obtain ⟨front, rfl⟩ := left
          have hothers := Structure.failsFor_decodeMemberChanges hP changed ms
            (offset + f.offsetCount) o vs rest
          have hbehind := hothers.mono (List.suffix_append front rest) fun _ _ => hP.append front
          exact hbehind.withState _

end

theorem Structure.failsFor_decodeChanges (hP : P.Closed) (changed : BitSet) (s : Structure) :
    (s.decodeChanges changed).FailsFor P := by
  unfold Structure.decodeChanges
  split
  · exact failsFor_replaceBy hP (s.failsFor_decodeValue hP)
  · exact s.failsFor_decodeChangesBelow hP changed 0

/-! ## Bit sets, statuses and payloads -/

section

variable (hP : P.Closed)

include hP

theorem BitSet.failsFor_decode : (BitSet.decode : Decoder σ BitSet).FailsFor P :=
  FailsFor.of_plain hP BitSet.plain_decode

theorem Status.failsFor_decode : (Status.decode : Decoder σ Status).FailsFor P :=
  FailsFor.of_plain hP Status.plain_decode

theorem SearchRequest.failsFor_decode :
    (SearchRequest.decode : Decoder σ SearchRequest).FailsFor P :=
  FailsFor.of_plain hP SearchRequest.plain_decode

theorem SearchResponse.failsFor_decode :
    (SearchResponse.decode : Decoder σ SearchResponse).FailsFor P :=
  FailsFor.of_plain hP SearchResponse.plain_decode

theorem Greeting.failsFor_decode : (Greeting.decode : Decoder σ Greeting).FailsFor P :=
  FailsFor.of_plain hP Greeting.plain_decode

theorem Reply.failsFor_decode : (Reply.decode : Decoder σ Reply).FailsFor P :=
  FailsFor.of_plain hP Reply.plain_decode

end

/-! ## What comes with descriptors -/

theorem Described.failsFor_decode? : Described.decode?.FailsFor Field.reasons := by
  have hP := Field.closed_reasons
  apply FailsFor.bind hP Field.failsFor_decode?
  intro f
  cases f with
  | none => exact FailsFor.pure none
  | some f =>
    apply FailsFor.bind hP (f.failsFor_decodeValue hP)
    intro v
    exact FailsFor.pure _

theorem Beacon.failsFor_decodeStatus :
    (Beacon.decodeStatus : Decoder σ (Option Described)).FailsFor Field.reasons := by
  intro o s bs
  unfold Decoder.run Beacon.decodeStatus
  split
  · exact .ok (List.suffix_refl bs)
  · exact (Described.failsFor_decode? o {} bs).withState s

theorem Beacon.failsFor_decode : (Beacon.decode : Decoder σ Beacon).FailsFor Field.reasons := by
  have hP := Field.closed_reasons
  apply FailsFor.bind hP (FailsFor.of_plain hP Guid.plain_decode)
  intro guid
  apply FailsFor.bind hP (FailsFor.octet hP)
  intro flags
  apply FailsFor.bind hP (FailsFor.octet hP)
  intro sequence
  apply FailsFor.bind hP (FailsFor.word16 hP)
  intro changeCount
  apply FailsFor.bind hP (FailsFor.of_plain hP Endpoint.plain_decode)
  intro server
  apply FailsFor.bind hP (FailsFor.string hP)
  intro protocol
  apply FailsFor.bind hP Beacon.failsFor_decodeStatus
  intro status
  exact FailsFor.pure _

/-! ## Datagrams -/

namespace Message

theorem isDecode_of_ofDatagram_error {datagram : Bytes} {e : WireError}
    (h : ofDatagram datagram = .error e) : e.isDecode = true := by
  fun_induction ofDatagram datagram with
  | case1 => cases h
  | case2 datagram hsome e' hfails =>
    obtain rfl := Except.error.inj h
    exact (malformed_of_decode? hfails).1
  | case3 datagram hsome m rest hfirst e' hrest ih =>
    obtain rfl := Except.error.inj h
    exact ih hrest
  | case4 => cases h
  | case5 datagram hsome hwaits e' hheader =>
    -- A buffer that waits has no malformed header.
    unfold decode? at hwaits
    rw [hheader] at hwaits
    cases hwaits
  | case6 datagram hsome hwaits header hheader =>
    obtain rfl := Except.error.inj h
    rfl
  | case7 datagram hsome hwaits hheader =>
    obtain rfl := Except.error.inj h
    rfl

end Message

/-! ## All decoders -/

namespace Decoder

variable {α : Type} {d : Decoder σ α}

/-- Whatever the octets are, a failure blames them. -/
def Blames (d : Decoder σ α) : Prop :=
  ∀ o s bs e, (d.run o s bs).result = .error e → e.isDecode = true

/-- Whatever the octets are, a failure blames them unless a descriptor is out of place, and then it
does not. -/
def BlamesUnlessMisplaced (d : Decoder σ α) : Prop :=
  ∀ o s bs e, (d.run o s bs).result = .error e →
    (e.isDecode = false ↔ Field.Misplaced o bs (d.run o s bs).rest e)

theorem FailsFor.blames (h : d.FailsFor .malformed) : d.Blames := by
  intro o s bs e he
  exact (h o s bs).reason he

theorem FailsFor.blamesUnlessMisplaced (h : d.FailsFor Field.reasons) :
    d.BlamesUnlessMisplaced := by
  intro o s bs e he
  exact Field.isDecode_eq_false_iff ((h o s bs).reason he)

end Decoder

/-- Every decoder blames the octets for every failure, those of descriptors unless a descriptor is
out of place.  The latter holds of any table of known descriptors.  A service that passes a failure
on counts it in the same way. -/
theorem failures_blame_octets (σ : Type) :
    (∀ datagram e, Message.ofDatagram datagram = .error e → e.isDecode = true) ∧
      (∀ f : Field, (f.decodeValue : Decoder σ Value).Blames) ∧
      (∀ changed (s : Structure), (s.decodeChanges changed).Blames) ∧
      (BitSet.decode : Decoder σ BitSet).Blames ∧
      (Status.decode : Decoder σ Status).Blames ∧
      (SearchRequest.decode : Decoder σ SearchRequest).Blames ∧
      (SearchResponse.decode : Decoder σ SearchResponse).Blames ∧
      (Greeting.decode : Decoder σ Greeting).Blames ∧
      (Reply.decode : Decoder σ Reply).Blames ∧
      Field.decode?.BlamesUnlessMisplaced ∧
      Described.decode?.BlamesUnlessMisplaced ∧
      (Beacon.decode : Decoder σ Beacon).BlamesUnlessMisplaced ∧
      ∀ e : WireError, (Error.wire e).isDecode = e.isDecode := by
  have hP := Reasons.closed_malformed
  refine ⟨?_, ?_, ?_, ?_, ?_, ?_, ?_, ?_, ?_, ?_, ?_, ?_, ?_⟩
  · intro datagram e
    exact Message.isDecode_of_ofDatagram_error
  · intro f
    exact (f.failsFor_decodeValue hP).blames
  · intro changed s
    exact (s.failsFor_decodeChanges hP changed).blames
  · exact (BitSet.failsFor_decode hP).blames
  · exact (Status.failsFor_decode hP).blames
  · exact (SearchRequest.failsFor_decode hP).blames
  · exact (SearchResponse.failsFor_decode hP).blames
  · exact (Greeting.failsFor_decode hP).blames
  · exact (Reply.failsFor_decode hP).blames
  · exact Field.failsFor_decode?.blamesUnlessMisplaced
  · exact Described.failsFor_decode?.blamesUnlessMisplaced
  · exact Beacon.failsFor_decode.blamesUnlessMisplaced
  · intro e
    rfl

/-- A structure with a member `a` that has no descriptor. -/
def memberless : Bytes := [Field.structCode, 0, 1, 1, 0x61, nullCode]

theorem run_memberless :
    Field.decode?.run .big {} memberless = ⟨.error (.mismatch (.nullMember "a")), {}, []⟩ := by
  have hbody : (Field.decodeBody maxLevels Field.structCode).run .big {}
      (Wire.string .big "" ++ (Wire.length .big 1 ++ (Wire.string .big "a" ++ [nullCode]))) =
      ⟨.error (.mismatch (.nullMember "a")), {}, []⟩ :=
    Field.run_decodeBody_nullMember (by decide) (by decide) (by decide) []
  exact Field.run_decode?_of_body (by decide) hbody

/-- A member without a descriptor is out of place, and so is a missing element of an array of
structures; a status that ends behind its kind is malformed. -/
theorem misplaced_descriptors :
    Field.Misplaced .big memberless [] (.mismatch (.nullMember "a")) ∧
      Field.Misplaced .little [Field.structArrayCode, nullCode] []
        (.mismatch .elementNotStructure) ∧
      ∃ e, (Status.decode.run .big () [2]).result = .error e ∧ e.isDecode = true := by
  obtain ⟨_, _, _, _, hstatus, _, _, _, _, hfield, _⟩ := failures_blame_octets Unit
  have hmember := hfield .big {} memberless
  rw [run_memberless] at hmember
  have helement := hfield .little {} [Field.structArrayCode, nullCode]
  have hbody : (Field.decodeBody maxLevels Field.structArrayCode).run .little {} [nullCode] =
      ⟨.error (.mismatch .elementNotStructure), {}, []⟩ :=
    Field.run_decodeBody_elementNotStructure (Field.run_decodeLevelled_null .little {} _ []) nofun
  rw [Field.run_decode?_of_body (by decide) hbody] at helement
  have htruncated : (Status.decode.run .big () [2]).result = .error (.truncated 1 0) := rfl
  exact ⟨(hmember _ rfl).1 rfl, (helement _ rfl).1 rfl, _, htruncated,
    hstatus .big () [2] _ htruncated⟩

/-- The missing descriptor of a member is a fault of the octets that is not blamed on them. -/
theorem memberless_not_blamed : ¬ Field.decode?.Blames := by
  intro hblames
  have hdecode := hblames .big {} memberless (.mismatch (.nullMember "a"))
    (by rw [run_memberless])
  cases hdecode

end PvNet
