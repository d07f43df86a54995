import PvNet.BitSet
import PvNet.Discovery.Search
import PvNet.Proofs.Wire.Composition
import PvNet.Status
import PvNet.Validation
import PvNet.Value.Described
set_option autoImplicit false

/-!
# Formats composed of primitive ones

Values, bit sets, statuses and the payloads of searches and validations are read by
sequences of primitive decoders that have no other failures than those of the octets.
So are descriptors, but a descriptor out of place is reported as a mismatch.
-/

namespace PvNet

open Decoder

variable {σ : Type}

/-! ## Values -/

theorem ScalarType.plain_decode (t : ScalarType) :
    (t.decode : Decoder σ ScalarValue).Plain := by
  cases t with
  | boolean => exact Composed.bool.map _
  | byte | ubyte => exact Composed.octet.map _
  | short | ushort => exact Composed.word16.map _
  | int | uint | float => exact Composed.word32.map _
  | long | ulong | double => exact Composed.word64.map _
  | string => exact Composed.string.map _

mutual

theorem Field.plain_decodeValue :
    ∀ f : Field, (f.decodeValue : Decoder σ Value).Plain
  | .scalar t => t.plain_decode.map _
  | .scalarArray t => by
    apply Composed.bind Composed.length
    intro count
    apply Composed.bind (t.plain_decode.times count)
    intro items
    exact Composed.pure _
  | .struct s => (Structure.plain_decodeValue s).map _
  | .structArray s => by
    have helement : (do if ← bool then some <$> s.decodeValue else pure none :
        Decoder σ (Option (List Value))).Plain := by
      apply Composed.bind Composed.bool
      intro present
      split
      · exact (Structure.plain_decodeValue s).map some
      · exact Composed.pure none
    apply Composed.bind Composed.length
    intro count
    apply Composed.bind (helement.times count)
    intro elements
    exact Composed.pure _

theorem Structure.plain_decodeValue :
    ∀ s : Structure, (s.decodeValue : Decoder σ (List Value)).Plain
  | ⟨_, ms⟩ => Structure.plain_decodeMemberValues ms

theorem Structure.plain_decodeMemberValues :
    ∀ ms : List (String × Field),
      (Structure.decodeMemberValues ms : Decoder σ (List Value)).Plain
  | [] => Composed.pure []
  | (_, f) :: ms => by
    apply Composed.bind (Field.plain_decodeValue f)
    intro v
    exact (Structure.plain_decodeMemberValues ms).map (v :: ·)

end

/-! ## Bit sets, statuses and payloads -/

theorem BitSet.plain_decode : (BitSet.decode : Decoder σ BitSet).Plain := by
  apply Composed.bind Composed.length
  intro n
  apply Composed.bind (Composed.word64.times (n / 8))
  intro words
  exact (Composed.octet.times (n % 8)).map _

theorem Status.plain_decode : (Status.decode : Decoder σ Status).Plain := by
  apply Composed.bind Composed.octet
  intro code
  split
  · exact Composed.pure _
  split
  · exact Composed.fail_decode rfl
  · apply Composed.bind Composed.string
    intro message
    exact Composed.string.map _

theorem Guid.plain_decode : (Guid.decode : Decoder σ Guid).Plain :=
  (Composed.take 16).map _

theorem Endpoint.plain_decode : (Endpoint.decode : Decoder σ Endpoint).Plain := by
  apply Composed.bind (Composed.take 16)
  intro bits
  exact Composed.word16.map _

theorem SearchEntry.plain_decode :
    (SearchEntry.decode : Decoder σ SearchEntry).Plain := by
  apply Composed.bind Composed.word32
  intro cid
  exact Composed.string.map _

theorem SearchRequest.plain_decode :
    (SearchRequest.decode : Decoder σ SearchRequest).Plain := by
  apply Composed.bind Composed.word32
  intro sequence
  apply Composed.bind Composed.octet
  intro qos
  apply Composed.bind (Composed.take 3)
  intro unused
  apply Composed.bind Endpoint.plain_decode
  intro replyTo
  apply Composed.strings
  intro protocols
  apply Composed.bind Composed.word16
  intro count
  exact (SearchEntry.plain_decode.times count.toNat).map _

theorem SearchResponse.plain_decode :
    (SearchResponse.decode : Decoder σ SearchResponse).Plain := by
  apply Composed.bind Guid.plain_decode
  intro guid
  apply Composed.bind Composed.word32
  intro sequence
  apply Composed.bind Endpoint.plain_decode
  intro server
  apply Composed.bind Composed.string
  intro protocol
  apply Composed.bind Composed.bool
  intro found
  apply Composed.bind Composed.word16
  intro count
  exact (Composed.word32.times count.toNat).map _

theorem Greeting.plain_decode : (Greeting.decode : Decoder σ Greeting).Plain := by
  apply Composed.bind Composed.word32
  intro receiveBufferSize
  apply Composed.bind Composed.word16
  intro introspectionCapacity
  apply Composed.strings
  intro authPlugins
  exact Composed.pure _

theorem Reply.plain_decode : (Reply.decode : Decoder σ Reply).Plain := by
  apply Composed.bind Composed.word32
  intro receiveBufferSize
  apply Composed.bind Composed.word16
  intro introspectionCapacity
  apply Composed.bind Composed.word16
  intro qos
  exact Composed.string.map _

/-! ## Descriptors -/

/-- A failure that a mistake of the caller can bring about as well. -/
def WireError.IsMismatch (e : WireError) : Prop := ∃ what, e = .mismatch what

theorem WireError.isMismatch_mismatch (what : Mismatch) : (WireError.mismatch what).IsMismatch :=
  ⟨what, rfl⟩

namespace Field

variable {room : Nat}

theorem composed_decodeMember (h : (decodeLevelled room).Composed WireError.IsMismatch) :
    (decodeMember room).Composed WireError.IsMismatch := by
  rw [decodeMember]
  apply Composed.bind Composed.string
  intro name
  apply Composed.bind h
  intro d
  cases d with
  | none => exact Composed.fail (.inr (WireError.isMismatch_mismatch _))
  | some d => exact Composed.pure _

/-- Given this of the descriptor's body. -/
theorem composed_decodeLevelled
    (hbody : ∀ code, (decodeBody room code).Composed WireError.IsMismatch) :
    (decodeLevelled room).Composed WireError.IsMismatch := by
  rw [decodeLevelled]
  apply Composed.bind Composed.octet
  intro first
  split
  · exact Composed.pure none
  split
  · apply Composed.bind Composed.word16
    intro n
    apply Composed.bind Composed.get
    intro known
    split
    · exact Composed.fail_decode rfl
    split
    · exact Composed.fail_decode rfl
    · exact Composed.pure _
  split
  · apply Composed.bind Composed.word16
    intro n
    apply Composed.bind Composed.octet
    intro code
    apply Composed.bind (hbody code)
    intro d
    apply Composed.bind (Composed.modify _)
    intro _
    exact Composed.pure _
  · exact (hbody first).map some

theorem plain_leaf (code : UInt8) :
    (match ofLeafCode? code with
      | some f => return ⟨f, 1⟩
      | none => fail (.unknownTypeCode code) : Decoder KnownTypes Levelled).Plain := by
  split
  · exact Composed.pure _
  · exact Composed.fail_decode rfl

/-- By induction on the room. -/
theorem composed_decodeBody (room : Nat) (code : UInt8) :
    (decodeBody room code).Composed WireError.IsMismatch := by
  induction room generalizing code with
  | zero =>
    rw [decodeBody]
    split
    · exact Composed.fail_decode rfl
    split
    · exact Composed.fail_decode rfl
    · exact Composed.of_plain (plain_leaf code)
  | succ room ih =>
    have hlevelled := composed_decodeLevelled ih
    rw [decodeBody]
    split
    · apply Composed.bind Composed.string
      intro id
      apply Composed.bind Composed.length
      intro count
      exact ((composed_decodeMember hlevelled).times count).map _
    split
    · apply Composed.bind hlevelled
      intro d
      split
      · exact Composed.pure _
      · exact Composed.fail (.inr (WireError.isMismatch_mismatch _))
    · exact Composed.of_plain (plain_leaf code)

theorem composed_decode? : decode?.Composed WireError.IsMismatch :=
  (composed_decodeLevelled (composed_decodeBody maxLevels)).map _

end Field

theorem Described.composed_decode? : Described.decode?.Composed WireError.IsMismatch := by
  apply Composed.bind Field.composed_decode?
  intro f
  cases f with
  | none => exact Composed.pure none
  | some f => exact (Composed.of_plain f.plain_decodeValue).map _

end PvNet
