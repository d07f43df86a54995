import PvNet.Discovery.Beacon
import PvNet.Proofs.Delimiting
import PvNet.Proofs.Discovery.SearchMessages
import PvNet.Proofs.Schema.Unnumbered
import PvNet.Proofs.Value.DescribedStream
set_option autoImplicit false

/-!
# Beacons that arrive

A beacon belongs to no connection, so the status that it carries is written in full and
arrives without any numbers, up to the nesting limit.  The sender writes the absence of a
status too.  A receiver does not insist on it: a beacon may as well end in front of its
status, which is why a receiver cannot tell a beacon that has been cut off there.
-/

namespace PvNet

open Decoder

/-! ## The status -/

/-- Whether a described value can be announced: it suits its descriptor, all sizes can be written
and the descriptor is not nested too deeply. -/
structure Described.Announceable (d : Described) : Prop where
  admits : d.field.admits d.value = true
  field_fits : d.field.fits = true
  value_fits : d.value.fits = true
  nesting_le : d.field.nesting ≤ maxLevels

/-- Without numbers an item is written as octets that anybody reads back. -/
theorem Described.exists_encode?_unnumbered (o : ByteOrder) (known : KnownTypes)
    {item : Option Described} (h : ∀ d, item = some d → d.Announceable) :
    ∃ bs, (Described.encode? o item .unnumbered).1 = .ofBytes bs ∧
      Described.decode?.Reads o known bs item known := by
  cases item with
  | none => exact ⟨[nullCode], rfl, Described.reads_null o known⟩
  | some d =>
    have hd := h d rfl
    have hfault := Described.fault_encode? o hd.admits .unnumbered
    refine ⟨_, Emission.eq_ofBytes hfault, ?_⟩
    have hfield : InFull o known (d.field.encode o .unnumbered) (Field.decodeLevelled maxLevels)
        (some ⟨d.field, d.field.levels⟩) :=
      Field.inFull_encode d.field hd.nesting_le hd.field_fits
    unfold Described.encode?
    rw [Emission.bytes_ofBytes_append]
    exact Described.reads_decode? hd.admits hd.value_fits hfield.reads

theorem Described.result_run_decode?_nil (o : ByteOrder) (known : KnownTypes) :
    (Described.decode?.run o known []).result = .error (.truncated 1 0) := by
  have hlevelled : (Field.decodeLevelled maxLevels).run o known [] =
      ⟨.error (.truncated 1 0), known, []⟩ := by
    rw [Field.decodeLevelled]
    rfl
  have hdescriptor : Field.decode?.run o known [] = ⟨.error (.truncated 1 0), known, []⟩ :=
    run_bind_of_error hlevelled
  have hitem : Described.decode?.run o known [] = ⟨.error (.truncated 1 0), known, []⟩ :=
    run_bind_of_error hdescriptor
  rw [hitem]

/-- An integer inside structures of one member each. -/
def Value.nested (value : Int32) : Nat → Value
  | 0 => .scalar (.int value)
  | n + 1 => .struct [Value.nested value n]

/-- The limit is on structures; a leaf inside them may lie one level further down. -/
theorem Described.announceable_nested (value : Int32) {n : Nat} (h : n ≤ maxLevels) :
    (⟨Field.nested n, Value.nested value n⟩ : Described).Announceable := by
  have hlevels : (Field.nested n).admits (Value.nested value n) = true ∧
      (Field.nested n).fits = true ∧ (Value.nested value n).fits = true ∧
      (Field.nested n).nesting = n := by
    clear h
    induction n with
    | zero => exact ⟨rfl, rfl, rfl, rfl⟩
    | succ n ih =>
      obtain ⟨hadmits, hfield, hvalue, hnesting⟩ := ih
      refine ⟨?_, ?_, ?_, ?_⟩
      · simp [Field.nested, Value.nested, Field.admits, Structure.admits, Structure.admitsMembers,
          hadmits]
      · simp [Field.nested, Field.fits, Structure.fits, Structure.membersFit, hfield, Wire.maxSize]
      · simp [Value.nested, Value.fits, Value.membersFit, hvalue]
      · simp [Field.nested, Field.height, Structure.height, Structure.memberHeight, hnesting]
  exact ⟨hlevels.1, hlevels.2.1, hlevels.2.2.1, Nat.le_trans (Nat.le_of_eq hlevels.2.2.2) h⟩

namespace Beacon

variable {σ : Type} {o : ByteOrder} {s : σ} {b : Beacon}

/-- What is read as a described value is read as a status, since that takes an octet at least. -/
theorem reads_decodeStatus {item : Option Described} {known : KnownTypes} {bs : Bytes}
    (h : Described.decode?.Reads o {} bs item known) :
    (decodeStatus : Decoder σ (Option Described)).Reads o s bs item s := by
  have hne : bs ≠ [] := by
    rintro rfl
    have hnil := Described.result_run_decode?_nil o {}
    rw [show Described.decode?.run o {} [] = ⟨.ok item, known, []⟩ from h []] at hnil
    cases hnil
  intro rest
  have hrun : Described.decode? o {} (bs ++ rest) = ⟨.ok item, known, rest⟩ := h rest
  have hempty : (bs ++ rest).isEmpty = false :=
    List.isEmpty_eq_false_iff.2 (List.append_ne_nil_of_left_ne_nil hne rest)
  show (if (bs ++ rest).isEmpty then _ else _) = _
  rw [hempty, hrun]
  rfl

/-! ## The beacon -/

/-- The octets in front of the status. -/
def headOctets (o : ByteOrder) (b : Beacon) : Bytes :=
  b.guid.octets ++ (b.flags :: b.sequence :: (Wire.word16 o b.changeCount ++
    (b.server.encode o ++ Wire.string o b.protocol)))

/-- The beacon as it arrives. -/
def canonical (b : Beacon) : Beacon := { b with server := b.server.canonical }

/-- Whether a beacon can be sent: its strings can be written and its status can be announced. -/
structure Fits (b : Beacon) : Prop where
  protocol : b.protocol.utf8ByteSize ≤ Wire.maxSize
  status : ∀ d, b.status = some d → d.Announceable

theorem encode_eq (o : ByteOrder) (b : Beacon) :
    b.encode o =
      .ofBytes (b.headOctets o) ++ (Described.encode? o b.status .unnumbered).1 := by
  simp [encode, headOctets, SentTypes.unnumbered]

/-- Behind the octets in front of it only the status is left to read. -/
theorem run_decode_append (h : b.protocol.utf8ByteSize ≤ Wire.maxSize) (bs : Bytes) :
    decode.run o s (b.headOctets o ++ bs) =
      (decodeStatus >>= fun status => pure { b.canonical with status }).run o s bs := by
  simp only [headOctets, List.append_assoc, List.cons_append]
  rw [decode, run_bind_of_ok (b.guid.reads_decode o s _), run_octet_bind, run_octet_bind,
    run_bind_of_ok (Reads.word16 o s b.changeCount _),
    run_bind_of_ok (b.server.reads_decode o s _), run_bind_of_ok (Reads.string o s h _)]
  rfl

/-- A beacon is written as octets that are read back, with its endpoint in its usual form. -/
theorem exists_encode (o : ByteOrder) (s : σ) (h : b.Fits) :
    ∃ bs, b.encode o = .ofBytes bs ∧ decode.Reads o s bs b.canonical s := by
  obtain ⟨bs, hencode, hreads⟩ := Described.exists_encode?_unnumbered o {} h.status
  refine ⟨b.headOctets o ++ bs, ?_, ?_⟩
  · rw [encode_eq, hencode]
    rfl
  · have hstatus : (decodeStatus >>= fun status =>
        pure { b.canonical with status } : Decoder σ Beacon).Reads o s bs b.canonical s :=
      (reads_decodeStatus hreads).bind_pure (Reads.pure b.canonical o s)
    intro rest
    rw [List.append_assoc, run_decode_append h.protocol]
    exact hstatus rest

/-- A beacon without a status may end in front of it or behind the octet that says so, so its octets
do not say where it ends. -/
theorem not_selfDelimiting (s : σ) : ¬ (decode : Decoder σ Beacon).SelfDelimiting := by
  intro h
  have hprotocol : (default : Beacon).protocol.utf8ByteSize ≤ Wire.maxSize := Nat.zero_le _
  have hshort : decode.run .big s (headOctets .big default ++ []) =
      ⟨.ok (canonical default), s, []⟩ := run_decode_append hprotocol []
  have hnull := reads_decodeStatus (s := s) (Described.reads_null .big {}) []
  have hlong : decode.run .big s (headOctets .big default ++ [nullCode]) =
      ⟨.ok (canonical default), s, []⟩ :=
    (run_decode_append hprotocol [nullCode]).trans (run_bind_of_ok hnull)
  obtain ⟨item, hitem, hreads, -⟩ := h.item .big s _ _ s [] hshort
  rw [List.append_nil, List.append_nil] at hitem
  rw [hitem, hreads [nullCode]] at hlong
  cases hlong

end Beacon

end PvNet
