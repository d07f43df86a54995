import PvNet.Message.Basic
set_option autoImplicit false

/-!
# Messages and their octets

Every buffer is in one of three states for good: it starts with octets at which
decoding fails, it starts with the octets of a message, or it is too short to tell.
`Message.decode?_cases` says which, and what it says of the first two does not depend
on what follows.

The main statement is that encoding and decoding are inverse to each other: a message
comes back from its octets as its header declares it, and whatever a message was
decoded from are its octets, whatever the version, the flags and the command.
-/

namespace PvNet

/-! ## Size fields -/

namespace Wire

/-- A word is four octets, from which it is read back. -/
theorem exists_word32 (o : ByteOrder) (n : UInt32) :
    ∃ a b c d, word32 o n = [a, b, c, d] ∧ UInt32.ofNat (o.decode [a, b, c, d]) = n := by
  have hlength : (word32 o n).length = 4 := ByteOrder.length_encode o 4 n.toNat
  have hvalue : UInt32.ofNat (o.decode (word32 o n)) = n := by
    unfold word32
    rw [ByteOrder.decode_encode, Nat.mod_eq_of_lt n.toNat_lt, UInt32.ofNat_toNat]
  rcases hword : word32 o n with _ | ⟨a, _ | ⟨b, _ | ⟨c, _ | ⟨d, _ | ⟨e, es⟩⟩⟩⟩⟩
  case cons.cons.cons.cons.nil =>
    rw [hword] at hvalue
    exact ⟨a, b, c, d, rfl, hvalue⟩
  all_goals simp [hword] at hlength

/-- Four octets are those of the word that is read from them. -/
theorem word32_decode (o : ByteOrder) (a b c d : UInt8) :
    word32 o (UInt32.ofNat (o.decode [a, b, c, d])) = [a, b, c, d] := by
  have hlt : o.decode [a, b, c, d] < Nat.pow 256 4 := o.decode_lt [a, b, c, d]
  unfold word32
  rw [UInt32.toNat_ofNat_of_lt' hlt]
  exact o.encode_decode [a, b, c, d]

end Wire

/-! ## Headers -/

namespace Header

@[simp] theorem length_encode (h : Header) : h.encode.length = wireSize := by
  simp [encode, Wire.word32, wireSize]

theorem decode?_encode_append {h : Header} (hseg : h.isSegmented = false) (rest : Bytes) :
    decode? (h.encode ++ rest) = .ok (some h) := by
  obtain ⟨a, b, c, d, hword, hvalue⟩ := Wire.exists_word32 h.order h.payloadSize
  unfold order at hvalue
  unfold encode
  rw [hword]
  simp only [List.cons_append, List.nil_append, decode?, ne_eq, not_true_eq_false, if_false]
  rw [hvalue, hseg]
  rfl

/-- Eight octets are those of a header as soon as the first one is the magic octet. -/
theorem encode_or_not_magic (bs : Bytes) :
    bs.length < wireSize ∨
      (∃ first rest, bs = first :: rest ∧ first ≠ magic ∧ wireSize ≤ bs.length) ∨
      ∃ (h : Header) (body : Bytes), bs = h.encode ++ body := by
  rcases bs with _ | ⟨first, _ | ⟨version, _ | ⟨flags, _ | ⟨command, _ | ⟨a, _ | ⟨b, _ | ⟨c, _ |
    ⟨d, body⟩⟩⟩⟩⟩⟩⟩⟩
  case cons.cons.cons.cons.cons.cons.cons.cons =>
    right
    by_cases hmagic : first = magic
    · let h : Header :=
        ⟨version, flags, command, UInt32.ofNat ((orderOfFlags flags).decode [a, b, c, d])⟩
      have hword : Wire.word32 h.order h.payloadSize = [a, b, c, d] :=
        Wire.word32_decode (orderOfFlags flags) a b c d
      refine .inr ⟨h, body, ?_⟩
      rw [encode, hword, hmagic]
      rfl
    · exact .inl ⟨first, _, rfl, hmagic, by simp [wireSize]⟩
  all_goals exact .inl (by simp [wireSize])

theorem decode?_of_length_lt {bs : Bytes} (h : bs.length < wireSize) : decode? bs = .ok none := by
  rcases bs with _ | ⟨first, _ | ⟨version, _ | ⟨flags, _ | ⟨command, _ | ⟨a, _ | ⟨b, _ | ⟨c, _ |
    ⟨d, body⟩⟩⟩⟩⟩⟩⟩⟩
  case cons.cons.cons.cons.cons.cons.cons.cons =>
    simp only [List.length_cons, wireSize] at h
    omega
  all_goals rfl

theorem decode?_of_ne_magic {first : UInt8} {rest : Bytes} (h : first ≠ magic)
    (hlength : wireSize ≤ (first :: rest).length) :
    decode? (first :: rest) = .error (.invalidMagic first) := by
  rcases rest with _ | ⟨version, _ | ⟨flags, _ | ⟨command, _ | ⟨a, _ | ⟨b, _ | ⟨c, _ |
    ⟨d, body⟩⟩⟩⟩⟩⟩⟩
  case cons.cons.cons.cons.cons.cons.cons => exact if_pos h
  all_goals simp [wireSize] at hlength

theorem decode?_of_segmented {h : Header} (hseg : h.isSegmented = true) (body : Bytes) :
    decode? (h.encode ++ body) = .error (.segmented h.flags) := by
  obtain ⟨a, b, c, d, hword, hvalue⟩ := Wire.exists_word32 h.order h.payloadSize
  unfold order at hvalue
  rw [encode, hword]
  simp only [List.cons_append, List.nil_append, decode?, ne_eq, not_true_eq_false, if_false]
  rw [hvalue]
  exact if_pos hseg

/-- A buffer is too short for a header, or no header stands in front of it, or one does.  In the
second case decoding fails the same way whatever follows. -/
theorem decode?_cases (bs : Bytes) :
    (bs.length < wireSize ∧ decode? bs = .ok none) ∨
      (∃ e : WireError, e.isDecode = true ∧ ∀ more, decode? (bs ++ more) = .error e) ∨
      ∃ (h : Header) (rest : Bytes), h.isSegmented = false ∧ bs = h.encode ++ rest := by
  rcases encode_or_not_magic bs with hshort | ⟨first, rest, rfl, hmagic, hlength⟩ | ⟨h, body, rfl⟩
  · exact .inl ⟨hshort, decode?_of_length_lt hshort⟩
  · refine .inr (.inl ⟨.invalidMagic first, rfl, fun more => decode?_of_ne_magic hmagic ?_⟩)
    exact Nat.le_trans hlength (by simp)
  · right
    cases hseg : h.isSegmented with
    | true =>
      refine .inl ⟨.segmented h.flags, rfl, fun more => ?_⟩
      rw [List.append_assoc, decode?_of_segmented hseg]
    | false => exact .inr ⟨h, body, hseg, rfl⟩

end Header

/-! ## Messages -/

namespace Message

/-- Whether a message can be sent to a receiver with a payload limit. -/
structure Sendable (maxPayload : Nat) (m : Message) : Prop where
  unsegmented : m.header.isSegmented = false
  payload_of_control : m.isControl = true → m.payload = []
  length_le : m.payload.length ≤ maxPayload
  length_le_declared : m.payload.length ≤ maxDeclared

instance (maxPayload : Nat) (m : Message) : Decidable (m.Sendable maxPayload) :=
  decidable_of_iff
    (m.header.isSegmented = false ∧ (m.isControl = true → m.payload = []) ∧
      m.payload.length ≤ maxPayload ∧ m.payload.length ≤ maxDeclared)
    ⟨fun h => ⟨h.1, h.2.1, h.2.2.1, h.2.2.2⟩, fun h => ⟨h.1, h.2, h.3, h.4⟩⟩

theorem Sendable.mono {maxPayload maxPayload' : Nat} {m : Message} (h : m.Sendable maxPayload)
    (hle : maxPayload ≤ maxPayload') : m.Sendable maxPayload' :=
  ⟨h.unsegmented, h.payload_of_control, Nat.le_trans h.length_le hle, h.length_le_declared⟩

/-- The message as it is received: the size of an application message is that of its payload. -/
def declared (m : Message) : Message :=
  if m.isControl then m
  else { m with header := { m.header with payloadSize := UInt32.ofNat m.payload.length } }

@[simp] theorem payload_declared (m : Message) : m.declared.payload = m.payload := by
  unfold declared
  split
  · rfl
  · rfl

@[simp] theorem flags_declared (m : Message) : m.declared.header.flags = m.header.flags := by
  unfold declared
  split
  · rfl
  · rfl

variable {maxPayload : Nat} {m : Message}

/-- The header declares exactly the payload. -/
theorem Sendable.payloadLength_declared (h : m.Sendable maxPayload) :
    m.declared.header.payloadLength = m.payload.length := by
  unfold declared
  split
  · rename_i hcontrol
    have hzero : m.header.payloadLength = 0 := if_pos hcontrol
    rw [hzero, h.payload_of_control hcontrol]
    rfl
  · rename_i hcontrol
    have hlt : m.payload.length < UInt32.size := Nat.lt_succ_of_le h.length_le_declared
    exact (if_neg hcontrol).trans (UInt32.toNat_ofNat_of_lt' hlt)

theorem Sendable.encode_eq (h : m.Sendable maxPayload) :
    m.encode = .ok (m.declared.header.encode ++ m.payload) := by
  unfold encode declared
  split
  · rename_i hcontrol
    rw [h.payload_of_control hcontrol, List.append_nil]
  · rw [if_neg (Nat.not_lt.2 h.length_le_declared)]

theorem Sendable.octets_eq (h : m.Sendable maxPayload) :
    m.octets = m.declared.header.encode ++ m.payload := by
  unfold octets
  rw [h.encode_eq]
  rfl

theorem Sendable.encode_eq_octets (h : m.Sendable maxPayload) : m.encode = .ok m.octets := by
  rw [h.encode_eq, h.octets_eq]

/-- What decoding makes of a header and what follows it. -/
theorem decode?_header_append {h : Header} (hseg : h.isSegmented = false) (maxPayload : Nat)
    (body : Bytes) :
    decode? maxPayload (h.encode ++ body) =
      if maxPayload < h.payloadLength then .error (.payloadTooLarge h.payloadLength maxPayload)
      else if h.payloadLength ≤ body.length then
        .ok (some (⟨h, body.take h.payloadLength⟩, body.drop h.payloadLength))
      else .ok none := by
  have hbody : (h.encode ++ body).drop Header.wireSize = body := by
    rw [← h.length_encode, List.drop_left]
  unfold decode?
  rw [Header.decode?_encode_append hseg]
  simp only [hbody, Decoder.hasAtLeast_iff]

/-- A message is decoded from its octets, whatever follows them. -/
theorem Sendable.decode?_octets_append (h : m.Sendable maxPayload) (rest : Bytes) :
    decode? maxPayload (m.octets ++ rest) = .ok (some (m.declared, rest)) := by
  have hseg : m.declared.header.isSegmented = false := by
    unfold Header.isSegmented
    rw [flags_declared]
    exact h.unsegmented
  have hlength := h.payloadLength_declared
  have hmessage : (⟨m.declared.header, m.payload⟩ : Message) = m.declared := by
    rw [← payload_declared]
  rw [h.octets_eq, List.append_assoc, decode?_header_append hseg, hlength,
    if_neg (Nat.not_lt.2 h.length_le), if_pos (by simp), List.take_left, List.drop_left, hmessage]

/-- The three states of a buffer: decoding fails whatever follows, or it waits, or the buffer starts
with the octets of a message. -/
theorem decode?_cases (maxPayload : Nat) (buffer : Bytes) :
    (∃ e : WireError, e.isDecode = true ∧ ∀ more, decode? maxPayload (buffer ++ more) = .error e) ∨
      decode? maxPayload buffer = .ok none ∨
      ∃ (m : Message) (rest : Bytes),
        m.Sendable maxPayload ∧ m.declared = m ∧ buffer = m.octets ++ rest := by
  rcases Header.decode?_cases buffer with ⟨_, hshort⟩ | ⟨e, he, hfails⟩ | ⟨h, body, hseg, rfl⟩
  · refine .inr (.inl ?_)
    unfold decode?
    rw [hshort]
  · refine .inl ⟨e, he, fun more => ?_⟩
    unfold decode?
    rw [hfails]
  · by_cases hlimit : maxPayload < h.payloadLength
    · refine .inl ⟨.payloadTooLarge h.payloadLength maxPayload, rfl, fun more => ?_⟩
      rw [List.append_assoc, decode?_header_append hseg, if_pos hlimit]
    by_cases hcomplete : h.payloadLength ≤ body.length
    · let m : Message := ⟨h, body.take h.payloadLength⟩
      have hlength : m.payload.length = h.payloadLength := List.length_take_of_le hcomplete
      have hdeclared : m.declared = m := by
        unfold declared
        split
        · rfl
        · rename_i hcontrol
          have hsize : h.payloadLength = h.payloadSize.toNat := if_neg hcontrol
          rw [hlength, hsize, UInt32.ofNat_toNat]
      have hsendable : m.Sendable maxPayload := by
        refine ⟨hseg, fun hcontrol => ?_, ?_, ?_⟩
        · have hzero : h.payloadLength = 0 := if_pos hcontrol
          exact List.eq_nil_of_length_eq_zero (hlength.trans hzero)
        · rw [hlength]
          exact Nat.le_of_not_lt hlimit
        · rw [hlength]
          unfold Header.payloadLength maxDeclared
          have hsize := h.payloadSize.toNat_lt
          split <;> omega
      refine .inr (.inr ⟨m, body.drop h.payloadLength, hsendable, hdeclared, ?_⟩)
      rw [hsendable.octets_eq, hdeclared, List.append_assoc]
      exact congrArg (h.encode ++ ·) (List.take_append_drop h.payloadLength body).symm
    · refine .inr (.inl ?_)
      rw [decode?_header_append hseg, if_neg hlimit, if_neg hcomplete]

/-- Where decoding fails the octets are malformed, and more of them change nothing. -/
theorem malformed_of_decode? {buffer : Bytes} {e : WireError}
    (h : decode? maxPayload buffer = .error e) :
    e.isDecode = true ∧ ∀ more, decode? maxPayload (buffer ++ more) = .error e := by
  rcases decode?_cases maxPayload buffer with
    ⟨e', he', hfails⟩ | hwaits | ⟨m, rest, hsendable, _, rfl⟩
  · have hsame := hfails []
    rw [List.append_nil, h] at hsame
    obtain rfl := Except.error.inj hsame
    exact ⟨he', hfails⟩
  · rw [h] at hwaits
    cases hwaits
  · rw [hsendable.decode?_octets_append] at h
    cases h

/-- What a message was decoded from are its octets. -/
theorem sendable_of_decode? {buffer rest : Bytes}
    (h : decode? maxPayload buffer = .ok (some (m, rest))) :
    m.Sendable maxPayload ∧ m.declared = m ∧ buffer = m.octets ++ rest := by
  rcases decode?_cases maxPayload buffer with
    ⟨e, _, hfails⟩ | hwaits | ⟨m', rest', hsendable, hdeclared, rfl⟩
  · have herror := hfails []
    rw [List.append_nil, h] at herror
    cases herror
  · rw [h] at hwaits
    cases hwaits
  · rw [hsendable.decode?_octets_append, hdeclared] at h
    obtain ⟨rfl, rfl⟩ := Prod.mk.inj (Option.some.inj (Except.ok.inj h))
    exact ⟨hsendable, hdeclared, rfl⟩

/-- Encoding and decoding are inverse to each other.  A message that can be sent is decoded from its
octets as its header declares it, whatever stood in front of them and whatever follows.  Every
message that is decoded can be sent and is as its header declares it, and what it was decoded from
are its octets. -/
theorem decode_inverts_encode (maxPayload : Nat) :
    (∀ m : Message, m.Sendable maxPayload → ∃ octets, m.encode = .ok octets ∧
      ∀ front rest, decode? maxPayload ((front ++ octets ++ rest).drop front.length) =
        .ok (some (m.declared, rest))) ∧
      ∀ (buffer : Bytes) (m : Message) (rest : Bytes),
        decode? maxPayload buffer = .ok (some (m, rest)) →
        m.Sendable maxPayload ∧ m.declared = m ∧
          ∃ octets, m.encode = .ok octets ∧ octets ++ rest = buffer := by
  refine ⟨fun m hm => ⟨m.octets, hm.encode_eq_octets, fun front rest => ?_⟩,
    fun buffer m rest h => ?_⟩
  · rw [List.append_assoc, List.drop_left]
    exact hm.decode?_octets_append rest
  · obtain ⟨hsendable, hdeclared, hbuffer⟩ := sendable_of_decode? h
    exact ⟨hsendable, hdeclared, m.octets, hsendable.encode_eq_octets, hbuffer.symm⟩

/-- A message of an unknown revision with meaningless flags and a wrong size. -/
def misdeclared : Message := ⟨⟨7, 0xCE, 200, 9⟩, [1, 2, 3]⟩

/-- It is received with the right size, and nothing else of it changes; a control message keeps what
stands in its size field, in the order of its flags. -/
theorem misdeclared_decoded :
    misdeclared.Sendable 3 ∧
      (∃ octets, misdeclared.encode = .ok octets ∧
        ∀ front rest, decode? 3 ((front ++ octets ++ rest).drop front.length) =
          .ok (some (⟨⟨7, 0xCE, 200, 3⟩, [1, 2, 3]⟩, rest))) ∧
      decode? 0 [0xCA, 2, 0x41, 3, 1, 2, 3, 4, 0xCA] =
        .ok (some (⟨⟨2, 0x41, 3, 0x04030201⟩, []⟩, [0xCA])) ∧
      ∃ octets, (⟨⟨2, 0x41, 3, 0x04030201⟩, []⟩ : Message).encode = .ok octets ∧
        octets ++ [0xCA] = [0xCA, 2, 0x41, 3, 1, 2, 3, 4, 0xCA] := by
  have hsendable : misdeclared.Sendable 3 := by decide
  have hdecoded : decode? 0 [0xCA, 2, 0x41, 3, 1, 2, 3, 4, 0xCA] =
      .ok (some (⟨⟨2, 0x41, 3, 0x04030201⟩, []⟩, [0xCA])) := rfl
  exact ⟨hsendable, (decode_inverts_encode 3).1 misdeclared hsendable, hdecoded,
    ((decode_inverts_encode 0).2 _ _ _ hdecoded).2.2⟩

end Message

end PvNet
