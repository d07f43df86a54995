import Mathlib.Data.List.Basic
import PvNet.Proofs.Message.Transmission
set_option autoImplicit false

/-!
# Datagrams as sequences of messages

A datagram is accepted exactly if it consists of messages, and then the messages that
it gives are the ones it consists of.  In every other datagram a front made of messages,
which may be empty, is followed by something that does not start with a message.
`Message.Spoiled` says in which of five ways that can be; each has its own error, so the
error is known from the octets.
-/

namespace PvNet

namespace Message

variable {m : Message} {ms : List Message} {maxPayload : Nat} {datagram rest : Bytes}
  {e : WireError}

/-! ## Sequences of messages -/

/-- The octets of messages one after the other, unless one of them cannot be encoded. -/
def encodeAll (ms : List Message) : Except WireError Bytes := List.flatten <$> ms.mapM encode

theorem encodeAll_of_sendable (h : ∀ m ∈ ms, m.Sendable maxPayload) :
    encodeAll ms = .ok (ms.flatMap octets) := by
  have hoctets : ms.mapM encode = .ok (ms.map octets) := by
    induction ms with
    | nil => rfl
    | cons m ms ih =>
      obtain ⟨hm, hms⟩ := List.forall_mem_cons.1 h
      rw [List.mapM_cons, hm.encode_eq_octets, ih hms]
      rfl
  rw [encodeAll, hoctets]
  rfl

/-- What is received for a message has the octets of the message. -/
theorem Sendable.transmissible_declared (h : m.Sendable maxPayload) :
    m.declared.Transmissible maxPayload ∧ m.declared.octets = m.octets := by
  have hdecode := h.decode?_octets_append []
  obtain ⟨hsendable, hdeclared, hoctets⟩ := sendable_of_decode? hdecode
  rw [List.append_nil, List.append_nil] at hoctets
  exact ⟨⟨hsendable, hdeclared⟩, hoctets.symm⟩

theorem flatMap_octets_declared (h : ∀ m ∈ ms, m.Sendable maxPayload) :
    (ms.map declared).flatMap octets = ms.flatMap octets := by
  rw [List.flatMap_map]
  exact List.flatMap_congr fun m hm => (h m hm).transmissible_declared.2

theorem ofDatagram_octets_append (h : ∀ m ∈ ms, m.Transmissible maxDatagram) (rest : Bytes) :
    ofDatagram (ms.flatMap octets ++ rest) = (ofDatagram rest).map (ms ++ ·) := by
  induction ms with
  | nil =>
    rw [List.flatMap_nil, List.nil_append]
    cases ofDatagram rest <;> rfl
  | cons m ms ih =>
    obtain ⟨hm, hms⟩ := List.forall_mem_cons.1 h
    rw [List.flatMap_cons, List.append_assoc, hm.ofDatagram_append, ih hms]
    cases ofDatagram rest <;> rfl

/-! ## What is not a message -/

/-- In which way octets do not start with a message that a datagram can hold, and the error for
it. -/
inductive Spoiled : Bytes → WireError → Prop
  /-- There are octets, but too few for a header. -/
  | short {rest : Bytes} : rest ≠ [] → rest.length < Header.wireSize →
      Spoiled rest (.truncated Header.wireSize rest.length)
  /-- There are enough octets for a header, and the first is not the magic one. -/
  | notMagic {first : UInt8} {rest : Bytes} : first ≠ Header.magic →
      Header.wireSize ≤ (first :: rest).length → Spoiled (first :: rest) (.invalidMagic first)
  /-- The header is that of a segment. -/
  | segmented {h : Header} {body : Bytes} : h.isSegmented = true →
      Spoiled (h.encode ++ body) (.segmented h.flags)
  /-- The header declares more than a datagram can hold, whatever follows. -/
  | tooLarge {h : Header} {body : Bytes} : h.isSegmented = false →
      maxDatagram < h.payloadLength →
      Spoiled (h.encode ++ body) (.payloadTooLarge h.payloadLength maxDatagram)
  /-- The header declares more than what follows. -/
  | incomplete {h : Header} {body : Bytes} : h.isSegmented = false →
      h.payloadLength ≤ maxDatagram → body.length < h.payloadLength →
      Spoiled (h.encode ++ body)
        (.truncated (Header.wireSize + h.payloadLength) (Header.wireSize + body.length))

/-- A header never asks for less than what is there. -/
theorem Spoiled.remaining_lt_needed {needed remaining : Nat}
    (h : Spoiled rest (.truncated needed remaining)) :
    remaining < needed ∧ remaining = rest.length := by
  cases h with
  | short _ hlength => exact ⟨hlength, rfl⟩
  | incomplete _ _ hlength =>
    rw [List.length_append, Header.length_encode]
    exact ⟨Nat.add_lt_add_left hlength _, rfl⟩

theorem message_or_spoiled (rest : Bytes) :
    rest = [] ∨ (∃ e, Spoiled rest e) ∨
      ∃ (m : Message) (rest' : Bytes), m.Transmissible maxDatagram ∧ rest = m.octets ++ rest' := by
  rcases Header.encode_or_not_magic rest with hshort | ⟨first, rest, rfl, hmagic, hlength⟩ |
    ⟨h, body, rfl⟩
  · by_cases hempty : rest = []
    · exact .inl hempty
    · exact .inr (.inl ⟨_, .short hempty hshort⟩)
  · exact .inr (.inl ⟨_, .notMagic hmagic hlength⟩)
  · right
    cases hseg : h.isSegmented with
    | true => exact .inl ⟨_, .segmented hseg⟩
    | false =>
      by_cases hlimit : maxDatagram < h.payloadLength
      · exact .inl ⟨_, .tooLarge hseg hlimit⟩
      by_cases hcomplete : h.payloadLength ≤ body.length
      · have hdecode := decode?_header_append hseg maxDatagram body
        rw [if_neg hlimit, if_pos hcomplete] at hdecode
        obtain ⟨hsendable, hdeclared, hoctets⟩ := sendable_of_decode? hdecode
        exact .inr ⟨_, _, ⟨hsendable, hdeclared⟩, hoctets⟩
      · exact .inl ⟨_, .incomplete hseg (Nat.le_of_not_lt hlimit) (Nat.lt_of_not_le hcomplete)⟩

/-- A datagram is a sequence of messages up to where it is spoiled.  The induction is on its length,
since every message takes octets off it. -/
theorem exists_messages_append (datagram : Bytes) :
    ∃ (ms : List Message) (rest : Bytes), (∀ m ∈ ms, m.Transmissible maxDatagram) ∧
      datagram = ms.flatMap octets ++ rest ∧ (rest = [] ∨ ∃ e, Spoiled rest e) := by
  induction hlength : datagram.length using Nat.strongRecOn generalizing datagram with
  | ind n ih =>
    rcases message_or_spoiled datagram with rfl | hspoiled | ⟨m, rest, hm, rfl⟩
    · exact ⟨[], [], nofun, rfl, .inl rfl⟩
    · exact ⟨[], datagram, nofun, rfl, .inr hspoiled⟩
    · have hshorter := length_lt_of_decode? (hm.decode? rest)
      obtain ⟨ms, rest', hms, rfl, hrest'⟩ := ih _ (hlength ▸ hshorter) rest rfl
      refine ⟨m :: ms, rest', List.forall_mem_cons.2 ⟨hm, hms⟩, ?_, hrest'⟩
      rw [List.flatMap_cons, List.append_assoc]

/-! ## Errors -/

theorem ofDatagram_of_decode?_none (hsome : datagram ≠ [])
    (h : decode? maxDatagram datagram = .ok none) :
    ofDatagram datagram =
      match Header.decode? datagram with
      | .error e => .error e
      | .ok (some header) =>
        .error (.truncated (Header.wireSize + header.payloadLength) datagram.length)
      | .ok none => .error (.truncated Header.wireSize datagram.length) := by
  rw [ofDatagram]
  split
  · rename_i hempty
    exact absurd (List.isEmpty_iff.1 hempty) hsome
  split
  · rename_i he
    rw [h] at he
    cases he
  · rename_i hsome
    rw [h] at hsome
    cases hsome
  · rfl

theorem Spoiled.ofDatagram (h : Spoiled rest e) : ofDatagram rest = .error e := by
  cases h with
  | short hsome hlength =>
    have hshort := Header.decode?_of_length_lt hlength
    have hwaits : decode? maxDatagram rest = .ok none := by
      unfold decode?
      rw [hshort]
    rw [ofDatagram_of_decode?_none hsome hwaits, hshort]
  | notMagic hmagic hlength =>
    refine ofDatagram_of_decode?_error ?_
    unfold decode?
    rw [Header.decode?_of_ne_magic hmagic hlength]
  | segmented hseg =>
    refine ofDatagram_of_decode?_error ?_
    unfold decode?
    rw [Header.decode?_of_segmented hseg]
  | tooLarge hseg hlimit =>
    refine ofDatagram_of_decode?_error ?_
    rw [decode?_header_append hseg, if_pos hlimit]
  | @incomplete h body hseg hlimit hlength =>
    have hsome : h.encode ++ body ≠ [] := nofun
    have hwaits : decode? maxDatagram (h.encode ++ body) = .ok none := by
      rw [decode?_header_append hseg, if_neg (Nat.not_lt.2 hlimit), if_neg (Nat.not_le.2 hlength)]
    rw [ofDatagram_of_decode?_none hsome hwaits, Header.decode?_encode_append hseg]
    simp only [List.length_append, Header.length_encode]

/-- What a datagram comes to is determined by the messages in front and by what follows them. -/
theorem ofDatagram_eq_error_iff :
    ofDatagram datagram = .error e ↔
      ∃ (ms : List Message) (rest : Bytes), (∀ m ∈ ms, m.Transmissible maxDatagram) ∧
        datagram = ms.flatMap octets ++ rest ∧ Spoiled rest e := by
  constructor
  · intro h
    obtain ⟨ms, rest, hms, rfl, hrest⟩ := exists_messages_append datagram
    rw [ofDatagram_octets_append hms] at h
    rcases hrest with rfl | ⟨e', hspoiled⟩
    · rw [ofDatagram_nil] at h
      cases h
    · rw [hspoiled.ofDatagram] at h
      obtain rfl := Except.error.inj h
      exact ⟨ms, rest, hms, rfl, hspoiled⟩
  · rintro ⟨ms, rest, hms, rfl, hspoiled⟩
    rw [ofDatagram_octets_append hms, hspoiled.ofDatagram]
    rfl

/-! ## Acceptance -/

/-- Messages whose headers declare their payloads make up a datagram exactly if it gives them back. -/
theorem ofDatagram_eq_ok_iff :
    ofDatagram datagram = .ok ms ↔
      (∀ m ∈ ms, m.Transmissible maxDatagram) ∧ encodeAll ms = .ok datagram := by
  constructor
  · intro h
    obtain ⟨hms, rfl⟩ := transmissible_of_ofDatagram h
    exact ⟨hms, encodeAll_of_sendable fun m hm => (hms m hm).sendable⟩
  · rintro ⟨hms, hdatagram⟩
    rw [encodeAll_of_sendable fun m hm => (hms m hm).sendable] at hdatagram
    obtain rfl := Except.ok.inj hdatagram
    exact ofDatagram_octets hms

/-- A datagram is accepted exactly if it is the concatenation of the octets of messages that a
datagram can hold, and it gives these messages, in this order; a message with a wrong size field
comes back with the size of its payload.  Every other datagram is refused: behind a front of
messages it is spoiled in the way that the error names, and where something is truncated more is
needed than remains. -/
theorem datagrams_concatenate_messages (datagram : Bytes) :
    (∀ ms, ofDatagram datagram = .ok ms ↔
      (∀ m ∈ ms, m.Transmissible maxDatagram) ∧ encodeAll ms = .ok datagram) ∧
    (∀ ms, (∀ m ∈ ms, m.Sendable maxDatagram) → encodeAll ms = .ok datagram →
      ofDatagram datagram = .ok (ms.map declared)) ∧
    (datagram = [] → ofDatagram datagram = .ok []) ∧
    ((¬ ∃ ms, (∀ m ∈ ms, m.Sendable maxDatagram) ∧ encodeAll ms = .ok datagram) →
      ∃ e, ofDatagram datagram = .error e) ∧
    (∀ e, ofDatagram datagram = .error e ↔
      ∃ (ms : List Message) (front rest : Bytes), (∀ m ∈ ms, m.Transmissible maxDatagram) ∧
        encodeAll ms = .ok front ∧ datagram = front ++ rest ∧ Spoiled rest e) ∧
    ∀ needed remaining, ofDatagram datagram = .error (.truncated needed remaining) →
      remaining < needed := by
  refine ⟨fun ms => ofDatagram_eq_ok_iff, ?_, ?_, ?_, fun e => ?_, ?_⟩
  · intro ms hms hdatagram
    rw [encodeAll_of_sendable hms, ← flatMap_octets_declared hms] at hdatagram
    obtain rfl := Except.ok.inj hdatagram
    refine ofDatagram_octets fun m hm => ?_
    obtain ⟨m', hm', rfl⟩ := List.mem_map.1 hm
    exact (hms m' hm').transmissible_declared.1
  · rintro rfl
    exact ofDatagram_nil
  · intro hnone
    cases h : ofDatagram datagram with
    | error e => exact ⟨e, rfl⟩
    | ok ms =>
      obtain ⟨hms, hdatagram⟩ := ofDatagram_eq_ok_iff.1 h
      exact absurd ⟨ms, fun m hm => (hms m hm).sendable, hdatagram⟩ hnone
  · rw [ofDatagram_eq_error_iff]
    constructor
    · rintro ⟨ms, rest, hms, hdatagram, hspoiled⟩
      exact ⟨ms, _, rest, hms, encodeAll_of_sendable fun m hm => (hms m hm).sendable, hdatagram,
        hspoiled⟩
    · rintro ⟨ms, front, rest, hms, hfront, hdatagram, hspoiled⟩
      rw [encodeAll_of_sendable fun m hm => (hms m hm).sendable] at hfront
      obtain rfl := Except.ok.inj hfront
      exact ⟨ms, rest, hms, hdatagram, hspoiled⟩
  · intro needed remaining h
    obtain ⟨_, _, _, _, hspoiled⟩ := ofDatagram_eq_error_iff.1 h
    exact hspoiled.remaining_lt_needed.1

/-- The octets of a message with a wrong size field and, behind it, of a control message. -/
def mixedDatagram : Bytes :=
  [0xCA, 7, 0xCE, 200, 0, 0, 0, 3, 1, 2, 3, 0xCA, 2, 0x41, 3, 1, 2, 3, 4]

/-- A header that declares 65280 octets. -/
def lastHeader : Header := ⟨2, 0x80, 3, 0xFF00⟩

/-- The two messages come back, the first one with the right size.  With a header behind them that
declares 65280 octets, of which one is there, the datagram is truncated. -/
theorem mixedDatagram_split :
    encodeAll [misdeclared, ⟨⟨2, 0x41, 3, 0x04030201⟩, []⟩] = .ok mixedDatagram ∧
      ofDatagram mixedDatagram =
        .ok [⟨⟨7, 0xCE, 200, 3⟩, [1, 2, 3]⟩, ⟨⟨2, 0x41, 3, 0x04030201⟩, []⟩] ∧
      ofDatagram (mixedDatagram ++ [0xCA, 2, 0x80, 3, 0, 0, 0xFF, 0, 9]) =
        .error (.truncated 65288 9) ∧ 9 < 65288 := by
  have hoctets : encodeAll [misdeclared, ⟨⟨2, 0x41, 3, 0x04030201⟩, []⟩] = .ok mixedDatagram := rfl
  have hsplit := (datagrams_concatenate_messages mixedDatagram).2.1 _ (by decide) hoctets
  have hmessages := ((datagrams_concatenate_messages mixedDatagram).1 _).1 hsplit
  have hneeded : Header.wireSize + lastHeader.payloadLength = 65288 := by decide
  have hlast : lastHeader.encode ++ [9] = [0xCA, 2, 0x80, 3, 0, 0, 0xFF, 0, 9] := by decide
  have hspoiled : Spoiled (lastHeader.encode ++ [9])
      (.truncated (Header.wireSize + lastHeader.payloadLength) (Header.wireSize + 1)) :=
    .incomplete (by decide) (by decide) (by decide)
  rw [hneeded, hlast] at hspoiled
  have htruncated := ((datagrams_concatenate_messages _).2.2.2.2.1 _).2
    ⟨_, _, _, hmessages.1, hmessages.2, rfl, hspoiled⟩
  exact ⟨hoctets, hsplit, htruncated,
    (datagrams_concatenate_messages _).2.2.2.2.2 65288 9 htruncated⟩

end Message

end PvNet
