import PvNet.Discovery.Responder
import PvNet.Discovery.SearchManager
import PvNet.Proofs.Message.Transmission
import PvNet.Proofs.Net.Addresses
import PvNet.Proofs.Wire.Emission
set_option autoImplicit false

/-!
# Searches and answers as they arrive

A search that can be written is read back by whoever gets the datagram, unless the
datagram is too large to be accepted; the only difference is the form of the reply
address.  The same holds of an answer.

A server deals with a datagram request by request, and what it answers depends on the
request; where the answer goes depends on the source of the datagram as well.
-/

namespace PvNet

/-! ## Lists of encoded items -/

section

variable {α : Type} (encode : α → Bytes)

theorem length_le_flatMap {as : List α} {a : α} (h : a ∈ as) :
    (encode a).length ≤ (as.flatMap encode).length := by
  induction as with
  | nil => cases h
  | cons first as ih =>
    rw [List.flatMap_cons, List.length_append]
    rcases List.mem_cons.1 h with rfl | h
    · exact Nat.le_add_right _ _
    · exact Nat.le_trans (ih h) (Nat.le_add_left _ _)

theorem mul_length_le_flatMap {as : List α} {size : Nat}
    (h : ∀ a ∈ as, size ≤ (encode a).length) :
    size * as.length ≤ (as.flatMap encode).length := by
  induction as with
  | nil => exact Nat.zero_le _
  | cons a as ih =>
    obtain ⟨ha, has⟩ := List.forall_mem_cons.1 h
    rw [List.flatMap_cons, List.length_append, List.length_cons, Nat.mul_succ, Nat.add_comm]
    exact Nat.add_le_add ha (ih has)

end

namespace Wire

theorem count16_of_lt (o : ByteOrder) {n : Nat} (h : n < 65536) :
    count16 o n = .ofBytes (word16 o (UInt16.ofNat n)) := if_pos h

theorem fault_count16_of_le (o : ByteOrder) {n : Nat} (h : 65536 ≤ n) :
    (count16 o n).fault = some (.mismatch (.tooManyEntries n)) := by
  rw [count16, if_neg (Nat.not_lt.2 h)]
  rfl

end Wire

namespace Decoder.Reads

variable {σ α : Type}

/-- Entries behind their 16-bit count. -/
theorem counted16 {β : Type} {o : ByteOrder} {s : σ} {d : Decoder σ α} (encode : α → Bytes)
    {as : List α} (hcount : as.length < 65536) (h : ∀ a ∈ as, d.Reads o s (encode a) a s)
    {f : List α → Decoder σ β} {b : β} (hf : (f as).Reads o s [] b s) :
    (Decoder.word16 >>= fun n => Decoder.times n.toNat d >>= f).Reads o s
      (Wire.word16 o (UInt16.ofNat as.length) ++ as.flatMap encode) b s := by
  have hentries := times_of_forall encode as h
  have hnat : (UInt16.ofNat as.length).toNat = as.length := UInt16.toNat_ofNat_of_lt' hcount
  refine (word16 o s (UInt16.ofNat as.length)).bind ?_
  rw [hnat]
  exact hentries.bind_pure hf

end Decoder.Reads

/-! ## Requests -/

section

variable {σ : Type} (o : ByteOrder) (s : σ)

theorem SearchEntry.reads_decode {e : SearchEntry} (h : e.name.utf8ByteSize ≤ Wire.maxSize) :
    SearchEntry.decode.Reads o s (e.encode o) e s :=
  (Decoder.Reads.word32 o s e.cid).bind
    ((Decoder.Reads.string o s h).bind_pure (Decoder.Reads.pure e o s))

theorem SearchEntry.utf8ByteSize_lt (e : SearchEntry) :
    4 + e.name.utf8ByteSize < (e.encode o).length := by
  have hname := Wire.utf8ByteSize_lt_length_string o e.name
  have hcid : (Wire.word32 o e.cid).length = 4 := ByteOrder.length_encode o 4 _
  rw [SearchEntry.encode, List.length_append, hcid]
  omega

namespace SearchRequest

/-- The octets of a request whose channels can be counted. -/
def octets (r : SearchRequest) : Bytes :=
  Wire.word32 o r.sequence ++ ((if r.unicast then unicastFlag else 0) :: ([0, 0, 0] ++
    (r.replyTo.encode o ++ (Wire.length o r.protocols.length ++
      (r.protocols.flatMap (Wire.string o) ++ (Wire.word16 o (UInt16.ofNat r.channels.length) ++
        r.channels.flatMap (SearchEntry.encode o)))))))

theorem mul_length_channels_le (r : SearchRequest) :
    5 * r.channels.length ≤ (r.octets o).length := by
  have hchannels : 5 * r.channels.length ≤ (r.channels.flatMap (SearchEntry.encode o)).length :=
    mul_length_le_flatMap (SearchEntry.encode o) fun e _ =>
      Nat.lt_of_le_of_lt (Nat.le_add_right 4 _) (e.utf8ByteSize_lt o)
  simp only [octets, List.length_append, List.length_cons]
  omega

/-- The request as it arrives. -/
def canonical (r : SearchRequest) : SearchRequest := { r with replyTo := r.replyTo.canonical }

variable {o} {r : SearchRequest}

theorem encode_of_lt (h : r.channels.length < 65536) : r.encode o = .ofBytes (r.octets o) := by
  have hfault : (r.encode o).fault = none := by
    simp [encode, Wire.count16_of_lt o h]
  rw [Emission.eq_ofBytes hfault, encode, Wire.count16_of_lt o h,
    Emission.bytes_append (by simp), Emission.bytes_append (by simp)]
  simp [octets]

theorem fault_encode_of_le (h : 65536 ≤ r.channels.length) :
    (r.encode o).fault = some (.mismatch (.tooManyEntries r.channels.length)) := by
  simp [encode, Wire.fault_count16_of_le o h]

/-- Whether the size field can hold the sizes of all strings and of the list of protocols. -/
structure Fits (r : SearchRequest) : Prop where
  protocols : r.protocols.length ≤ Wire.maxSize
  protocol : ∀ p ∈ r.protocols, p.utf8ByteSize ≤ Wire.maxSize
  name : ∀ e ∈ r.channels, e.name.utf8ByteSize ≤ Wire.maxSize

/-- No string in a request is longer than the request. -/
theorem fits_of_length_le (h : (r.octets o).length ≤ Wire.maxSize) : r.Fits := by
  simp only [octets, List.length_append, List.length_cons] at h
  refine ⟨?_, ?_, ?_⟩
  · have hprotocols : 1 * r.protocols.length ≤ (r.protocols.flatMap (Wire.string o)).length :=
      mul_length_le_flatMap (Wire.string o) fun p _ =>
        Nat.le_trans (Nat.le_add_left 1 _) (Wire.utf8ByteSize_lt_length_string o p)
    omega
  · intro p hp
    have hlt := Wire.utf8ByteSize_lt_length_string o p
    have hle := length_le_flatMap (Wire.string o) hp
    omega
  · intro e he
    have hlt := e.utf8ByteSize_lt o
    have hle := length_le_flatMap (SearchEntry.encode o) he
    omega

variable (o)

/-- A request whose channels can be counted is read back. -/
theorem reads_decode (hcount : r.channels.length < 65536) (hfits : r.Fits) :
    SearchRequest.decode.Reads o s (r.octets o) r.canonical s := by
  have hprotocol : ∀ p ∈ r.protocols, Decoder.string.Reads o s (Wire.string o p) p s :=
    fun p hp => Decoder.Reads.string o s (hfits.protocol p hp)
  have hentry : ∀ e ∈ r.channels, SearchEntry.decode.Reads o s (e.encode o) e s :=
    fun e he => SearchEntry.reads_decode o s (hfits.name e he)
  have hflag : ((if r.unicast then unicastFlag else 0) &&& unicastFlag ≠ 0) ↔ r.unicast = true := by
    cases r.unicast <;> decide
  refine (Decoder.Reads.word32 o s r.sequence).bind (Decoder.Reads.octet_bind o s ?_)
  refine (Decoder.Reads.take o s [0, 0, 0]).bind ((r.replyTo.reads_decode o s).bind ?_)
  refine (Decoder.Reads.length o s hfits.protocols).bind ?_
  refine (Decoder.Reads.times_of_forall (Wire.string o) r.protocols hprotocol).bind ?_
  refine Decoder.Reads.counted16 (SearchEntry.encode o) hcount hentry ?_
  simp only [hflag, Bool.decide_eq_true]
  exact Decoder.Reads.pure r.canonical o s

end SearchRequest

end

theorem Emission.toExcept_of_fault {a : Emission} {e : WireError} (h : a.fault = some e) :
    a.toExcept = .error e := by
  rw [toExcept, h]

theorem Emission.toExcept_ofBytes (bs : Bytes) : (ofBytes bs).toExcept = .ok bs := rfl

namespace Message

variable {command : UInt8} {o : ByteOrder} {fromServer : Bool} {payload bytes : Bytes}

theorem toOption_encode_application (h : payload.length ≤ maxDeclared) :
    (application command o fromServer payload).encode.toOption =
      some (application command o fromServer payload).octets := by
  rw [(transmissible_application (Nat.le_refl _) h).sendable.encode_eq_octets]
  rfl

/-- An application message that can be written at all is taken off the wire as it was. -/
theorem transmissible_of_encode
    (h : (application command o fromServer payload).encode.toOption = some bytes) :
    (application command o fromServer payload).Transmissible payload.length ∧
      bytes = (application command o fromServer payload).octets := by
  by_cases hdeclared : payload.length ≤ maxDeclared
  · rw [toOption_encode_application hdeclared] at h
    exact ⟨transmissible_application (Nat.le_refl _) hdeclared, (Option.some.inj h).symm⟩
  · rw [encode_application_of_lt command o fromServer (Nat.lt_of_not_le hdeclared)] at h
    cases h

theorem messages_of_ofDatagram {datagram : Bytes} {ms : List Message}
    (h : ofDatagram datagram = .ok ms) : Responder.messages datagram = ms :=
  congrArg (fun ms => ms.toOption.getD []) h

/-- A receiver accepts the datagram of a message up to its limit. -/
theorem Transmissible.messages_octets {m : Message} {maxPayload : Nat}
    (h : m.Transmissible maxPayload) :
    Responder.messages m.octets = if m.payload.length ≤ maxDatagram then [m] else [] := by
  split
  · rename_i hlimit
    have hm : m.Transmissible maxDatagram :=
      ⟨⟨h.sendable.unsegmented, h.sendable.payload_of_control, hlimit,
        h.sendable.length_le_declared⟩, h.declared⟩
    have hdatagram := hm.ofDatagram_append []
    rw [List.append_nil, ofDatagram_nil] at hdatagram
    exact messages_of_ofDatagram hdatagram
  · rename_i hlimit
    rw [Responder.messages, ofDatagram_of_lt h (Nat.lt_of_not_le hlimit)]
    rfl

theorem isApplication_application :
    (application command o fromServer payload).isApplication command = true := by
  simp [isApplication]

end Message

/-! ## What a server makes of a datagram -/

namespace Responder

/-- The request in a message, if it is one that can be read. -/
def request? (m : Message) : Option SearchRequest :=
  if m.isApplication Command.search then (m.read SearchRequest.decode).toOption else none

/-- The requests in a datagram. -/
def requests (datagram : Bytes) : List SearchRequest := (messages datagram).filterMap request?

/-- The answer to a request, wherever it goes. -/
def reply? (s : Responder) (r : SearchRequest) : Option Bytes := (s.response? r).bind frame?

/-- Requests are answered one by one, each at its own target. -/
theorem answers_eq (s : Responder) (datagram : Bytes) (source : Endpoint) :
    s.answers datagram source = (requests datagram).filterMap fun r =>
      (s.reply? r).map fun bytes => ⟨target r source, bytes⟩ := by
  rw [answers, requests, List.filterMap_filterMap]
  refine congrArg (fun f => List.filterMap f (messages datagram)) (funext fun m => ?_)
  unfold answer? request?
  cases m.isApplication Command.search with
  | false => rfl
  | true =>
    simp only [Bool.not_true, Bool.false_eq_true, if_false, if_true]
    cases (m.read SearchRequest.decode).toOption with
    | none => rfl
    | some r =>
      simp only [Option.bind_some, Option.bind_eq_bind, reply?]
      cases s.response? r with
      | none => rfl
      | some response =>
        simp only [Option.bind_some]
        cases frame? response with
        | none => rfl
        | some bytes => rfl

end Responder

/-! ## Requests in datagrams -/

namespace SearchRequest

variable {r : SearchRequest} {bytes : Bytes}

/-- The message of a request. -/
def message (r : SearchRequest) : Message :=
  .application Command.search .big false (r.octets .big)

/-- A request can be written as long as its channels can be counted. -/
theorem frame?_of_lt (hcount : r.channels.length < 65536)
    (hlength : (r.octets .big).length ≤ Message.maxDeclared) :
    SearchManager.frame? r = some r.message.octets := by
  rw [SearchManager.frame?, encode_of_lt hcount, Emission.toExcept_ofBytes]
  exact Message.toOption_encode_application hlength

theorem exists_of_frame? (h : SearchManager.frame? r = some bytes) :
    r.channels.length < 65536 ∧ r.message.Transmissible (r.octets .big).length ∧
      bytes = r.message.octets := by
  unfold SearchManager.frame? at h
  rcases Nat.lt_or_ge r.channels.length 65536 with hcount | hcount
  · rw [encode_of_lt hcount, Emission.toExcept_ofBytes] at h
    exact ⟨hcount, Message.transmissible_of_encode h⟩
  · rw [Emission.toExcept_of_fault (fault_encode_of_le hcount)] at h
    cases h

theorem request?_message (hcount : r.channels.length < 65536)
    (hsize : (r.octets .big).length ≤ Wire.maxSize) :
    Responder.request? r.message = some r.canonical := by
  have hread : r.message.read SearchRequest.decode = .ok r.canonical :=
    Message.read_application (reads_decode .big () hcount (fits_of_length_le hsize))
  exact (if_pos Message.isApplication_application).trans (congrArg Except.toOption hread)

/-- Whoever gets the datagram of a request reads the request, unless the datagram is too large. -/
theorem requests_frame (h : SearchManager.frame? r = some bytes) :
    Responder.requests bytes =
      if (r.octets .big).length ≤ Message.maxDatagram then [r.canonical] else [] := by
  obtain ⟨hcount, hm, rfl⟩ := exists_of_frame? h
  rw [Responder.requests, hm.messages_octets]
  show List.filterMap _ (if (r.octets .big).length ≤ Message.maxDatagram then _ else _) = _
  split
  · rename_i hlimit
    rw [List.filterMap_cons, request?_message hcount (Nat.le_trans hlimit (by decide))]
    rfl
  · rfl

theorem octets_withUnicast (o : ByteOrder) (r : SearchRequest) (unicast : Bool) :
    ({ r with unicast }).octets o = (r.octets o).set 4 (if unicast then unicastFlag else 0) := by
  have hsequence : (Wire.word32 o r.sequence).length = 4 := ByteOrder.length_encode o 4 _
  rw [octets, octets, ← hsequence, List.set_append_right _ _ (Nat.le_refl _), Nat.sub_self]
  rfl

/-- Whether a request was sent to a single host is a matter of one octet. -/
theorem frame?_withUnicast (h : SearchManager.frame? r = some bytes) (unicast : Bool) :
    SearchManager.frame? { r with unicast } =
      some (bytes.set SearchManager.flagsOffset (if unicast then unicastFlag else 0)) := by
  obtain ⟨hcount, hm, rfl⟩ := exists_of_frame? h
  have hcount' : ({ r with unicast }).channels.length < 65536 := hcount
  have hsame : (({ r with unicast }).octets .big).length = (r.octets .big).length := by
    rw [octets_withUnicast, List.length_set]
  have hm' : ({ r with unicast }).message.Transmissible (r.octets .big).length := by
    refine Message.transmissible_application (Nat.le_of_eq hsame) ?_
    rw [hsame]
    exact hm.sendable.length_le_declared
  have hoctets : ({ r with unicast }).message.octets =
      r.message.octets.set SearchManager.flagsOffset (if unicast then unicastFlag else 0) := by
    have hheader : r.message.header.encode.length = Header.wireSize := Header.length_encode _
    have hoffset : SearchManager.flagsOffset = r.message.header.encode.length + 4 := by
      rw [hheader]
      rfl
    have hfront : ({ r with unicast }).message.header = r.message.header := by
      simp only [message, Message.application, hsame]
    rw [hm'.octets_eq, hm.octets_eq, hoffset, List.set_append_right _ _ (Nat.le_add_right _ _),
      Nat.add_sub_cancel_left, hfront]
    exact congrArg (r.message.header.encode ++ ·) (octets_withUnicast .big r unicast)
  rw [frame?_of_lt hcount' (hsame ▸ hm.sendable.length_le_declared), hoctets]

end SearchRequest

/-! ## Answers -/

theorem Guid.reads_decode {σ : Type} (o : ByteOrder) (s : σ) (g : Guid) :
    decode.Reads o s g.octets g s := by
  have htake := (Decoder.Reads.take o s g.octets).map ofOctets
  rwa [length_octets, ofOctets_octets] at htake

namespace SearchResponse

/-- The octets of an answer whose channels can be counted. -/
def octets (o : ByteOrder) (r : SearchResponse) : Bytes :=
  r.guid.octets ++ (Wire.word32 o r.sequence ++ (r.server.encode o ++
    (Wire.string o r.protocol ++ (Wire.bool r.found ++
      (Wire.word16 o (UInt16.ofNat r.cids.length) ++ r.cids.flatMap (Wire.word32 o))))))

theorem mul_length_cids_le (o : ByteOrder) (r : SearchResponse) :
    4 * r.cids.length ≤ (r.octets o).length := by
  have hcids : 4 * r.cids.length ≤ (r.cids.flatMap (Wire.word32 o)).length :=
    mul_length_le_flatMap (Wire.word32 o) fun cid _ =>
      Nat.le_of_eq (ByteOrder.length_encode o 4 _).symm
  simp only [octets, List.length_append]
  omega

/-- The answer as it arrives. -/
def canonical (r : SearchResponse) : SearchResponse := { r with server := r.server.canonical }

variable {σ : Type} {o : ByteOrder} {s : σ} {r : SearchResponse} {bytes : Bytes}

theorem encode_of_lt (h : r.cids.length < 65536) : r.encode o = .ofBytes (r.octets o) := by
  have hfault : (r.encode o).fault = none := by
    simp [encode, Wire.count16_of_lt o h]
  rw [Emission.eq_ofBytes hfault, encode, Wire.count16_of_lt o h,
    Emission.bytes_append (by simp), Emission.bytes_append (by simp)]
  simp [octets]

theorem fault_encode_of_le (h : 65536 ≤ r.cids.length) :
    (r.encode o).fault = some (.mismatch (.tooManyEntries r.cids.length)) := by
  simp [encode, Wire.fault_count16_of_le o h]

variable (o s)

theorem reads_decode (hcount : r.cids.length < 65536)
    (hprotocol : r.protocol.utf8ByteSize ≤ Wire.maxSize) :
    SearchResponse.decode.Reads o s (r.octets o) r.canonical s := by
  refine (r.guid.reads_decode o s).bind ((Decoder.Reads.word32 o s r.sequence).bind ?_)
  refine (r.server.reads_decode o s).bind ((Decoder.Reads.string o s hprotocol).bind ?_)
  refine (Decoder.Reads.bool o s r.found).bind ?_
  exact Decoder.Reads.counted16 (Wire.word32 o) hcount
    (fun cid _ => Decoder.Reads.word32 o s cid) (Decoder.Reads.pure r.canonical o s)

/-- The message of an answer. -/
def message (r : SearchResponse) : Message :=
  .application Command.searchResponse .big true (r.octets .big)

variable {o s}

theorem read_message (hcount : r.cids.length < 65536)
    (hprotocol : r.protocol.utf8ByteSize ≤ Wire.maxSize) :
    r.message.read SearchResponse.decode = .ok r.canonical :=
  Message.read_application (reads_decode .big () hcount hprotocol)

/-- An answer can be written as long as its channels can be counted. -/
theorem frame?_of_lt (hcount : r.cids.length < 65536)
    (hlength : (r.octets .big).length ≤ Message.maxDeclared) :
    Responder.frame? r = some r.message.octets := by
  rw [Responder.frame?, encode_of_lt hcount, Emission.toExcept_ofBytes]
  exact Message.toOption_encode_application hlength

end SearchResponse

end PvNet
