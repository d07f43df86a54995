import PvNet.Proofs.Discovery.Exchange
import PvNet.Proofs.Net.Sockets
import PvNet.Proofs.Wire.Consumption
set_option autoImplicit false

/-!
# Sizes of answers

A server does not look at the size of an answer before it sends it.  It need not: every entry of
a request takes up at least five octets, however its name is written, and four octets of the
answer.  So the answer to a datagram below the ceiling for sending stays below it
(`length_octets_reply_le`), and none has more entries than can be counted.
-/

namespace PvNet

/-! ## What requests take up -/

section

variable {σ : Type}

open Decoder

theorem Endpoint.costs_decode : (decode : Decoder σ Endpoint).Costs fun _ => 18 :=
  (Costs.take 16).bind fun _ => Costs.word16.bind fun _ => Costs.pure rfl

theorem SearchEntry.costs_decode : (decode : Decoder σ SearchEntry).Costs fun _ => 5 :=
  Costs.word32.bind fun _ => Costs.string.bind fun _ => Costs.pure rfl

theorem SearchRequest.costs_decode :
    (decode : Decoder σ SearchRequest).Costs fun r => 29 + 5 * r.channels.length := by
  refine Costs.word32.bind fun sequence => Costs.octet.bind fun qos => (Costs.take 3).bind fun _ =>
    Endpoint.costs_decode.bind fun replyTo => Costs.length.bind fun n =>
    (Costs.string.times n).bind fun protocols => Costs.word16.bind fun count =>
    (SearchEntry.costs_decode.times _).bind fun channels => Costs.pure ?_
  rw [total_const, total_const]
  show 29 + 5 * channels.length - 4 - 1 - 3 - 18 - 1 - 1 * protocols.length - 2 -
    5 * channels.length = 0
  omega

end

namespace Responder

variable {s : Responder} {datagram : Bytes} {m : Message} {r : SearchRequest} {d : Outgoing}

theorem mem_messages (h : m ∈ messages datagram) :
    m.Transmissible Message.maxDatagram ∧ Header.wireSize + m.payload.length ≤ datagram.length := by
  cases hdatagram : Message.ofDatagram datagram with
  | error e =>
    rw [messages, hdatagram] at h
    cases h
  | ok ms =>
    rw [Message.messages_of_ofDatagram hdatagram] at h
    obtain ⟨hms, rfl⟩ := Message.transmissible_of_ofDatagram hdatagram
    have hlength := (hms m h).length_octets
    exact ⟨hms m h, hlength ▸ length_le_flatMap Message.octets h⟩

theorem mem_requests (h : r ∈ requests datagram) :
    ∃ m ∈ messages datagram, m.read SearchRequest.decode = .ok r := by
  obtain ⟨m, hm, hrequest⟩ := List.mem_filterMap.1 h
  refine ⟨m, hm, ?_⟩
  unfold request? at hrequest
  split at hrequest
  · cases hread : m.read SearchRequest.decode with
    | error e =>
      rw [hread] at hrequest
      cases hrequest
    | ok r' =>
      rw [hread] at hrequest
      rw [Option.some.inj hrequest]
  · cases hrequest

/-- Every entry of a request takes up five octets of the datagram, in whatever way it is written. -/
theorem length_of_mem_requests (h : r ∈ requests datagram) :
    29 + 5 * r.channels.length ≤ Message.maxDatagram ∧
      37 + 5 * r.channels.length ≤ datagram.length := by
  obtain ⟨m, hm, hread⟩ := mem_requests h
  obtain ⟨htransmissible, hlength⟩ := mem_messages hm
  have hlimit := htransmissible.sendable.length_le
  unfold Header.wireSize at hlength
  rcases hrun : SearchRequest.decode m.order () m.payload with ⟨result, state, rest⟩
  have hresult : result = .ok r := by
    rw [← hread, Message.read, hrun]
  subst hresult
  have hcosts := SearchRequest.costs_decode.of_run hrun
  omega

/-! ## What answers take up -/

/-- Whether a server has an answer to a request: the client can connect, and a channel is hosted. -/
def concerns (s : Responder) (r : SearchRequest) : Bool := r.wantsTcp && !(s.hosted r).isEmpty

/-- The answer with the channels of a request that are hosted. -/
def reply (s : Responder) (r : SearchRequest) : SearchResponse :=
  ⟨s.guid, r.sequence, .any s.port, tcpProtocol, true, s.hosted r⟩

theorem response?_eq_reply (s : Responder) (r : SearchRequest) :
    s.response? r = if s.concerns r then some (s.reply r) else none := by
  rw [response?_eq, concerns]
  cases htcp : r.wantsTcp with
  | false => rfl
  | true =>
    cases hhosted : (s.hosted r).isEmpty with
    | true => rfl
    | false =>
      rw [if_neg (by decide), if_pos (by decide)]
      rfl

theorem response?_of_concerns (h : s.concerns r = true) : s.response? r = some (s.reply r) :=
  (response?_eq_reply s r).trans (if_pos h)

/-- Whatever request a datagram holds, the answer to it can be written. -/
theorem answers_eq_map (s : Responder) (datagram : Bytes) (source : Endpoint) :
    s.answers datagram source = ((requests datagram).filter s.concerns).map fun r =>
      ⟨target r source, (s.reply r).message.octets⟩ := by
  rw [answers_eq, ← List.filterMap_eq_map, ← List.filterMap_eq_filter, List.filterMap_filterMap]
  refine List.filterMap_congr fun r hr => ?_
  cases hconcerns : s.concerns r with
  | false =>
    have hnone : s.reply? r = none := by
      rw [reply?, response?_eq_reply, hconcerns]
      rfl
    simp [hnone, hconcerns, Option.guard]
  | true =>
    obtain ⟨hlimit, _⟩ := length_of_mem_requests hr
    have hreply := (reply?_of_response? (response?_of_concerns hconcerns) (by omega)).1
    simp [hreply, hconcerns, Option.guard]

/-- The answer to a request fits in a datagram, and it is longer than the datagram of the request
only where both are short. -/
theorem length_octets_reply_le (hr : r ∈ requests datagram) (hconcerns : s.concerns r = true) :
    ((s.reply r).octets .big).length ≤ Message.maxDatagram ∧
      (s.reply r).message.octets.length ≤ max datagram.length 133 := by
  obtain ⟨hlimit, hlength⟩ := length_of_mem_requests hr
  have hresponse := response?_of_concerns hconcerns
  have hfits := (reply?_of_response? hresponse (by omega)).2
  have hoctets := length_octets_of_response? hresponse
  have hm : (s.reply r).message.Transmissible Message.maxDatagram :=
    Message.transmissible_application hfits
      (Nat.le_trans hfits Message.maxDatagram_le_maxDeclared)
  have htotal : (s.reply r).message.octets.length = 8 + ((s.reply r).octets .big).length :=
    hm.length_octets
  refine ⟨hfits, ?_⟩
  -- From 20 channels on, five octets for each of them outweigh what else is in the answer.
  rw [htotal]
  omega

/-- Whoever gets an answer reads in it what the server has written. -/
theorem read_reply (hr : r ∈ requests datagram) (hconcerns : s.concerns r = true) :
    messages (s.reply r).message.octets = [(s.reply r).message] ∧
      (s.reply r).message.isApplication Command.searchResponse = true ∧
      (s.reply r).message.read SearchResponse.decode = .ok (s.reply r) := by
  have hlimit := (length_octets_reply_le hr hconcerns).1
  have hcount : (s.reply r).cids.length < 65536 := by
    obtain ⟨hrequest, _⟩ := length_of_mem_requests hr
    unfold Message.maxDatagram at hrequest
    exact Nat.lt_of_le_of_lt (s.length_hosted_le r) (by omega)
  have hprotocol : (s.reply r).protocol.utf8ByteSize ≤ Wire.maxSize :=
    show tcpProtocol.utf8ByteSize ≤ Wire.maxSize by decide
  have hread := SearchResponse.read_message hcount hprotocol
  rw [canonical_of_response? (response?_of_concerns hconcerns)] at hread
  exact ⟨messages_message hlimit, Message.isApplication_application, hread⟩

/-- A server sends an answer to every request of a datagram that it has an answer to, as far as
the socket reaches, and nothing else.  The answer has the number of the request and the hosted
ones of its channels, and it stays below the ceiling for sending if the datagram does. -/
theorem answers_below_ceiling (s : Responder) (socket : DatagramSocket) (datagram : Bytes)
    (source : Endpoint) :
    s.handle socket datagram source =
        (((s.answers datagram source).filter socket.reaches).length,
          { socket with
            sent := socket.sent ++ (s.answers datagram source).filter socket.reaches }) ∧
      s.answers datagram source = ((requests datagram).filter s.concerns).map (fun r =>
        ⟨target r source, (s.reply r).message.octets⟩) ∧
      (∀ r ∈ requests datagram, s.concerns r = true →
        messages (s.reply r).message.octets = [(s.reply r).message] ∧
        (s.reply r).message.isApplication Command.searchResponse = true ∧
        (s.reply r).message.read SearchResponse.decode = .ok (s.reply r) ∧
        (s.reply r).sequence = r.sequence ∧
        (s.reply r).cids = (r.channels.filter fun e => s.hosts e.name).map (·.cid)) ∧
      (datagram.length ≤ Message.maxUnfragmented →
        ∀ d ∈ s.answers datagram source, d.bytes.length ≤ Message.maxUnfragmented) := by
  refine ⟨DatagramSocket.sendAll_eq socket _, answers_eq_map s datagram source,
    fun r hr hconcerns => ?_, fun hceiling d hd => ?_⟩
  · obtain ⟨hmessages, hcommand, hread⟩ := read_reply hr hconcerns
    exact ⟨hmessages, hcommand, hread, rfl, rfl⟩
  · rw [answers_eq_map] at hd
    obtain ⟨r, hr, rfl⟩ := List.mem_map.1 hd
    obtain ⟨hr, hconcerns⟩ := List.mem_filter.1 hr
    have hlength := (length_octets_reply_le hr hconcerns).2
    unfold Message.maxUnfragmented at hceiling ⊢
    exact Nat.le_trans hlength (Nat.max_le.2 ⟨hceiling, by decide⟩)

/-- A request in little-endian order that asks twice for a channel, the second time with a name
whose size takes up five octets, and for one without a name.  A request that is cut off follows. -/
def repeatedQuestion : Bytes :=
  [0xCA, 2, 0, 3, 50, 0, 0, 0] ++
    ([7, 0, 0, 0, 0, 0, 0, 0] ++ List.replicate 16 0 ++ [0, 0, 0, 3, 0] ++
      ([1, 0, 0, 0, 1, 0x78] ++ [2, 0, 0, 0, 0xFF] ++ [1, 0, 0, 0, 0xFE, 1, 0, 0, 0, 0x78])) ++
    [0xCA, 2, 0x80, 3, 0, 0, 0, 3, 0, 0, 0]

def singleHost : Responder := ⟨⟨7⟩, 5075, fun name => name = "x"⟩

/-- Both entries for the hosted channel are in the answer. -/
theorem repeatedQuestion_below_ceiling :
    repeatedQuestion.length ≤ Message.maxUnfragmented ∧
      (singleHost.answers repeatedQuestion (.any 5076)).map (·.bytes.length) = [61] ∧
      ((requests repeatedQuestion).filter singleHost.concerns).map
        (fun r => (r.sequence, singleHost.hosted r)) = [(7, [1, 1])] ∧
      ∀ d ∈ singleHost.answers repeatedQuestion (.any 5076),
        d.bytes.length ≤ Message.maxUnfragmented := by
  have hceiling : repeatedQuestion.length ≤ Message.maxUnfragmented := by decide
  obtain ⟨_, _, _, hlengths⟩ :=
    answers_below_ceiling singleHost ⟨.any 0, [], [], none, false⟩ repeatedQuestion (.any 5076)
  exact ⟨hceiling, by decide +kernel, by decide +kernel, hlengths hceiling⟩

end Responder

end PvNet
