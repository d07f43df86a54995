import PvNet.Proofs.Discovery.Relaying
set_option autoImplicit false

/-!
# Where relayed searches are answered

To a server a relayed request comes from the relay.  What it answers is the same as
without the relay; where the answer goes is the same exactly as far as the request
or the relay names the target.  The relay names an address and no port, and it does so in
the first message only.  It names the address in the form in which it arrives, so a
sender with an IPv4 address in IPv6 form is answered at the IPv4 address.
-/

namespace PvNet

/-! ## Requests of relayed payloads -/

theorem ByteOrder.reads_word32 {σ : Type} (o : ByteOrder) (s : σ) {bs : Bytes} (h : bs.length = 4) :
    Decoder.word32.Reads o s bs (UInt32.ofNat (o.decode bs)) s := by
  have hlt : o.decode bs < Nat.pow 256 4 := h ▸ o.decode_lt bs
  have hnumber := (Decoder.Reads.number o s 4 (o.decode bs) hlt).map UInt32.ofNat
  have hencode := o.encode_decode bs
  rw [h] at hencode
  rwa [hencode] at hnumber

namespace SearchRequest

variable {σ : Type}

/-- Reads what stands behind the reply address of a request. -/
def decodeBody : Decoder σ (UInt16 × List String × List SearchEntry) := do
  let port ← Decoder.word16
  let protocols ← Decoder.times (← Decoder.length) Decoder.string
  let count ← Decoder.word16
  let channels ← Decoder.times count.toNat SearchEntry.decode
  return (port, protocols, channels)

/-- The request with a payload, given what stands in its body. -/
def ofParts (o : ByteOrder) (p : SearchPayload) (body : UInt16 × List String × List SearchEntry) :
    SearchRequest :=
  ⟨UInt32.ofNat (o.decode p.sequence), p.isUnicast, ⟨p.replyIp, body.1⟩, body.2.1, body.2.2⟩

theorem run_decode_octets (o : ByteOrder) (s : σ) (p : SearchPayload) :
    SearchRequest.decode.run o s p.octets = (ofParts o p <$> decodeBody).run o s p.body := by
  have hreserved := Decoder.Reads.take o s p.reserved
  have haddress := Decoder.Reads.take o s p.address
  rw [p.length_reserved] at hreserved
  rw [p.length_address] at haddress
  have hbody : ofParts o p <$> (decodeBody : Decoder σ _) = do
      let port ← Decoder.word16
      let protocols ← Decoder.times (← Decoder.length) Decoder.string
      let count ← Decoder.word16
      let channels ← Decoder.times count.toNat SearchEntry.decode
      return ofParts o p (port, protocols, channels) := by
    simp only [decodeBody, map_bind, map_pure]
  rw [SearchRequest.decode, SearchPayload.octets,
    Decoder.run_bind_of_ok (o.reads_word32 s p.length_sequence _), Decoder.run_octet_bind,
    Decoder.run_bind_of_ok (hreserved _), Endpoint.decode, bind_assoc,
    Decoder.run_bind_of_ok (haddress _), hbody]
  simp only [bind_assoc, pure_bind]
  rfl

/-- The request that a server gets when the one from `source` is relayed. -/
def readdressed (source : Endpoint) (r : SearchRequest) : SearchRequest :=
  { r with
    unicast := false
    replyTo := { r.replyTo with
      ip := if r.replyTo.ip.isWildcard then source.ip.canonical else r.replyTo.ip } }

theorem ofParts_readdressed (o : ByteOrder) (source : Endpoint) (p : SearchPayload)
    (body : UInt16 × List String × List SearchEntry) :
    ofParts o (p.readdressed source) body = (ofParts o p body).readdressed source := by
  rw [ofParts, SearchPayload.isUnicast_readdressed, SearchPayload.replyIp_readdressed]
  rfl

/-- A relayed payload is read as the original is, and the request is readdressed. -/
theorem run_decode_readdressed (o : ByteOrder) (s : σ) (source : Endpoint) (p : SearchPayload) :
    SearchRequest.decode.run o s (p.readdressed source).octets =
      (readdressed source <$> SearchRequest.decode).run o s p.octets := by
  have hparts : ofParts o (p.readdressed source) = readdressed source ∘ ofParts o p :=
    funext (ofParts_readdressed o source p)
  rw [Decoder.run_map_congr (run_decode_octets o s p), run_decode_octets, hparts, comp_map]
  rfl

end SearchRequest

theorem Message.read_withSearch {m : Message} {p : SearchPayload} (h : m.payload = p.octets)
    (source : Endpoint) :
    (m.withSearch (p.readdressed source)).read SearchRequest.decode =
      (m.read SearchRequest.decode).map (SearchRequest.readdressed source) := by
  show (SearchRequest.decode.run m.order () (p.readdressed source).octets).result =
    ((SearchRequest.decode.run m.order () m.payload).result).map _
  rw [h, SearchRequest.run_decode_readdressed, Decoder.result_map]

namespace Responder

theorem request?_withSearch {m : Message} {p : SearchPayload} (h : m.searchPayload? = some p)
    (source : Endpoint) :
    request? (m.withSearch (p.readdressed source)) =
      (request? m).map (SearchRequest.readdressed source) := by
  obtain ⟨hsearch, hpayload⟩ := Message.searchPayload?_eq_some_iff.1 h
  have hsearch' : (m.withSearch (p.readdressed source)).isApplication Command.search = true :=
    hsearch
  rw [request?, request?, if_pos hsearch, if_pos hsearch', Message.read_withSearch hpayload]
  cases m.read SearchRequest.decode with
  | error e => rfl
  | ok r => rfl

/-! ## Targets -/

/-- The reply address does not matter for what is answered. -/
theorem reply?_readdressed (s : Responder) (r : SearchRequest) (source : Endpoint) :
    s.reply? (r.readdressed source) = s.reply? r := rfl

theorem target_readdressed {r : SearchRequest} {source : Endpoint}
    (hsource : source.ip.isWildcard = false) (via : Endpoint) :
    target (r.readdressed source) via =
      { ip := if r.replyTo.ip.isWildcard then source.ip.canonical else r.replyTo.ip
        port := if r.replyTo.port = 0 then via.port else r.replyTo.port } := by
  have hspecific : (r.readdressed source).replyTo.ip.isWildcard = false := by
    show (if r.replyTo.ip.isWildcard then source.ip.canonical else r.replyTo.ip).isWildcard = false
    split
    · rw [IpAddress.isWildcard_canonical, hsource]
    · rename_i h
      exact Bool.eq_false_iff.2 h
  rw [target, Endpoint.resolve, hspecific, if_neg Bool.false_ne_true]
  rfl

theorem target_eq (r : SearchRequest) (source : Endpoint) :
    target r source =
      { ip := if r.replyTo.ip.isWildcard then source.ip else r.replyTo.ip
        port := if r.replyTo.port = 0 then source.port else r.replyTo.port } := by
  rw [target, Endpoint.resolve]
  split
  · rfl
  · rfl

/-- The request in the first message of a datagram. -/
def firstRequest? (datagram : Bytes) : Option SearchRequest :=
  (messages datagram).head?.bind request?

/-- The address of a relayed request in place of the wildcard: that of the sender as it arrives, if
the request stands in the first message, or else that of the relay. -/
def relayedIp (datagram : Bytes) (source via : Endpoint) : IpAddress :=
  if (firstRequest? datagram).isSome then source.ip.canonical else via.ip

variable {s : Responder} {datagram changed : Bytes} {r r' : SearchRequest} {source via : Endpoint}

theorem answers_of_requests_eq (h : requests datagram = [r]) (h' : requests changed = [r'])
    (hreply : s.reply? r' = s.reply? r) :
    s.answers changed via =
      (s.answers datagram source).map fun a => { a with target := target r' via } := by
  rw [answers_eq, answers_eq, h, h', List.filterMap_cons, List.filterMap_cons, hreply]
  cases s.reply? r with
  | none => rfl
  | some bytes => rfl

theorem ite_eq_ite_iff {α : Type} {P : Prop} [Decidable P] {a b c : α} :
    (if P then a else c) = (if P then b else c) ↔ (P → a = b) := by
  split
  · rename_i h
    exact ⟨fun hab _ => hab, fun hab => hab h⟩
  · rename_i h
    exact ⟨fun _ hP => absurd hP h, fun _ => rfl⟩

/-- Two targets are the same if they agree on what the request leaves open. -/
theorem targets_eq_iff (r : SearchRequest) {ip ip' : IpAddress} {port port' : UInt16} :
    (⟨if r.replyTo.ip.isWildcard then ip else r.replyTo.ip,
        if r.replyTo.port = 0 then port else r.replyTo.port⟩ : Endpoint) =
      ⟨if r.replyTo.ip.isWildcard then ip' else r.replyTo.ip,
        if r.replyTo.port = 0 then port' else r.replyTo.port⟩ ↔
      (r.replyTo.port = 0 → port = port') ∧ (r.replyTo.ip.isWildcard = true → ip = ip') := by
  rw [Endpoint.mk.injEq, ite_eq_ite_iff, ite_eq_ite_iff]
  exact and_comm

/-- The only request in a datagram is relayed, readdressed if it stands in the first message. -/
theorem requests_of_readdress? (h : Relay.readdress? source datagram = some changed)
    (hrequests : requests datagram = [r]) :
    requests changed = [if (firstRequest? datagram).isSome then r.readdressed source else r] := by
  cases hms : Message.ofDatagram datagram with
  | error e =>
    rw [requests, messages, hms] at hrequests
    cases hrequests
  | ok ms =>
    obtain ⟨m, rest, p, rfl, hp, hafter⟩ := Relay.ofDatagram_of_readdress? hms h
    have hmessages : messages datagram = m :: rest := by
      rw [messages, hms]
      rfl
    have hmessages' : messages changed = m.withSearch (p.readdressed source) :: rest := by
      rw [messages, hafter]
      rfl
    have hfirst : firstRequest? datagram = request? m := by
      rw [firstRequest?, hmessages]
      rfl
    rw [requests, hmessages, List.filterMap_cons] at hrequests
    rw [requests, hmessages', List.filterMap_cons, request?_withSearch hp, hfirst]
    cases hm : request? m with
    | some r₀ =>
      simp only [hm] at hrequests
      obtain ⟨rfl, hothers⟩ := List.cons.inj hrequests
      simp only [Option.map_some, hothers]
      rfl
    | none =>
      simp only [hm] at hrequests
      simp only [Option.map_none, hrequests]
      rfl

end Responder

open Responder in
/-- A relayed request is answered as the original would have been.  The answer goes to the same
target exactly if the ports agree where the request leaves the port open, and the addresses where it
leaves the address open. -/
theorem relayed_search_answered {f f' : Forwarder} {datagram changed : Bytes} {source : Endpoint}
    {r : SearchRequest} (hsource : source.ip.isWildcard = false)
    (hrequests : requests datagram = [r]) (h : f.forward datagram source = (true, changed, f'))
    (via : Endpoint) :
    ∃ r', requests changed = [r'] ∧
      (∀ s : Responder, s.answers changed via =
        (s.answers datagram source).map fun a => { a with target := target r' via }) ∧
      (target r' via = target r source ↔
        (r.replyTo.port = 0 → via.port = source.port) ∧
          (r.replyTo.ip.isWildcard = true → relayedIp datagram source via = source.ip)) := by
  obtain ⟨hchanged, _⟩ := Forwarder.readdress?_of_forward h
  have hrelayed := requests_of_readdress? hchanged hrequests
  unfold relayedIp
  cases hfirst : (firstRequest? datagram).isSome with
  | true =>
    rw [hfirst, if_pos rfl] at hrelayed
    refine ⟨_, hrelayed, fun s => ?_, ?_⟩
    · exact answers_of_requests_eq hrequests hrelayed (s.reply?_readdressed r source)
    · rw [target_readdressed hsource, target_eq, targets_eq_iff, if_pos rfl]
  | false =>
    rw [hfirst, if_neg Bool.false_ne_true] at hrelayed
    refine ⟨_, hrelayed, fun s => answers_of_requests_eq hrequests hrelayed rfl, ?_⟩
    rw [target_eq, target_eq, targets_eq_iff, if_neg Bool.false_ne_true]

theorem messages_openRequest :
    Responder.messages (openRequest.message.octets ++ []) = [openRequest.message] :=
  Message.messages_of_ofDatagram (ofDatagram_openRequests 1)

theorem request?_openRequest : Responder.request? openRequest.message = some openRequest := by
  have hsame : openRequest.canonical = openRequest :=
    congrArg (fun e => { openRequest with replyTo := e }) (Endpoint.canonical_any 0)
  rw [SearchRequest.request?_message (by decide) (by decide), hsame]

theorem requests_openRequest :
    Responder.requests (openRequest.message.octets ++ []) = [openRequest] := by
  rw [Responder.requests, messages_openRequest, List.filterMap_cons, request?_openRequest]
  rfl

theorem firstRequest?_openRequest :
    Responder.firstRequest? (openRequest.message.octets ++ []) = some openRequest := by
  rw [Responder.firstRequest?, messages_openRequest]
  exact request?_openRequest

open Responder in
/-- A relay that sends from the port of the client. -/
theorem answered_at_same_port :
    ∃ changed f' r', localRelay.forward (openRequest.message.octets ++ []) remoteClient =
        (true, changed, f') ∧
      requests changed = [r'] ∧
      target r' ⟨.v4 .localhost, remoteClient.port⟩ = target openRequest remoteClient := by
  obtain ⟨changed, f', hforward, _⟩ := forward_openRequest []
  obtain ⟨r', hrelayed, _, hiff⟩ := relayed_search_answered (by decide) requests_openRequest
    hforward ⟨.v4 .localhost, remoteClient.port⟩
  refine ⟨changed, f', r', hforward, hrelayed, hiff.2 ⟨fun _ => rfl, fun _ => ?_⟩⟩
  rw [relayedIp, firstRequest?_openRequest]
  exact IpAddress.canonical_v4 _

open Responder in
/-- A relay that sends from another port draws the answer to it, at the address of the client. -/
theorem answered_at_port_of_relay :
    ∃ changed f' r', requests (openRequest.message.octets ++ []) = [openRequest] ∧
      localRelay.forward (openRequest.message.octets ++ []) remoteClient = (true, changed, f') ∧
      requests changed = [r'] ∧
      target openRequest remoteClient = ⟨remoteClient.ip, 4000⟩ ∧
      target r' localRelay.sender.address = ⟨remoteClient.ip, 5000⟩ := by
  obtain ⟨changed, f', hforward, hchanged⟩ := forward_openRequest []
  have hrelayed := requests_of_readdress? hchanged requests_openRequest
  rw [firstRequest?_openRequest] at hrelayed
  refine ⟨changed, f', _, requests_openRequest, hforward, hrelayed, rfl, ?_⟩
  show target (openRequest.readdressed remoteClient) localRelay.sender.address = _
  rw [target_readdressed (by decide)]
  exact congrArg (Endpoint.mk · 5000) (IpAddress.canonical_v4 _)

end PvNet
