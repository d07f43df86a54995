import PvNet.Discovery.Client
import PvNet.Proofs.Discovery.SearchMessages
set_option autoImplicit false

/-!
# Questions and answers

What a client sends when searches are due are requests for some of them, and no entry
gets lost on the way.  A server answers a request for channels that it hosts with
their numbers, in a datagram that is accepted if that of the request was.  The client
takes the channels of an answer out of its searches, and ignores questions.
-/

namespace PvNet

/-! ## Questions that are sent -/

namespace SearchManager

/-- No entry is lost or added when entries are split into groups. -/
theorem flatten_groupsFrom (budget headSize : Nat) (group : List SearchEntry) (size : Nat)
    (es : List SearchEntry) :
    (groupsFrom budget headSize group size es).flatten = group.reverse ++ es := by
  induction es generalizing group size with
  | nil =>
    rw [groupsFrom, List.append_nil]
    split
    · rename_i hempty
      rw [List.isEmpty_iff.1 hempty]
      rfl
    · exact List.append_nil _
  | cons e es ih =>
    rw [groupsFrom]
    split
    · rw [List.flatten_cons, ih]
      rfl
    · rw [ih, List.reverse_cons, List.append_assoc]
      rfl

theorem mem_of_mem_groups {m : SearchManager} {entries group : List SearchEntry}
    (hgroup : group ∈ m.groups entries) {e : SearchEntry} (he : e ∈ group) : e ∈ entries := by
  have hflatten := flatten_groupsFrom (m.config.maxDatagram - Header.wireSize)
    (m.request 0 []).headSize [] (m.request 0 []).headSize entries
  rw [List.reverse_nil, List.nil_append] at hflatten
  rw [← hflatten]
  exact List.mem_flatten_of_mem hgroup he

/-- Whatever is sent is a request for some of the entries. -/
theorem exists_request_of_mem_outgoing {m : SearchManager} {sequence : UInt32}
    {entries : List SearchEntry} {d : Outgoing} (hd : d ∈ m.outgoing sequence entries) :
    ∃ r, frame? r = some d.bytes ∧ r.replyTo = m.replyTo ∧ r.protocols = [tcpProtocol] ∧
      ∀ e ∈ r.channels, e ∈ entries := by
  obtain ⟨bytes, hbytes, hd⟩ := List.mem_flatMap.1 hd
  obtain ⟨destination, _, rfl⟩ := List.mem_map.1 hd
  obtain ⟨group, hgroup, hframe⟩ := List.mem_filterMap.1 hbytes
  exact ⟨_, SearchRequest.frame?_withUnicast hframe destination.unicast, rfl, rfl,
    fun e he => mem_of_mem_groups hgroup he⟩

/-- A call that registers a search puts it into the table, unless it gives up. -/
theorem register?_cases {m : SearchManager} (h : m.canceled = false) (now : Instant)
    (cid : UInt32) (name : String) (penalize : Bool) :
    m.register? now cid name penalize = none ∨ ∃ p : PendingSearch, p.name = name ∧
      m.register? now cid name penalize = some { m with pending := m.pending.put cid p } := by
  rw [register?, h]
  cases now.after? (m.config.backoff (if penalize then m.config.penalty else 0)) with
  | none => exact .inl rfl
  | some deadline => exact .inr ⟨⟨name, _, deadline⟩, rfl, rfl⟩

/-- The searches after those that are due were put off. -/
def ticked (m : SearchManager) (now : Instant) (sequence : UInt32) : SearchManager :=
  { m with pending := (m.pending.changeValues fun _ => m.config.putOff now).1, sequence }

/-- A tick puts off what is due and sends it, or sends nothing. -/
theorem exists_tick {m : SearchManager} (h : m.canceled = false) (now : Instant) :
    ∃ outcome sequence entries, (∀ e ∈ entries, e ∈ m.due now) ∧ m.tick now =
      (outcome, (m.ticked now sequence).outgoing sequence entries, m.ticked now sequence) := by
  rw [tick, if_neg (Bool.eq_false_iff.1 h)]
  unfold ticked
  split
  · rename_i pending hput
    rw [hput]
    exact ⟨_, _, _, fun _ he => he, rfl⟩
  · rename_i pending hput
    rw [hput]
    exact ⟨_, m.sequence, [], fun _ he => (nomatch he), rfl⟩

/-- Putting off a search does not change its name. -/
theorem name_putOff (c : SearchConfig) (now : Instant) (p : PendingSearch) :
    (c.putOff now p).1.name = p.name := by
  unfold SearchConfig.putOff
  split
  · split
    · rfl
    · rfl
  · rfl

theorem mem_due {m : SearchManager} {now : Instant} {e : SearchEntry} (he : e ∈ m.due now) :
    ∃ p, m.pending.get? e.cid = some p ∧ p.name = e.name := by
  obtain ⟨⟨cid, p⟩, hmem, hsome⟩ := List.mem_filterMap.1 he
  have hsome : (if p.deadline ≤ now then some (⟨cid, p.name⟩ : SearchEntry) else none) = some e :=
    hsome
  split at hsome
  · obtain rfl := Option.some.inj hsome
    exact ⟨p, Table.get?_of_mem hmem, rfl⟩
  · cases hsome

/-! ## Searches that are answered -/

/-- After an answer none of its channels is pending, and the others are as before. -/
theorem get?_resolve (found : UInt32 → String → SearchResult) (cids : List UInt32)
    (pending : Table UInt32 PendingSearch) (cid : UInt32) :
    (resolve found cids pending).2.get? cid = if cid ∈ cids then none else pending.get? cid := by
  induction cids generalizing pending with
  | nil => rfl
  | cons first cids ih =>
    rw [resolve]
    cases hfirst : pending.get? first with
    | some p =>
      simp only [ih, Table.get?_erase]
      by_cases hcid : first = cid
      · simp [hcid]
      · simp [hcid, Ne.symm hcid]
    | none =>
      simp only [ih]
      by_cases hcid : first = cid
      · simp [← hcid, hfirst]
      · simp [Ne.symm hcid]

end SearchManager

/-! ## What a server answers -/

namespace Responder

variable {s : Responder} {r : SearchRequest} {response : SearchResponse}

/-- The channels of a request that the server hosts. -/
def hosted (s : Responder) (r : SearchRequest) : List UInt32 :=
  (r.channels.filter fun e => s.hosts e.name).map (·.cid)

theorem mem_hosted {cid : UInt32} :
    cid ∈ s.hosted r ↔ ∃ e ∈ r.channels, s.hosts e.name = true ∧ e.cid = cid := by
  simp [hosted, and_assoc]

theorem length_hosted_le (s : Responder) (r : SearchRequest) :
    (s.hosted r).length ≤ r.channels.length := by
  rw [hosted, List.length_map]
  exact List.length_filter_le _ _

theorem response?_eq (s : Responder) (r : SearchRequest) :
    s.response? r = if !r.wantsTcp ∨ (s.hosted r).isEmpty then none
      else some ⟨s.guid, r.sequence, .any s.port, tcpProtocol, true, s.hosted r⟩ := rfl

theorem eq_of_response? (h : s.response? r = some response) :
    response = ⟨s.guid, r.sequence, .any s.port, tcpProtocol, true, s.hosted r⟩ := by
  rw [response?_eq] at h
  split at h
  · cases h
  · exact (Option.some.inj h).symm

theorem response?_of_hosted (htcp : r.wantsTcp = true) {cid : UInt32} (hcid : cid ∈ s.hosted r) :
    s.response? r = some ⟨s.guid, r.sequence, .any s.port, tcpProtocol, true, s.hosted r⟩ := by
  have hsome : (s.hosted r).isEmpty = false := by
    cases hhosted : s.hosted r with
    | nil =>
      rw [hhosted] at hcid
      cases hcid
    | cons => rfl
  simp [response?_eq, htcp, hsome]

theorem canonical_of_response? (h : s.response? r = some response) :
    response.canonical = response := by
  rw [eq_of_response? h]
  exact congrArg (fun server => (⟨s.guid, r.sequence, server, tcpProtocol, true, s.hosted r⟩ :
    SearchResponse)) (Endpoint.canonical_any s.port)

/-- An answer takes up less room than the question, up to a constant. -/
theorem length_octets_of_response? (h : s.response? r = some response) :
    (response.octets .big).length ≤ 49 + 4 * r.channels.length := by
  have hhosted := s.length_hosted_le r
  have hname := Wire.length_string_le .big tcpProtocol
  have hsize : tcpProtocol.utf8ByteSize = 3 := by decide
  have hword : ∀ n, (Wire.word32 .big n).length = 4 := fun n => ByteOrder.length_encode .big 4 _
  have hcount : ∀ n, (Wire.word16 .big n).length = 2 := fun n => ByteOrder.length_encode .big 2 _
  have hcids : ∀ cids : List UInt32,
      (cids.flatMap (Wire.word32 .big)).length = 4 * cids.length := by
    intro cids
    induction cids with
    | nil => rfl
    | cons cid cids ih =>
      rw [List.flatMap_cons, List.length_append, hword, ih, List.length_cons]
      omega
  rw [eq_of_response? h]
  simp only [SearchResponse.octets, List.length_append, Guid.length_octets, hword, hcount, hcids,
    Endpoint.length_encode, Wire.bool, List.length_singleton]
  omega

/-- The answer to a request that fits in a datagram fits in one as well. -/
theorem reply?_of_response? (h : s.response? r = some response)
    (hcount : 5 * r.channels.length ≤ Message.maxDatagram) :
    s.reply? r = some response.message.octets ∧
      (response.octets .big).length ≤ Message.maxDatagram := by
  have hlength := length_octets_of_response? h
  have hhosted := s.length_hosted_le r
  unfold Message.maxDatagram at hcount
  have hfits : (response.octets .big).length ≤ Message.maxDatagram := by
    unfold Message.maxDatagram
    omega
  have hcids : response.cids.length < 65536 := by
    rw [eq_of_response? h]
    show (s.hosted r).length < 65536
    omega
  refine ⟨?_, hfits⟩
  rw [reply?, h, Option.bind_some]
  exact SearchResponse.frame?_of_lt hcids (Nat.le_trans hfits Message.maxDatagram_le_maxDeclared)

/-- A request in a datagram of its own is answered unless the datagram is too large. -/
theorem answers_frame {bytes : Bytes} (h : SearchManager.frame? r = some bytes) (s : Responder)
    (source : Endpoint) :
    s.answers bytes source =
      if (r.octets .big).length ≤ Message.maxDatagram then
        ((s.reply? r).map fun answer => ⟨target r.canonical source, answer⟩).toList
      else [] := by
  have hreply : s.reply? r.canonical = s.reply? r := rfl
  rw [answers_eq, SearchRequest.requests_frame h]
  split
  · rw [List.filterMap_cons, hreply]
    cases s.reply? r with
    | none => rfl
    | some answer => rfl
  · rfl

theorem messages_message {response : SearchResponse}
    (hlimit : (response.octets .big).length ≤ Message.maxDatagram) :
    messages response.message.octets = [response.message] := by
  have hm : response.message.Transmissible Message.maxDatagram :=
    Message.transmissible_application hlimit
      (Nat.le_trans hlimit Message.maxDatagram_le_maxDeclared)
  exact hm.messages_octets.trans (if_pos hlimit)

/-- An answer is not a request. -/
theorem requests_message {response : SearchResponse}
    (hlimit : (response.octets .big).length ≤ Message.maxDatagram) :
    requests response.message.octets = [] := by
  have hcommand : response.message.isApplication Command.search = false := by
    simp [SearchResponse.message, Message.isApplication, Command.search, Command.searchResponse]
  have hother : request? response.message = none := by
    rw [request?, hcommand]
    rfl
  rw [requests, messages_message hlimit, List.filterMap_cons, hother]
  rfl

/-- What a client makes of an answer to a request. -/
def result (s : Responder) (r : SearchRequest) (source : Endpoint) (cid : UInt32) (name : String) :
    SearchResult where
  cid
  name
  guid := s.guid
  server := ⟨source.ip, s.port⟩
  minorRevision := Header.revision
  sequence := r.sequence

end Responder

/-! ## What a client takes in -/

namespace DiscoveryClient

variable (c : DiscoveryClient) (now : Instant) (source : Endpoint)

/-- A client ignores questions. -/
theorem handle_question {r : SearchRequest} {bytes : Bytes}
    (h : SearchManager.frame? r = some bytes) :
    (c.handle now bytes source).1.found = [] ∧ (c.handle now bytes source).2 = c := by
  obtain ⟨_, hm, rfl⟩ := SearchRequest.exists_of_frame? h
  have hresponse : r.message.isApplication Command.searchResponse = false := by
    simp [SearchRequest.message, Message.isApplication, Command.search, Command.searchResponse]
  have hbeacon : r.message.isApplication Command.beacon = false := by
    simp [SearchRequest.message, Message.isApplication, Command.search, Command.beacon]
  have hignored : c.handleMessage now source r.message = ({}, c) := by
    rw [handleMessage, hresponse, hbeacon]
    rfl
  rw [handle, hm.messages_octets]
  split
  · rw [handleMessages, hignored]
    exact ⟨rfl, rfl⟩
  · exact ⟨rfl, rfl⟩

/-- The client after an answer for some channels. -/
def answered (c : DiscoveryClient) (found : UInt32 → String → SearchResult) (cids : List UInt32) :
    DiscoveryClient :=
  { c with searches := { c.searches with
      pending := (SearchManager.resolve found cids c.searches.pending).2 } }

/-- An answer ends the searches for its channels. -/
theorem handle_answer {s : Responder} {r : SearchRequest} {response : SearchResponse}
    (hattached : c.attached = true) (h : s.response? r = some response)
    (hlimit : (response.octets .big).length ≤ Message.maxDatagram) :
    (c.handle now response.message.octets source).1.found =
        (SearchManager.resolve (s.result r source) (s.hosted r) c.searches.pending).1 ∧
      (c.handle now response.message.octets source).2 =
        c.answered (s.result r source) (s.hosted r) := by
  have hcids : response.cids.length < 65536 := by
    have hle := response.mul_length_cids_le .big
    unfold Message.maxDatagram at hlimit
    omega
  have hprotocol : response.protocol.utf8ByteSize ≤ Wire.maxSize := by
    rw [Responder.eq_of_response? h]
    exact show tcpProtocol.utf8ByteSize ≤ Wire.maxSize by decide
  have hread := SearchResponse.read_message hcids hprotocol
  rw [Responder.canonical_of_response? h] at hread
  have hrespond : c.searches.respond response source Header.revision =
      ((SearchManager.resolve (s.result r source) (s.hosted r) c.searches.pending).1,
        (c.answered (s.result r source) (s.hosted r)).searches) := by
    rw [Responder.eq_of_response? h, SearchManager.respond, if_neg (by simp)]
    rfl
  have hcommand : response.message.isApplication Command.searchResponse = true :=
    Message.isApplication_application
  have hhandled : c.handleMessage now source response.message =
      ({ found := (c.searches.respond response source Header.revision).1, handled := 1 },
        { c with searches := (c.searches.respond response source Header.revision).2 }) := by
    rw [handleMessage, hcommand, if_pos rfl, hread]
    simp only [hattached, if_true]
    rfl
  rw [handle, Responder.messages_message hlimit, handleMessages, hhandled, hrespond]
  exact ⟨List.append_nil _, rfl⟩

end DiscoveryClient

end PvNet
