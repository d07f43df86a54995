import PvNet.Discovery.Forwarder
import PvNet.Proofs.Discovery.SearchMessages
set_option autoImplicit false

/-!
# Relayed searches

A relay changes the octets of the first message of a datagram, provided that it is a
search with room for a reply address: it clears the unicast flag and names the sender
where the address was the wildcard.  For a server the request is then the same but
for these two fields.

Messages behind the first one stay as they are, searches included.  The reply port
stays as well, so a request that left the port open is answered at the port of the
relay.
-/

namespace PvNet

/-! ## Payloads of searches -/

/-- The payload of a search with room for a reply address, taken apart. -/
structure SearchPayload where
  sequence : Bytes
  flags : UInt8
  reserved : Bytes
  address : Bytes
  /-- The reply port, the protocols and the channels. -/
  body : Bytes
  length_sequence : sequence.length = 4
  length_reserved : reserved.length = 3
  length_address : address.length = 16
  length_body : 2 ≤ body.length

namespace SearchPayload

def octets (p : SearchPayload) : Bytes :=
  p.sequence ++ p.flags :: (p.reserved ++ (p.address ++ p.body))

def isUnicast (p : SearchPayload) : Bool := p.flags &&& SearchRequest.unicastFlag ≠ 0

def replyIp (p : SearchPayload) : IpAddress := .ofOctets p.address

/-- The parts of a payload, if it has room for a reply address. -/
def ofBytes? : Bytes → Option SearchPayload
  | s₀ :: s₁ :: s₂ :: s₃ :: flags :: r₀ :: r₁ :: r₂ :: rest =>
    if h : 18 ≤ rest.length then
      some {
        sequence := [s₀, s₁, s₂, s₃]
        flags
        reserved := [r₀, r₁, r₂]
        address := rest.take 16
        body := rest.drop 16
        length_sequence := rfl
        length_reserved := rfl
        length_address := by
          rw [List.length_take]
          exact Nat.min_eq_left (Nat.le_trans (Nat.le_add_right 16 2) h)
        length_body := by
          rw [List.length_drop]
          exact Nat.le_sub_of_add_le h }
    else none
  | _ => none

theorem octets_of_ofBytes? {payload : Bytes} {p : SearchPayload} (h : ofBytes? payload = some p) :
    payload = p.octets := by
  rcases payload with _ | ⟨s₀, _ | ⟨s₁, _ | ⟨s₂, _ | ⟨s₃, _ | ⟨flags, _ | ⟨r₀, _ | ⟨r₁, _ |
    ⟨r₂, rest⟩⟩⟩⟩⟩⟩⟩⟩
  case cons.cons.cons.cons.cons.cons.cons.cons =>
    rw [ofBytes?] at h
    split at h
    · obtain rfl := Option.some.inj h
      simp [octets]
    · cases h
  all_goals cases h

theorem isSome_ofBytes? (payload : Bytes) :
    (ofBytes? payload).isSome = decide (SearchRequest.fixedSize ≤ payload.length) := by
  rcases payload with _ | ⟨s₀, _ | ⟨s₁, _ | ⟨s₂, _ | ⟨s₃, _ | ⟨flags, _ | ⟨r₀, _ | ⟨r₁, _ |
    ⟨r₂, rest⟩⟩⟩⟩⟩⟩⟩⟩
  case cons.cons.cons.cons.cons.cons.cons.cons =>
    have hsize : SearchRequest.fixedSize ≤ rest.length + 8 ↔ 18 ≤ rest.length := by
      unfold SearchRequest.fixedSize
      omega
    simp only [List.length_cons, Nat.reduceAdd, Nat.add_assoc, hsize]
    rw [ofBytes?]
    split
    · rename_i hroom
      simp [hroom]
    · rename_i hroom
      simp [hroom]
  all_goals rfl

theorem ofBytes?_octets (p : SearchPayload) : ofBytes? p.octets = some p := by
  obtain ⟨sequence, flags, reserved, address, body, hsequence, hreserved, haddress, hbody⟩ := p
  rcases sequence with _ | ⟨s₀, _ | ⟨s₁, _ | ⟨s₂, _ | ⟨s₃, _ | ⟨s₄, sequence⟩⟩⟩⟩⟩
  case cons.cons.cons.cons.nil =>
    rcases reserved with _ | ⟨r₀, _ | ⟨r₁, _ | ⟨r₂, _ | ⟨r₃, reserved⟩⟩⟩⟩
    case cons.cons.cons.nil =>
      have hroom : 18 ≤ (address ++ body).length := by
        rw [List.length_append]
        omega
      simp only [octets, List.cons_append, List.nil_append, ofBytes?, dif_pos hroom]
      simp [← haddress]
    all_goals simp at hreserved
  all_goals simp at hsequence

/-- The payload as it is relayed: not for a single host, and with the address of the sender in place
of a wildcard. -/
def readdressed (source : Endpoint) (p : SearchPayload) : SearchPayload :=
  { p with
    flags := p.flags &&& ~~~SearchRequest.unicastFlag
    address := if p.replyIp.isWildcard then source.ip.octets else p.address
    length_address := by
      split
      · exact source.ip.length_octets
      · exact p.length_address }

variable (source : Endpoint) (p : SearchPayload)

@[simp] theorem isUnicast_readdressed : (p.readdressed source).isUnicast = false := by
  simp [isUnicast, readdressed, UInt8.and_assoc]

@[simp] theorem replyIp_readdressed : (p.readdressed source).replyIp =
    if p.replyIp.isWildcard then source.ip.canonical else p.replyIp := by
  show IpAddress.ofOctets (if p.replyIp.isWildcard then source.ip.octets else p.address) = _
  split
  · exact IpAddress.ofOctets_octets source.ip
  · rfl

variable {source}

theorem isWildcard_readdressed (h : source.ip.isWildcard = false) :
    (p.readdressed source).replyIp.isWildcard = false := by
  rw [replyIp_readdressed]
  split
  · rw [IpAddress.isWildcard_canonical, h]
  · rename_i hspecific
    exact Bool.eq_false_iff.2 hspecific

theorem length_octets_readdressed :
    (p.readdressed source).octets.length = p.octets.length := by
  simp only [octets, List.length_append, List.length_cons, (p.readdressed source).length_address,
    p.length_address]
  rfl

end SearchPayload

namespace Message

variable {m : Message} {p : SearchPayload} {maxPayload : Nat}

/-- The payload of a search with room for a reply address, if the message is one. -/
def searchPayload? (m : Message) : Option SearchPayload :=
  if m.isApplication Command.search then SearchPayload.ofBytes? m.payload else none

/-- The message with another payload of a search. -/
def withSearch (m : Message) (p : SearchPayload) : Message := { m with payload := p.octets }

theorem searchPayload?_eq_some_iff :
    m.searchPayload? = some p ↔ m.isApplication Command.search = true ∧ m.payload = p.octets := by
  unfold searchPayload?
  split
  · rename_i hsearch
    constructor
    · exact fun h => ⟨hsearch, SearchPayload.octets_of_ofBytes? h⟩
    · exact fun h => by rw [h.2, p.ofBytes?_octets]
  · rename_i hsearch
    constructor
    · exact fun h => nomatch h
    · exact fun h => absurd h.1 hsearch

theorem isControl_of_isApplication {command : UInt8} (h : m.isApplication command = true) :
    m.isControl = false := by
  unfold isApplication at h
  simpa using (Bool.and_eq_true_iff.1 h).1

/-- A message with another search of the same length is taken off the wire as it is. -/
theorem Transmissible.withSearch (h : m.Transmissible maxPayload) (hm : m.isControl = false)
    (hlength : p.octets.length = m.payload.length) : (m.withSearch p).Transmissible maxPayload := by
  have hcontrol : (m.withSearch p).isControl = false := hm
  refine ⟨⟨h.sendable.unsegmented, fun hc => ?_, ?_, ?_⟩, ?_⟩
  · rw [hcontrol] at hc
    cases hc
  · show p.octets.length ≤ maxPayload
    exact hlength ▸ h.sendable.length_le
  · show p.octets.length ≤ maxDeclared
    exact hlength ▸ h.sendable.length_le_declared
  · have hdeclared := h.declared
    have hsame : (m.withSearch p).declared =
        { header := m.declared.header, payload := p.octets } := by
      simp only [Message.declared, hm, hcontrol, Bool.false_eq_true, if_false]
      show (⟨{ m.header with payloadSize := UInt32.ofNat p.octets.length }, p.octets⟩ : Message) = _
      rw [hlength]
    rw [hsame, hdeclared]
    rfl

end Message

/-! ## Octets of a relayed datagram -/

namespace Relay

theorem modify_append_cons (f : UInt8 → UInt8) (front : Bytes) (b : UInt8) (rest : Bytes) :
    (front ++ b :: rest).modify front.length f = front ++ f b :: rest := by
  induction front with
  | nil => rfl
  | cons first front ih => simp [ih]

theorem patch_append (front old new rest : Bytes) (h : old.length = new.length) :
    patch front.length new (front ++ (old ++ rest)) = front ++ (new ++ rest) := by
  rw [patch, List.take_left, ← h, List.append_assoc, ← List.append_assoc front old rest,
    ← List.length_append, List.drop_left]

/-- What is looked at in the header of a datagram. -/
theorem isSearch_encode_append (h : Header) (body : Bytes) :
    isSearch (h.encode ++ body) =
      (!h.isControl && decide (h.command = Command.search) &&
        decide (SearchRequest.fixedSize ≤ h.payloadSize.toNat) &&
        decide (h.payloadSize.toNat ≤ body.length)) := by
  obtain ⟨a, b, c, d, hword, hvalue⟩ := Wire.exists_word32 h.order h.payloadSize
  have hsize : h.order.decode [a, b, c, d] = h.payloadSize.toNat := by
    have hlt : h.order.decode [a, b, c, d] < Nat.pow 256 4 := h.order.decode_lt [a, b, c, d]
    rw [← hvalue, UInt32.toNat_ofNat_of_lt' hlt]
  have hcontrol : (h.flags &&& Header.controlFlag == 0) = !h.isControl := by
    simp only [Header.isControl, ne_eq, decide_not, Bool.not_not]
    rfl
  have hcommand : (h.command == Command.search) = decide (h.command = Command.search) := rfl
  have horder : Header.orderOfFlags h.flags = h.order := rfl
  rw [Header.encode, hword]
  simp only [isSearch, List.cons_append, List.nil_append, beq_self_eq_true, Bool.true_and,
    hcontrol, hcommand, horder, hsize]

theorem isSearch_octets_append {m : Message} (h : m.Transmissible Message.maxDatagram)
    (rest : Bytes) : isSearch (m.octets ++ rest) = m.searchPayload?.isSome := by
  have happlication : m.isApplication Command.search =
      (!m.header.isControl && decide (m.header.command = Command.search)) := rfl
  rw [h.octets_eq, List.append_assoc, isSearch_encode_append, ← happlication,
    Message.searchPayload?]
  cases hm : m.isApplication Command.search with
  | false => rfl
  | true =>
    have hcontrol : m.header.isControl = false := Message.isControl_of_isApplication hm
    have hlength := h.payloadLength_eq
    rw [Header.payloadLength, if_neg (Bool.eq_false_iff.1 hcontrol)] at hlength
    rw [hlength, if_pos rfl, SearchPayload.isSome_ofBytes?]
    simp

/-- The payload of a search is readdressed where it stands behind the header. -/
theorem readdress?_of_isSearch {header behind : Bytes} {p : SearchPayload}
    (hheader : header.length = Header.wireSize)
    (h : isSearch (header ++ (p.octets ++ behind)) = true) (source : Endpoint) :
    readdress? source (header ++ (p.octets ++ behind)) =
      some (header ++ ((p.readdressed source).octets ++ behind)) := by
  let front := header ++ p.sequence
  let rest := p.body ++ behind
  let cleared := p.flags &&& ~~~SearchRequest.unicastFlag
  have hflags : front.length = flagsOffset := by
    rw [List.length_append, hheader, p.length_sequence]
    rfl
  have haddress : ∀ flags, (front ++ flags :: p.reserved).length = addressOffset := by
    intro flags
    rw [List.length_append, List.length_cons, p.length_reserved, hflags]
    rfl
  have hoctets : header ++ (p.octets ++ behind) =
      front ++ p.flags :: (p.reserved ++ (p.address ++ rest)) := by
    simp [SearchPayload.octets, front, rest]
  have hcleared :
      (header ++ (p.octets ++ behind)).modify flagsOffset (· &&& ~~~SearchRequest.unicastFlag) =
        (front ++ cleared :: p.reserved) ++ (p.address ++ rest) := by
    rw [hoctets, ← hflags, modify_append_cons]
    simp [cleared]
  have hreply : ((header ++ (p.octets ++ behind)).drop addressOffset).take 16 = p.address := by
    have hfront : front ++ p.flags :: (p.reserved ++ (p.address ++ rest)) =
        (front ++ p.flags :: p.reserved) ++ (p.address ++ rest) := by simp
    rw [hoctets, hfront, ← haddress p.flags, List.drop_left, ← p.length_address, List.take_left]
  have hpatch : patch addressOffset source.ip.octets
      ((front ++ cleared :: p.reserved) ++ (p.address ++ rest)) =
      (front ++ cleared :: p.reserved) ++ (source.ip.octets ++ rest) := by
    have hlength := p.length_address
    rw [← source.ip.length_octets] at hlength
    rw [← haddress cleared, patch_append _ _ _ _ hlength]
  have hafter : header ++ ((p.readdressed source).octets ++ behind) =
      (front ++ cleared :: p.reserved) ++ ((p.readdressed source).address ++ rest) := by
    simp [SearchPayload.octets, SearchPayload.readdressed, front, cleared, rest]
  rw [readdress?, if_pos h, hafter]
  simp only [hcleared, hreply, hpatch]
  show some (if p.replyIp.isWildcard then _ else _) =
    some (_ ++ ((if p.replyIp.isWildcard then source.ip.octets else p.address) ++ _))
  split
  · rfl
  · rfl

/-- A relay changes the first message, and only if it is a search with room for a reply address. -/
theorem readdress?_octets_append {m : Message} (h : m.Transmissible Message.maxDatagram)
    (source : Endpoint) (rest : Bytes) :
    readdress? source (m.octets ++ rest) =
      m.searchPayload?.map fun p => (m.withSearch (p.readdressed source)).octets ++ rest := by
  have hsearch := isSearch_octets_append h rest
  cases hp : m.searchPayload? with
  | none =>
    rw [hp] at hsearch
    exact if_neg (Bool.eq_false_iff.1 hsearch)
  | some p =>
    obtain ⟨hm, hpayload⟩ := Message.searchPayload?_eq_some_iff.1 hp
    have hchanged := h.withSearch (p := p.readdressed source)
      (Message.isControl_of_isApplication hm) (hpayload ▸ p.length_octets_readdressed)
    have hoctets : m.octets ++ rest = m.header.encode ++ (p.octets ++ rest) := by
      rw [h.octets_eq, hpayload, List.append_assoc]
    rw [hp, hoctets] at hsearch
    rw [hoctets, readdress?_of_isSearch (Header.length_encode _) hsearch, Option.map_some,
      hchanged.octets_eq, List.append_assoc]
    rfl

/-- A datagram is relayed message by message, and only its first message is changed. -/
theorem ofDatagram_of_readdress? {source : Endpoint} {datagram changed : Bytes} {ms : List Message}
    (hms : Message.ofDatagram datagram = .ok ms)
    (h : readdress? source datagram = some changed) :
    ∃ m rest p, ms = m :: rest ∧ m.searchPayload? = some p ∧
      Message.ofDatagram changed = .ok (m.withSearch (p.readdressed source) :: rest) := by
  obtain ⟨htransmissible, rfl⟩ := Message.transmissible_of_ofDatagram hms
  cases ms with
  | nil => cases h
  | cons m rest =>
    obtain ⟨hm, hrest⟩ := List.forall_mem_cons.1 htransmissible
    rw [List.flatMap_cons, readdress?_octets_append hm] at h
    obtain ⟨p, hp, rfl⟩ := Option.map_eq_some_iff.1 h
    obtain ⟨hsearch, hpayload⟩ := Message.searchPayload?_eq_some_iff.1 hp
    have hchanged := hm.withSearch (p := p.readdressed source)
      (Message.isControl_of_isApplication hsearch) (hpayload ▸ p.length_octets_readdressed)
    refine ⟨m, rest, p, rfl, hp, ?_⟩
    rw [hchanged.ofDatagram_append, Message.ofDatagram_octets hrest]
    rfl

end Relay

theorem DatagramSocket.sent_of_send {s s' : DatagramSocket} {d : Outgoing}
    (h : s.send d = (none, s')) : s'.sent = s.sent ++ [d] := by
  unfold send at h
  split at h
  · cases h
  split at h
  · cases h
  · obtain ⟨_, rfl⟩ := Prod.mk.inj h
    rfl

namespace Forwarder

/-- Whatever is to be sent on is sent on, as long as the sender can send. -/
theorem forward_of_readdress? {f : Forwarder} {datagram changed : Bytes} {source : Endpoint}
    (hsource : source.ip.isLoopback = false) (hopen : f.sender.closed = false)
    (hreachable : f.sender.unreachable = none)
    (h : Relay.readdress? source datagram = some changed) :
    f.forward datagram source = (true, changed, { f with
      sender := { f.sender with sent := f.sender.sent ++ [⟨f.destination, changed⟩] }
      forwarded := f.forwarded + 1 }) := by
  unfold forward DatagramSocket.send
  simp only [hsource, Relay.run_rewrite_of_some h, hopen, hreachable, Bool.false_eq_true, if_false,
    reduceCtorEq]

/-- What is sent on goes to the servers on this host. -/
theorem readdress?_of_forward {f f' : Forwarder} {datagram changed : Bytes} {source : Endpoint}
    (h : f.forward datagram source = (true, changed, f')) :
    Relay.readdress? source datagram = some changed ∧
      f'.sender.sent = f.sender.sent ++ [⟨f.destination, changed⟩] := by
  unfold forward at h
  split at h
  · cases h
  cases hchanged : Relay.readdress? source datagram with
  | none =>
    simp only [Relay.run_rewrite_of_none hchanged] at h
    cases h
  | some bytes =>
    simp only [Relay.run_rewrite_of_some hchanged] at h
    rcases hsend : f.sender.send ⟨f.destination, bytes⟩ with ⟨_ | e, sender⟩
    · rw [hsend] at h
      obtain ⟨_, hrest⟩ := Prod.mk.inj h
      obtain ⟨rfl, rfl⟩ := Prod.mk.inj hrest
      exact ⟨rfl, DatagramSocket.sent_of_send hsend⟩
    · rw [hsend] at h
      cases h

end Forwarder

/-! ## Searches that are relayed -/

/-- Whether a message, if it is a search with room for a reply address, is not for a single host and
names an address for the answers. -/
def Message.Redirected (m : Message) : Prop :=
  ∀ p, m.searchPayload? = some p → p.isUnicast = false ∧ p.replyIp.isWildcard = false

theorem Message.redirected_readdressed {m : Message} {p : SearchPayload} {source : Endpoint}
    (hsource : source.ip.isWildcard = false) (hm : m.searchPayload? = some p) :
    (m.withSearch (p.readdressed source)).Redirected := by
  intro q hq
  obtain ⟨hsearch, _⟩ := searchPayload?_eq_some_iff.1 hm
  have hself : (m.withSearch (p.readdressed source)).searchPayload? =
      some (p.readdressed source) := searchPayload?_eq_some_iff.2 ⟨hsearch, rfl⟩
  obtain rfl := Option.some.inj (hself.symm.trans hq)
  exact ⟨p.isUnicast_readdressed source, p.isWildcard_readdressed hsource⟩

/-- The first message of a relayed datagram is a search, and it is redirected.  All others stay as
they are, so every search in the datagram is redirected exactly if those behind the first message
were from the beginning. -/
theorem relayed_searches_redirected_iff {f f' : Forwarder} {datagram changed : Bytes}
    {source : Endpoint} {ms : List Message} (hms : Message.ofDatagram datagram = .ok ms)
    (hsource : source.ip.isWildcard = false)
    (h : f.forward datagram source = (true, changed, f')) :
    ∃ m rest p, ms = m :: rest ∧ m.searchPayload? = some p ∧
      f'.sender.sent = f.sender.sent ++ [⟨f.destination, changed⟩] ∧
      Message.ofDatagram changed = .ok (m.withSearch (p.readdressed source) :: rest) ∧
      ((∀ m' ∈ m.withSearch (p.readdressed source) :: rest, m'.Redirected) ↔
        ∀ m' ∈ rest, m'.Redirected) := by
  obtain ⟨hchanged, hsent⟩ := Forwarder.readdress?_of_forward h
  obtain ⟨m, rest, p, rfl, hp, hdatagram⟩ := Relay.ofDatagram_of_readdress? hms hchanged
  refine ⟨m, rest, p, rfl, hp, hsent, hdatagram, ?_⟩
  rw [List.forall_mem_cons]
  exact and_iff_right (Message.redirected_readdressed hsource hp)

/-! ### Requests that leave everything open -/

/-- The payload of a request, taken apart. -/
def SearchRequest.toPayload (o : ByteOrder) (r : SearchRequest) : SearchPayload where
  sequence := Wire.word32 o r.sequence
  flags := if r.unicast then unicastFlag else 0
  reserved := [0, 0, 0]
  address := r.replyTo.ip.octets
  body := Wire.word16 o r.replyTo.port ++ (Wire.length o r.protocols.length ++
    (r.protocols.flatMap (Wire.string o) ++ (Wire.word16 o (UInt16.ofNat r.channels.length) ++
      r.channels.flatMap (SearchEntry.encode o))))
  length_sequence := ByteOrder.length_encode o 4 _
  length_reserved := rfl
  length_address := r.replyTo.ip.length_octets
  length_body := by
    have hport : (Wire.word16 o r.replyTo.port).length = 2 := ByteOrder.length_encode o 2 _
    rw [List.length_append, hport]
    exact Nat.le_add_right 2 _

namespace SearchRequest

theorem octets_toPayload (o : ByteOrder) (r : SearchRequest) :
    (r.toPayload o).octets = r.octets o := by
  simp [SearchPayload.octets, toPayload, octets, Endpoint.encode]

theorem isUnicast_toPayload (o : ByteOrder) (r : SearchRequest) :
    (r.toPayload o).isUnicast = r.unicast := by
  show decide ((if r.unicast then unicastFlag else 0) &&& unicastFlag ≠ 0) = r.unicast
  cases r.unicast <;> rfl

theorem searchPayload?_message (r : SearchRequest) :
    r.message.searchPayload? = some (r.toPayload .big) :=
  Message.searchPayload?_eq_some_iff.2
    ⟨Message.isApplication_application, (r.octets_toPayload .big).symm⟩

end SearchRequest

/-- A request to a single host that leaves the reply address and the reply port open. -/
def openRequest : SearchRequest := ⟨1, true, .any 0, [], [⟨7, "x"⟩]⟩

theorem transmissible_openRequest : openRequest.message.Transmissible Message.maxDatagram :=
  Message.transmissible_application (by decide) (by decide)

theorem not_redirected_openRequest : ¬ openRequest.message.Redirected := by
  intro h
  have hspecific := (h _ openRequest.searchPayload?_message).1
  rw [SearchRequest.isUnicast_toPayload] at hspecific
  cases hspecific

/-- A client outside the own host. -/
def remoteClient : Endpoint := ⟨.v4 (.ofOctets 10 0 0 5), 4000⟩

/-- A relay to the servers on the own host. -/
def localRelay : Forwarder where
  receiver := { address := .any 5076 }
  sender := { address := ⟨.v4 .localhost, 5000⟩ }
  destination := ⟨.v4 (.ofOctets 224 0 0 128), 5076⟩

theorem readdress?_openRequest (rest : Bytes) :
    Relay.readdress? remoteClient (openRequest.message.octets ++ rest) =
      some ((openRequest.message.withSearch
        ((openRequest.toPayload .big).readdressed remoteClient)).octets ++ rest) := by
  rw [Relay.readdress?_octets_append transmissible_openRequest, openRequest.searchPayload?_message]
  rfl

theorem forward_openRequest (rest : Bytes) :
    ∃ changed f', localRelay.forward (openRequest.message.octets ++ rest) remoteClient =
        (true, changed, f') ∧
      Relay.readdress? remoteClient (openRequest.message.octets ++ rest) = some changed :=
  ⟨_, _, Forwarder.forward_of_readdress? (by decide) rfl rfl (readdress?_openRequest rest),
    readdress?_openRequest rest⟩

theorem ofDatagram_openRequests (n : Nat) :
    Message.ofDatagram ((List.replicate n openRequest.message).flatMap Message.octets) =
      .ok (List.replicate n openRequest.message) := by
  refine Message.ofDatagram_octets fun m hm => ?_
  rw [List.eq_of_mem_replicate hm]
  exact transmissible_openRequest

/-- A search that is alone in its datagram is redirected. -/
theorem single_search_redirected :
    ∃ changed f' m, localRelay.forward (openRequest.message.octets ++ []) remoteClient =
        (true, changed, f') ∧
      Message.ofDatagram changed = .ok [m] ∧ m.Redirected := by
  obtain ⟨changed, f', hforward, _⟩ := forward_openRequest []
  obtain ⟨m, rest, p, hms, _, _, hdatagram, hiff⟩ :=
    relayed_searches_redirected_iff (ofDatagram_openRequests 1) (by decide) hforward
  obtain ⟨_, rfl⟩ := List.cons.inj hms
  exact ⟨changed, f', _, hforward, hdatagram, hiff.2 nofun _ (List.mem_cons_self ..)⟩

/-- A search behind another one is relayed as it is, for a single host and with the wildcard. -/
theorem second_search_not_redirected :
    ∃ changed f' m,
      Message.ofDatagram (openRequest.message.octets ++ (openRequest.message.octets ++ [])) =
        .ok [openRequest.message, openRequest.message] ∧
      localRelay.forward (openRequest.message.octets ++ (openRequest.message.octets ++ []))
        remoteClient = (true, changed, f') ∧
      Message.ofDatagram changed = .ok [m, openRequest.message] ∧
      ¬ openRequest.message.Redirected := by
  obtain ⟨changed, f', hforward, hchanged⟩ := forward_openRequest (openRequest.message.octets ++ [])
  obtain ⟨m, rest, p, hms, _, hdatagram⟩ :=
    Relay.ofDatagram_of_readdress? (ofDatagram_openRequests 2) hchanged
  obtain ⟨_, rfl⟩ := List.cons.inj hms
  exact ⟨changed, f', _, ofDatagram_openRequests 2, hforward, hdatagram,
    not_redirected_openRequest⟩

end PvNet
