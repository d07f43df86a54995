import Mathlib.Data.List.Induction
import PvNet.Proofs.Discovery.Exchange
set_option autoImplicit false

/-!
# Searches over a network

A client and any number of servers exchange datagrams over a network that delivers
whatever was ever sent: any number of times, in any order, or never.  `run` records
what the registered channels see, that is, when a search starts, when it is given up and
where the channel was found.

What carries over from step to step is that the pending searches are those that the
history leaves open, and that every datagram was written by the client or a server: a
question asks for channels under their own names, and an answer lists channels that
its server hosts.
-/

namespace PvNet

/-! ## The network -/

/-- A datagram that was sent, with the server that sent it; there is none if the client did. -/
structure Packet (ι : Type) where
  sender : Option ι
  datagram : Outgoing

/-- A client and the datagrams between it and its servers. -/
structure SearchNetwork (ι : Type) where
  client : DiscoveryClient
  /-- Every datagram that was ever sent, oldest first. -/
  packets : List (Packet ι)

/-- What happens next. -/
inductive SearchStep (ι : Type) where
  | register (now : Instant) (cid : UInt32) (name : String) (penalize : Bool)
  | unregister (cid : UInt32)
  | tick (now : Instant)
  /-- A new server makes every search due. -/
  | boost (now : Instant)
  /-- A datagram, given by its position among all that were sent, arrives at a server. -/
  | ask (server : ι) (position : Nat) (source : Endpoint)
  /-- A datagram arrives at the client. -/
  | answer (now : Instant) (position : Nat) (source : Endpoint)

/-- What is seen of a channel. -/
inductive SearchEvent (ι : Type) where
  | registered (cid : UInt32) (name : String)
  | unregistered (cid : UInt32)
  /-- A datagram from `source`, which the server sent, ended the search. -/
  | found (server : Option ι) (source : Endpoint) (result : SearchResult)

namespace SearchEvent

variable {ι : Type}

/-- The channel that the event is about. -/
def channel : SearchEvent ι → UInt32
  | registered cid _ => cid
  | unregistered cid => cid
  | found _ _ result => result.cid

/-- The name under which the channel is searched after the event. -/
def opened? : SearchEvent ι → Option String
  | registered _ name => some name
  | unregistered _ | found _ _ _ => none

end SearchEvent

/-- The name under which a history leaves a channel searched. -/
def searched? {ι : Type} (cid : UInt32) (history : List (SearchEvent ι)) : Option String :=
  history.foldl (fun before e => if e.channel = cid then e.opened? else before) none

namespace SearchNetwork

variable {ι : Type}

/-- One step: what is seen, and the network afterwards. -/
def step (servers : ι → Responder) (n : SearchNetwork ι) :
    SearchStep ι → List (SearchEvent ι) × SearchNetwork ι
  | .register now cid name penalize =>
    match n.client.searches.register? now cid name penalize with
    | none => ([], n)
    | some searches => ([.registered cid name], { n with client := { n.client with searches } })
  | .unregister cid =>
    let searches := (n.client.searches.unregister cid).2
    ([.unregistered cid], { n with client := { n.client with searches } })
  | .tick now =>
    let (_, sent, searches) := n.client.searches.tick now
    ([], { client := { n.client with searches }, packets := n.packets ++ sent.map (⟨none, ·⟩) })
  | .boost now =>
    let searches := n.client.searches.boost now
    ([], { n with client := { n.client with searches } })
  | .ask i position source =>
    match n.packets[position]? with
    | none => ([], n)
    | some p =>
      let sent := (servers i).answers p.datagram.bytes source
      ([], { n with packets := n.packets ++ sent.map (⟨some i, ·⟩) })
  | .answer now position source =>
    match n.packets[position]? with
    | none => ([], n)
    | some p =>
      let (effects, client) := n.client.handle now p.datagram.bytes source
      (effects.found.map (.found p.sender source), { n with client })

/-- Steps one after the other: what is seen, and the network in the end. -/
def run (servers : ι → Responder) :
    List (SearchStep ι) → SearchNetwork ι → List (SearchEvent ι) × SearchNetwork ι
  | [], n => ([], n)
  | s :: steps, n =>
    let (events, n) := n.step servers s
    let (later, n) := run servers steps n
    (events ++ later, n)

/-- Nothing is searched or was sent, and servers are to answer to the source of a search. -/
structure Fresh (n : SearchNetwork ι) : Prop where
  pending : n.client.searches.pending = .empty
  canceled : n.client.searches.canceled = false
  attached : n.client.attached = true
  replyTo : n.client.searches.replyTo.ip.isWildcard = true
  packets : n.packets = []

end SearchNetwork

/-- Every channel is registered under the name that its number stands for. -/
def SearchStep.Named {ι : Type} (names : UInt32 → String) : SearchStep ι → Prop
  | .register _ cid name _ => name = names cid
  | _ => True

/-! ## What a history says of searches -/

section

variable {ι : Type} {h : List (SearchEvent ι)} {cid : UInt32} {name : String}

theorem searched?_concat (e : SearchEvent ι) :
    searched? cid (h ++ [e]) = if e.channel = cid then e.opened? else searched? cid h := by
  rw [searched?, List.foldl_append]
  rfl

/-- The search that ends at position `stop` with a result began at position `start`: it is for the
same channel under the same name, and nothing was seen of the channel in between. -/
structure Ends (h : List (SearchEvent ι)) (start stop : Nat) (result : SearchResult) : Prop where
  registered : h[start]? = some (.registered result.cid result.name)
  found : ∃ server source, h[stop]? = some (.found server source result)
  after : start < stop
  between : ∀ i e, start < i → i < stop → h[i]? = some e → e.channel ≠ result.cid

/-- A search ends at most once. -/
theorem Ends.unique {start stop stop' : Nat} {result result' : SearchResult}
    (hends : Ends h start stop result) (hends' : Ends h start stop' result') : stop = stop' := by
  -- Neither end may come in front of the other, since it would be in between.
  have hle : ∀ {i j r r'}, Ends h start i r → Ends h start j r' → ¬ i < j := by
    intro i j r r' hi hj hlt
    obtain ⟨server, source, hfound⟩ := hi.found
    have hsame := hi.registered.symm.trans hj.registered
    obtain ⟨hcid, _⟩ := SearchEvent.registered.inj (Option.some.inj hsame)
    exact hj.between i _ hi.after hlt hfound hcid
  exact Nat.le_antisymm (Nat.le_of_not_lt (hle hends' hends)) (Nat.le_of_not_lt (hle hends hends'))

theorem Ends.append {start stop : Nat} {result : SearchResult} (hends : Ends h start stop result)
    (later : List (SearchEvent ι)) : Ends (h ++ later) start stop result := by
  obtain ⟨server, source, hfound⟩ := hends.found
  have hstop : stop < h.length := (List.getElem?_eq_some_iff.1 hfound).1
  have hold : ∀ i, i ≤ stop → (h ++ later)[i]? = h[i]? := fun i hi =>
    List.getElem?_append_left (Nat.lt_of_le_of_lt hi hstop)
  refine ⟨?_, ⟨server, source, ?_⟩, hends.after, fun i e hstart hi he => ?_⟩
  · rw [hold start (Nat.le_of_lt hends.after)]
    exact hends.registered
  · rw [hold stop (Nat.le_refl stop)]
    exact hfound
  · rw [hold i (Nat.le_of_lt hi)] at he
    exact hends.between i e hstart hi he

/-- A channel that is searched was registered, and nothing was seen of it since. -/
theorem exists_registered (hsearched : searched? cid h = some name) :
    ∃ start : Nat, h[start]? = some (.registered cid name) ∧
      ∀ (i : Nat) e, start < i → h[i]? = some e → e.channel ≠ cid := by
  induction h using List.reverseRecOn with
  | nil => cases hsearched
  | append_singleton h e ih =>
    rw [searched?_concat] at hsearched
    split at hsearched
    · rename_i hchannel
      cases e with
      | registered cid' name' =>
        obtain rfl := Option.some.inj hsearched
        obtain rfl : cid' = cid := hchannel
        refine ⟨h.length, List.getElem?_concat_length, fun i e hi he => ?_⟩
        have hlt := (List.getElem?_eq_some_iff.1 he).1
        rw [List.length_append, List.length_singleton] at hlt
        omega
      | unregistered | found => cases hsearched
    · rename_i hchannel
      obtain ⟨start, hstart, hsince⟩ := ih hsearched
      have hlt := (List.getElem?_eq_some_iff.1 hstart).1
      refine ⟨start, ?_, fun i e' hi he' => ?_⟩
      · rw [List.getElem?_append_left hlt]
        exact hstart
      · rcases Nat.lt_or_ge i h.length with hold | hnew
        · rw [List.getElem?_append_left hold] at he'
          exact hsince i e' hi he'
        · rw [List.getElem?_append_right hnew] at he'
          obtain rfl := List.mem_singleton.1 (List.mem_of_getElem? he')
          exact hchannel

theorem exists_ends_concat {server : Option ι} {source : Endpoint} {result : SearchResult}
    (hsearched : searched? result.cid h = some result.name) :
    ∃ start, Ends (h ++ [.found server source result]) start h.length result := by
  obtain ⟨start, hstart, hsince⟩ := exists_registered hsearched
  have hlt := (List.getElem?_eq_some_iff.1 hstart).1
  refine ⟨start, ?_, ⟨server, source, List.getElem?_concat_length⟩, hlt, fun i e hi hstop he => ?_⟩
  · rw [List.getElem?_append_left hlt]
    exact hstart
  · rw [List.getElem?_append_left hstop] at he
    exact hsince i e hi he

end

/-! ## Pending searches -/

/-- A result as the server that sent the answer should have it: it hosts the channel under this
name, and it is reached where the datagram came from, at its own port. -/
def Credible {ι : Type} (servers : ι → Responder) (server : Option ι) (source : Endpoint)
    (result : SearchResult) : Prop :=
  ∃ i, server = some i ∧ (servers i).hosts result.name = true ∧ result.guid = (servers i).guid ∧
    result.server = ⟨source.ip, (servers i).port⟩

/-- The pending searches are those that the history leaves open, and all that it says of ends is
credible. -/
structure Tracks {ι : Type} (servers : ι → Responder) (names : UInt32 → String)
    (pending : Table UInt32 PendingSearch) (h : List (SearchEvent ι)) : Prop where
  searched : ∀ cid, (pending.get? cid).map (·.name) = searched? cid h
  named : ∀ cid p, pending.get? cid = some p → p.name = names cid
  found : ∀ (i : Nat) server source result, h[i]? = some (.found server source result) →
    Credible servers server source result ∧ ∃ start, Ends h start i result

namespace Tracks

variable {ι : Type} {servers : ι → Responder} {names : UInt32 → String}
  {pending : Table UInt32 PendingSearch} {h : List (SearchEvent ι)}

theorem empty : Tracks servers names .empty [] :=
  ⟨fun _ => rfl, nofun, nofun⟩

/-- What is said of ends, one event later. -/
theorem found_concat (ht : Tracks servers names pending h) {e : SearchEvent ι}
    (he : ∀ server source result, e = .found server source result →
      Credible servers server source result ∧ searched? result.cid h = some result.name)
    (i : Nat) (server : Option ι) (source : Endpoint) (result : SearchResult)
    (hi : (h ++ [e])[i]? = some (.found server source result)) :
    Credible servers server source result ∧ ∃ start, Ends (h ++ [e]) start i result := by
  rcases Nat.lt_or_ge i h.length with hold | hnew
  · rw [List.getElem?_append_left hold] at hi
    obtain ⟨hcredible, start, hends⟩ := ht.found i server source result hi
    exact ⟨hcredible, start, hends.append [e]⟩
  · have hlt := (List.getElem?_eq_some_iff.1 hi).1
    rw [List.length_append, List.length_singleton] at hlt
    obtain rfl : i = h.length := by omega
    rw [List.getElem?_concat_length] at hi
    obtain rfl := Option.some.inj hi
    obtain ⟨hcredible, hsearched⟩ := he server source result rfl
    exact ⟨hcredible, exists_ends_concat hsearched⟩

theorem registered (ht : Tracks servers names pending h) {cid : UInt32} {p : PendingSearch}
    (hname : p.name = names cid) :
    Tracks servers names (pending.put cid p) (h ++ [.registered cid p.name]) := by
  refine ⟨fun c => ?_, fun c q hq => ?_, ht.found_concat nofun⟩
  · rw [searched?_concat, ← ht.searched c, Table.get?_put]
    show Option.map _ (if cid = c then _ else _) = if cid = c then _ else _
    split
    · rfl
    · rfl
  · rw [Table.get?_put] at hq
    split at hq
    · rename_i hc
      obtain rfl := Option.some.inj hq
      exact hc ▸ hname
    · exact ht.named c q hq

/-- A channel is taken out of the searches, and the event says so. -/
theorem erased (ht : Tracks servers names pending h) {e : SearchEvent ι}
    (hclosed : e.opened? = none)
    (he : ∀ server source result, e = .found server source result →
      Credible servers server source result ∧ searched? result.cid h = some result.name) :
    Tracks servers names (pending.erase e.channel) (h ++ [e]) := by
  refine ⟨fun c => ?_, fun c q hq => ?_, ht.found_concat he⟩
  · rw [searched?_concat, ← ht.searched c, Table.get?_erase]
    split
    · exact hclosed.symm
    · rfl
  · rw [Table.get?_erase] at hq
    split at hq
    · cases hq
    · exact ht.named c q hq

theorem unregistered (ht : Tracks servers names pending h) (cid : UInt32) :
    Tracks servers names (pending.erase cid) (h ++ [.unregistered cid]) :=
  ht.erased (e := .unregistered cid) rfl nofun

theorem ended (ht : Tracks servers names pending h) {server : Option ι} {source : Endpoint}
    {result : SearchResult} {p : PendingSearch} (hp : pending.get? result.cid = some p)
    (hname : result.name = p.name) (hcredible : Credible servers server source result) :
    Tracks servers names (pending.erase result.cid) (h ++ [.found server source result]) := by
  refine ht.erased (e := .found server source result) rfl ?_
  intro server' source' result' hsame
  obtain ⟨rfl, rfl, rfl⟩ := SearchEvent.found.inj hsame
  refine ⟨hcredible, ?_⟩
  rw [← ht.searched, hp, hname]
  rfl

theorem of_names (ht : Tracks servers names pending h) {pending' : Table UInt32 PendingSearch}
    (hnames : ∀ cid, (pending'.get? cid).map (·.name) = (pending.get? cid).map (·.name)) :
    Tracks servers names pending' h := by
  refine ⟨fun c => (hnames c).trans (ht.searched c), fun c q hq => ?_, ht.found⟩
  have hname := hnames c
  rw [hq, Option.map_some] at hname
  obtain ⟨p, hp, hsame⟩ := Option.map_eq_some_iff.1 hname.symm
  rw [← hsame]
  exact ht.named c p hp

end Tracks

namespace Tracks

variable {ι : Type} {servers : ι → Responder} {names : UInt32 → String}
  {pending : Table UInt32 PendingSearch} {h : List (SearchEvent ι)}

/-- The channels of an answer are taken out of the searches one by one. -/
theorem resolve (ht : Tracks servers names pending h) {server : Option ι} {source : Endpoint}
    {found : UInt32 → String → SearchResult} {cids : List UInt32}
    (hfound : ∀ cid name, (found cid name).cid = cid ∧ (found cid name).name = name)
    (hcredible : ∀ cid ∈ cids, Credible servers server source (found cid (names cid))) :
    Tracks servers names (SearchManager.resolve found cids pending).2
      (h ++ (SearchManager.resolve found cids pending).1.map (.found server source)) := by
  induction cids generalizing pending h with
  | nil =>
    rw [SearchManager.resolve, List.map_nil, List.append_nil]
    exact ht
  | cons cid cids ih =>
    obtain ⟨hfirst, hothers⟩ := List.forall_mem_cons.1 hcredible
    rw [SearchManager.resolve]
    cases hp : pending.get? cid with
    | some p =>
      have hname := ht.named cid p hp
      obtain ⟨hcid, hresult⟩ := hfound cid p.name
      rw [← hname] at hfirst
      rw [← hcid] at hp
      have hended := ht.ended hp hresult hfirst
      rw [hcid] at hended
      have hrest := ih hended hothers
      rw [List.append_assoc] at hrest
      exact hrest
    | none => exact ih ht hothers

end Tracks

/-! ## Datagrams on the network -/

section

variable {ι : Type}

/-- A datagram as the client or a server writes it: a question asks for channels under the names
that their numbers stand for, and an answer is that of a server to such a question. -/
inductive Packet.Genuine (servers : ι → Responder) (names : UInt32 → String) : Packet ι → Prop where
  | question {r : SearchRequest} {target : Endpoint} {bytes : Bytes}
      (framed : SearchManager.frame? r = some bytes)
      (replyTo : r.replyTo.ip.isWildcard = true) (tcp : r.protocols = [tcpProtocol])
      (named : ∀ e ∈ r.channels, e.name = names e.cid) :
      Genuine servers names ⟨none, ⟨target, bytes⟩⟩
  | answer {i : ι} {r : SearchRequest} {response : SearchResponse} {target : Endpoint}
      (answered : (servers i).response? r = some response)
      (limit : (response.octets .big).length ≤ Message.maxDatagram)
      (named : ∀ e ∈ r.channels, e.name = names e.cid) :
      Genuine servers names ⟨some i, ⟨target, response.message.octets⟩⟩

end

/-- A server answers questions only, and in datagrams that the client accepts. -/
theorem Packet.Genuine.answers {ι : Type} {servers : ι → Responder} {names : UInt32 → String}
    {p : Packet ι} (hp : p.Genuine servers names) {i : ι} {source : Endpoint} {a : Outgoing}
    (ha : a ∈ (servers i).answers p.datagram.bytes source) :
    Packet.Genuine servers names ⟨some i, a⟩ := by
  cases hp with
  | @question r target bytes framed replyTo tcp named =>
    rw [Responder.answers_frame framed] at ha
    split at ha
    · rename_i hlimit
      obtain ⟨answer, hanswer, rfl⟩ := Option.map_eq_some_iff.1 (Option.mem_toList.1 ha)
      obtain ⟨response, hresponse, hframe⟩ := Option.bind_eq_some_iff.1 hanswer
      obtain ⟨hreply, hfits⟩ := Responder.reply?_of_response? hresponse
        (Nat.le_trans (r.mul_length_channels_le .big) hlimit)
      obtain rfl := Option.some.inj (hreply.symm.trans hanswer)
      exact .answer hresponse hfits named
    · cases ha
  | answer answered limit named =>
    rw [Responder.answers_eq, Responder.requests_message limit] at ha
    cases ha

/-- Whether a datagram asks for a channel. -/
def Packet.AsksFor {ι : Type} (p : Packet ι) (e : SearchEntry) : Prop :=
  ∃ r ∈ Responder.requests p.datagram.bytes, e ∈ r.channels

/-- A server that hosts a channel answers a question for it once, and lists the channel. -/
theorem Packet.Genuine.exists_answer {ι : Type} {servers : ι → Responder}
    {names : UInt32 → String} {p : Packet ι} (hp : p.Genuine servers names) {e : SearchEntry}
    (hasks : p.AsksFor e) {i : ι} (hhosts : (servers i).hosts e.name = true) (source : Endpoint) :
    ∃ r response target, (servers i).response? r = some response ∧ e.cid ∈ (servers i).hosted r ∧
      (response.octets .big).length ≤ Message.maxDatagram ∧ target.ip = source.ip ∧
      (servers i).answers p.datagram.bytes source = [⟨target, response.message.octets⟩] := by
  obtain ⟨r', hr', he⟩ := hasks
  cases hp with
  | @question r target bytes framed replyTo tcp named =>
    rw [SearchRequest.requests_frame framed] at hr'
    split at hr'
    · rename_i hlimit
      obtain rfl := List.mem_singleton.1 hr'
      have hhosted : e.cid ∈ (servers i).hosted r := Responder.mem_hosted.2 ⟨e, he, hhosts, rfl⟩
      have htcp : r.wantsTcp = true := by
        rw [SearchRequest.wantsTcp, tcp]
        rfl
      have hresponse := Responder.response?_of_hosted htcp hhosted
      obtain ⟨hreply, hfits⟩ := Responder.reply?_of_response? hresponse
        (Nat.le_trans (r.mul_length_channels_le .big) hlimit)
      have hwildcard : r.canonical.replyTo.ip.isWildcard = true := by
        rw [← replyTo]
        exact IpAddress.isWildcard_canonical r.replyTo.ip
      refine ⟨r, _, Responder.target r.canonical source, hresponse, hhosted, hfits, ?_, ?_⟩
      · rw [Responder.target, Endpoint.resolve, if_pos hwildcard]
      · rw [Responder.answers_frame framed, if_pos hlimit, hreply]
        rfl
    · cases hr'
  | answer answered limit named =>
    rw [Responder.requests_message limit] at hr'
    cases hr'

/-! ## The network, step by step -/

namespace SearchNetwork

variable {ι : Type} {servers : ι → Responder} {names : UInt32 → String}
  {h : List (SearchEvent ι)} {n : SearchNetwork ι}

/-- What holds of a network with a history. -/
structure Sound (servers : ι → Responder) (names : UInt32 → String) (h : List (SearchEvent ι))
    (n : SearchNetwork ι) : Prop where
  attached : n.client.attached = true
  uncanceled : n.client.searches.canceled = false
  replyTo : n.client.searches.replyTo.ip.isWildcard = true
  tracks : Tracks servers names n.client.searches.pending h
  packets : ∀ p ∈ n.packets, p.Genuine servers names

theorem Fresh.sound (hn : n.Fresh) : n.Sound servers names [] where
  attached := hn.attached
  uncanceled := hn.canceled
  replyTo := hn.replyTo
  tracks := by
    rw [hn.pending]
    exact Tracks.empty
  packets p hp := by
    rw [hn.packets] at hp
    cases hp

/-- A step leaves the network sound, together with what is seen of it. -/
theorem sound_step (hs : n.Sound servers names h) {s : SearchStep ι} (hnamed : s.Named names) :
    (n.step servers s).2.Sound servers names (h ++ (n.step servers s).1) := by
  cases s with
  | register now cid name penalize =>
    rcases SearchManager.register?_cases hs.uncanceled now cid name penalize with
      hnone | ⟨p, rfl, hregister⟩
    · simp only [SearchNetwork.step, hnone, List.append_nil]
      exact hs
    · simp only [SearchNetwork.step, hregister]
      exact { hs with tracks := hs.tracks.registered hnamed }
  | unregister cid => exact { hs with tracks := hs.tracks.unregistered cid }
  | tick now =>
    obtain ⟨outcome, sequence, entries, hdue, htick⟩ :=
      SearchManager.exists_tick hs.uncanceled now
    have hsent : Tracks servers names (n.client.searches.ticked now sequence).pending h :=
      hs.tracks.of_names (Table.map_get?_changeValues fun _ => SearchManager.name_putOff _ now)
    simp only [SearchNetwork.step, htick, List.append_nil]
    refine { hs with tracks := hsent, packets := fun q hq => ?_ }
    rcases List.mem_append.1 hq with hq | hq
    · exact hs.packets q hq
    · obtain ⟨a, ha, rfl⟩ := List.mem_map.1 hq
      obtain ⟨r, hframe, hsame, htcp, hentries⟩ := SearchManager.exists_request_of_mem_outgoing ha
      refine .question hframe (hsame ▸ hs.replyTo) htcp fun e he => ?_
      obtain ⟨p, hp, hname⟩ := SearchManager.mem_due (hdue e (hentries e he))
      rw [← hname]
      exact hs.tracks.named e.cid p hp
  | boost now =>
    rw [SearchNetwork.step, List.append_nil]
    have hdue : Tracks servers names (n.client.searches.boost now).pending h := by
      refine hs.tracks.of_names fun cid => ?_
      rw [SearchManager.boost, Table.get?_mapValues, Option.map_map]
      rfl
    exact { hs with tracks := hdue }
  | ask i position source =>
    rw [SearchNetwork.step]
    cases hp : n.packets[position]? with
    | none =>
      rw [List.append_nil]
      exact hs
    | some p =>
      rw [List.append_nil]
      refine { hs with packets := fun q hq => ?_ }
      rcases List.mem_append.1 hq with hq | hq
      · exact hs.packets q hq
      · obtain ⟨a, ha, rfl⟩ := List.mem_map.1 hq
        exact (hs.packets p (List.mem_of_getElem? hp)).answers ha
  | answer now position source =>
    rw [SearchNetwork.step]
    cases hp : n.packets[position]? with
    | none =>
      rw [List.append_nil]
      exact hs
    | some p =>
      obtain ⟨sender, target, bytes⟩ := p
      cases hs.packets _ (List.mem_of_getElem? hp) with
      | question framed _ _ _ =>
        obtain ⟨hfound, hclient⟩ := n.client.handle_question now source framed
        simp only [hfound, hclient, List.map_nil, List.append_nil]
        exact hs
      | @answer i r response target answered limit named =>
        obtain ⟨hfound, hclient⟩ := n.client.handle_answer now source hs.attached answered limit
        simp only [hfound, hclient]
        have hcredible : ∀ cid ∈ (servers i).hosted r, Credible servers (some i) source
            ((servers i).result r source cid (names cid)) := by
          intro cid hcid
          obtain ⟨e, he, hhosts, rfl⟩ := Responder.mem_hosted.1 hcid
          exact ⟨i, rfl, named e he ▸ hhosts, rfl, rfl⟩
        exact { hs with tracks := hs.tracks.resolve (fun _ _ => ⟨rfl, rfl⟩) hcredible }

theorem run_cons (servers : ι → Responder) (s : SearchStep ι) (steps : List (SearchStep ι))
    (n : SearchNetwork ι) :
    run servers (s :: steps) n =
      ((n.step servers s).1 ++ (run servers steps (n.step servers s).2).1,
        (run servers steps (n.step servers s).2).2) := rfl

theorem run_append (s₁ s₂ : List (SearchStep ι)) (n : SearchNetwork ι) :
    run servers (s₁ ++ s₂) n =
      ((run servers s₁ n).1 ++ (run servers s₂ (run servers s₁ n).2).1,
        (run servers s₂ (run servers s₁ n).2).2) := by
  induction s₁ generalizing n with
  | nil => rfl
  | cons s s₁ ih =>
    rw [List.cons_append, run_cons, run_cons, ih]
    simp only [List.append_assoc]

/-- The run of a sound network leaves it sound. -/
theorem sound_run (hs : n.Sound servers names h) {steps : List (SearchStep ι)}
    (hnamed : ∀ s ∈ steps, s.Named names) :
    (run servers steps n).2.Sound servers names (h ++ (run servers steps n).1) := by
  induction steps generalizing h n with
  | nil =>
    rw [SearchNetwork.run, List.append_nil]
    exact hs
  | cons s steps ih =>
    obtain ⟨hfirst, hothers⟩ := List.forall_mem_cons.1 hnamed
    have hrest := ih (sound_step hs hfirst) hothers
    rw [List.append_assoc] at hrest
    exact hrest

/-- What was sent stays on the network. -/
theorem packets_step (servers : ι → Responder) (n : SearchNetwork ι) (s : SearchStep ι) :
    n.packets <+: (n.step servers s).2.packets := by
  cases s with
  | register now cid name penalize =>
    rw [step]
    cases n.client.searches.register? now cid name penalize with
    | none => exact List.prefix_refl _
    | some searches => exact List.prefix_refl _
  | unregister | boost => exact List.prefix_refl _
  | tick now => exact List.prefix_append _ _
  | ask i position source =>
    rw [step]
    cases n.packets[position]? with
    | none => exact List.prefix_refl _
    | some p => exact List.prefix_append _ _
  | answer now position source =>
    rw [step]
    cases n.packets[position]? with
    | none => exact List.prefix_refl _
    | some p => exact List.prefix_refl _

theorem packets_run (servers : ι → Responder) (steps : List (SearchStep ι)) (n : SearchNetwork ι) :
    n.packets <+: (run servers steps n).2.packets := by
  induction steps generalizing n with
  | nil => exact List.prefix_refl _
  | cons s steps ih => exact (packets_step servers n s).trans (ih _)

/-- Whatever happens between a question and the answer to it, the answer ends the search. -/
theorem get?_of_answered (hs : n.Sound servers names h) {i : ι} {position : Nat}
    {p : Packet ι} {e : SearchEntry} {source source' : Endpoint} {between : List (SearchStep ι)}
    {now : Instant} (hp : n.packets[position]? = some p) (hasks : p.AsksFor e)
    (hhosts : (servers i).hosts e.name = true) (hnamed : ∀ s ∈ between, s.Named names) :
    (∃ a, (servers i).answers p.datagram.bytes source = [a] ∧ a.target.ip = source.ip) ∧
      (run servers (.ask i position source :: (between ++ [.answer now n.packets.length source']))
        n).2.client.searches.pending.get? e.cid = none := by
  obtain ⟨r, response, target, hresponse, hhosted, hfits, htarget, hanswers⟩ :=
    (hs.packets p (List.mem_of_getElem? hp)).exists_answer hasks hhosts source
  refine ⟨⟨_, hanswers, htarget⟩, ?_⟩
  let answer : Packet ι := ⟨some i, ⟨target, response.message.octets⟩⟩
  have hask : n.step servers (.ask i position source) =
      ([], { n with packets := n.packets ++ [answer] }) := by
    rw [SearchNetwork.step, hp]
    simp only [hanswers]
    rfl
  have hasked := sound_step hs (s := .ask i position source) trivial
  rw [hask, List.append_nil] at hasked
  have hlater := sound_run hasked hnamed
  have hposition : (run servers between { n with packets := n.packets ++ [answer] }).2.packets[
      n.packets.length]? = some answer := by
    obtain ⟨more, hmore⟩ := packets_run servers between { n with packets := n.packets ++ [answer] }
    rw [← hmore, List.getElem?_append_left (by simp)]
    exact List.getElem?_concat_length
  obtain ⟨_, hclient⟩ := DiscoveryClient.handle_answer _ now source' hlater.attached hresponse hfits
  rw [run_cons, hask, run_append]
  simp only [run, step, hposition, answer, hclient]
  show Table.get? (SearchManager.resolve _ _ _).2 e.cid = none
  rw [SearchManager.get?_resolve, if_pos hhosted]

end SearchNetwork

open SearchNetwork in
/-- Searches are sound and resolve once, whatever the network does.  A channel is pending exactly
while the history leaves it searched.  Every end of a search is a result of a server that hosts the
channel under this name, and it ends a search that was registered and not given up or ended since;
no search ends twice.  A server that gets a question for a channel it hosts answers to where the
question came from, and once the answer has arrived the channel is no longer pending. -/
theorem searches_resolve_once {ι : Type} (servers : ι → Responder) (names : UInt32 → String)
    {n : SearchNetwork ι} (hn : n.Fresh) {steps : List (SearchStep ι)}
    (hsteps : ∀ s ∈ steps, s.Named names) :
    (∀ cid, ((run servers steps n).2.client.searches.pending.get? cid).map (·.name) =
        searched? cid (run servers steps n).1) ∧
      (∀ (i : Nat) server source result,
        (run servers steps n).1[i]? = some (.found server source result) →
          Credible servers server source result ∧
            ∃ start, Ends (run servers steps n).1 start i result) ∧
      (∀ start stop stop' result result', Ends (run servers steps n).1 start stop result →
        Ends (run servers steps n).1 start stop' result' → stop = stop') ∧
      ∀ before between i position source now source' p e,
        steps = before ++ .ask i position source ::
          (between ++ [.answer now (run servers before n).2.packets.length source']) →
        (run servers before n).2.packets[position]? = some p → p.AsksFor e →
        (servers i).hosts e.name = true →
        (∃ a, (servers i).answers p.datagram.bytes source = [a] ∧ a.target.ip = source.ip) ∧
          (run servers steps n).2.client.searches.pending.get? e.cid = none := by
  have hsound : (run servers steps n).2.Sound servers names ([] ++ (run servers steps n).1) :=
    sound_run hn.sound hsteps
  rw [List.nil_append] at hsound
  refine ⟨hsound.tracks.searched, hsound.tracks.found, fun _ _ _ _ _ => Ends.unique, ?_⟩
  rintro before between i position source now source' p e rfl hp hasks hhosts
  obtain ⟨hbefore, hafter⟩ := List.forall_mem_append.1 hsteps
  have hbetween := (List.forall_mem_append.1 (List.forall_mem_cons.1 hafter).2).1
  rw [run_append]
  exact get?_of_answered (sound_run hn.sound hbefore) hp hasks hhosts hbetween

/-! ### A search from beginning to end -/

/-- A client that has not searched anything yet. -/
def searcher : SearchNetwork Unit where
  client.searches.config := {}
  client.searches.destinations := [⟨⟨.v4 .localhost, 5076⟩, false⟩]
  client.searches.replyTo := .any 5076
  packets := []

/-- A server with a single channel. -/
def channelServer (_ : Unit) : Responder := ⟨⟨1⟩, 5075, fun name => name = "x"⟩

/-- The question that the client asks first. -/
def firstQuestion : SearchRequest := searcher.client.searches.request 1 [⟨7, "x"⟩]

theorem frame?_firstQuestion :
    SearchManager.frame? firstQuestion = some firstQuestion.message.octets :=
  SearchRequest.frame?_of_lt (r := firstQuestion) (by decide) (by decide)

/-- The question as it is sent, not to a single host. -/
def firstPacket : Packet Unit :=
  ⟨none, ⟨⟨.v4 .localhost, 5076⟩, firstQuestion.message.octets.set SearchManager.flagsOffset 0⟩⟩

theorem firstPacket_asks : firstPacket.AsksFor ⟨7, "x"⟩ := by
  have hframe : SearchManager.frame? firstQuestion = some firstPacket.datagram.bytes :=
    SearchRequest.frame?_withUnicast frame?_firstQuestion false
  have hrequests := SearchRequest.requests_frame hframe
  rw [if_pos (show (firstQuestion.octets .big).length ≤ Message.maxDatagram by decide)] at hrequests
  refine ⟨firstQuestion.canonical, ?_, List.mem_singleton_self _⟩
  rw [hrequests]
  exact List.mem_singleton_self _

open SearchNetwork

/-- Registering the channel and sending what is due puts the question on the network. -/
theorem packets_searcher :
    (run channelServer [.register 0 7 "x" false, .tick 0] searcher).2.packets = [firstPacket] := by
  let m : SearchManager := { searcher.client.searches with
    pending := (Table.empty.put 7 ⟨"x", 1, 250000000⟩), sequence := 1 }
  have hsent : (run channelServer [.register 0 7 "x" false, .tick 0] searcher).2.packets =
      (m.outgoing 1 [⟨7, "x"⟩]).map (⟨none, ·⟩) := rfl
  have hdatagrams : m.datagrams 1 [⟨7, "x"⟩] = [firstQuestion.message.octets] := by
    have hgroups : m.groups [⟨7, "x"⟩] = [[⟨7, "x"⟩]] := rfl
    have hrequest : m.request 1 [⟨7, "x"⟩] = firstQuestion := rfl
    rw [SearchManager.datagrams, hgroups, List.filterMap_cons, hrequest, frame?_firstQuestion]
    rfl
  rw [hsent, SearchManager.outgoing, hdatagrams]
  rfl

/-- The channel is searched once it is registered, and no longer when the answer to the question for
it has arrived. -/
theorem searcher_resolves :
    searched? 7 (run channelServer [.register 0 7 "x" false, .tick 0] searcher).1 = some "x" ∧
      (run channelServer [.register 0 7 "x" false, .tick 0, .ask () 0 (.any 5076),
        .answer 0 1 (.any 5076)] searcher).2.client.searches.pending.get? 7 = none := by
  have hfresh : searcher.Fresh := ⟨rfl, rfl, rfl, by decide, rfl⟩
  have hnamed : ∀ s ∈ ([.register 0 7 "x" false, .tick 0, .ask () 0 (.any 5076),
      .answer 0 1 (.any 5076)] : List (SearchStep Unit)), s.Named fun _ => "x" := by
    simp [SearchStep.Named]
  obtain ⟨_, _, _, hresolves⟩ := searches_resolve_once channelServer (fun _ => "x") hfresh hnamed
  have hanswered := hresolves [.register 0 7 "x" false, .tick 0] [] () 0 (.any 5076) 0 (.any 5076)
    firstPacket ⟨7, "x"⟩
  rw [packets_searcher] at hanswered
  exact ⟨rfl, (hanswered rfl rfl firstPacket_asks (by decide)).2⟩

end PvNet
