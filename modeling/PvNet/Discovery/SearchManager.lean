import PvNet.Config
import PvNet.Discovery.Search
import PvNet.Message.Command
import PvNet.Net.Datagram
import PvNet.PeriodicTask
import PvNet.Table
set_option autoImplicit false

/-!
# Searching channels

A registered search is sent again and again, at growing intervals, until a server
answers or the search is unregistered.  Every tick sends all searches that are due
in as few datagrams as their limit allows.

The clock has an end (`Instant.after?`).  A call that would schedule a search for later
gives up: nothing is registered, or nothing is sent.
-/

namespace PvNet

/-- Where searches are sent. -/
structure SearchDestination where
  address : Endpoint
  /-- Whether this is a single host, which then relays the search. -/
  unicast : Bool
  deriving DecidableEq, Repr

/-- A channel that is being searched. -/
structure PendingSearch where
  name : String
  /-- How often the search was sent, or what a penalty started from. -/
  retries : Nat
  /-- When the search is sent next. -/
  deadline : Instant
  deriving DecidableEq, Repr

/-- Where a channel was found. -/
structure SearchResult where
  cid : UInt32
  name : String
  guid : Guid
  server : Endpoint
  minorRevision : UInt8
  sequence : UInt32
  deriving DecidableEq, Repr

/-- The searches of a client. -/
structure SearchManager where
  config : SearchConfig
  destinations : List SearchDestination
  /-- Where servers answer to. -/
  replyTo : Endpoint
  /-- The registered searches by channel number. -/
  pending : Table UInt32 PendingSearch := .empty
  /-- The number of the last search that was sent. -/
  sequence : UInt32 := 0
  canceled : Bool := false

/-- What a tick says about the next one. -/
inductive TickOutcome where
  /-- The next search is due after some time. -/
  | waits (delay : Duration)
  /-- The searches were canceled. -/
  | canceled
  /-- A search would be due later than the clock can tell, so the tick was given up. -/
  | failed
  deriving DecidableEq, Repr

/-- The most retries that are counted. -/
def SearchConfig.maxRetries : Nat := 4294967295

/-- A search with one more send counted. -/
def PendingSearch.counted (p : PendingSearch) : PendingSearch :=
  { p with retries := min (p.retries + 1) SearchConfig.maxRetries }

namespace SearchConfig

/-- The delay before the next send after a number of retries: none before the first send; then the
base period, which doubles with every retry up to the longest period. -/
def backoff (c : SearchConfig) (retries : Nat) : Duration :=
  if retries = 0 then .zero
  else
    let factor := if retries - 1 < 32 then 1 <<< (retries - 1) else 4294967295
    ((c.basePeriod.times? factor).getD c.maxPeriod).min c.maxPeriod

/-- Puts off a search that is due.  The send is counted even if this fails, which is when the clock
cannot tell the next deadline. -/
def putOff (c : SearchConfig) (now : Instant) (p : PendingSearch) : PendingSearch × Bool :=
  if p.deadline ≤ now then
    match now.after? (c.backoff p.counted.retries) with
    | some deadline => ({ p.counted with deadline }, true)
    | none => (p.counted, false)
  else (p, true)

end SearchConfig

namespace SearchManager

/-- A request for some channels. -/
def request (m : SearchManager) (sequence : UInt32) (channels : List SearchEntry) : SearchRequest :=
  { sequence, unicast := false, replyTo := m.replyTo, protocols := [tcpProtocol], channels }

/-- Splits entries into groups of which each has at most `budget` octets, or a single entry; the
group that has begun is given latest entry first, with its size. -/
def groupsFrom (budget headSize : Nat) :
    List SearchEntry → Nat → List SearchEntry → List (List SearchEntry)
  | group, _, [] => if group.isEmpty then [] else [group.reverse]
  | group, size, e :: es =>
    if !group.isEmpty ∧ budget < size + e.wireSize then
      group.reverse :: groupsFrom budget headSize [e] (headSize + e.wireSize) es
    else groupsFrom budget headSize (e :: group) (size + e.wireSize) es

/-- Splits entries into the groups that travel together. -/
def groups (m : SearchManager) (entries : List SearchEntry) : List (List SearchEntry) :=
  let headSize := (m.request 0 []).headSize
  groupsFrom (m.config.maxDatagram - Header.wireSize) headSize [] headSize entries

/-- The datagram of a request, unless the request cannot be written. -/
def frame? (r : SearchRequest) : Option Bytes :=
  match (r.encode .big).toExcept with
  | .ok payload => (Message.application Command.search .big false payload).encode.toOption
  | .error _ => none

/-- The datagrams that carry entries, each within the limit unless it carries a single entry. -/
def datagrams (m : SearchManager) (sequence : UInt32) (entries : List SearchEntry) : List Bytes :=
  (m.groups entries).filterMap fun group => frame? (m.request sequence group)

/-- Where the octet with the unicast flag stands in a datagram. -/
def flagsOffset : Nat := Header.wireSize + 4

/-- The datagrams to send for some entries: each one to every destination. -/
def outgoing (m : SearchManager) (sequence : UInt32) (entries : List SearchEntry) : List Outgoing :=
  (m.datagrams sequence entries).flatMap fun datagram =>
    m.destinations.map fun destination =>
      let flags := if destination.unicast then SearchRequest.unicastFlag else 0
      ⟨destination.address, datagram.set flagsOffset flags⟩

/-- Registers a search.  A penalized one waits before it is first sent.  Fails if it would wait for
longer than the clock can tell. -/
def register? (m : SearchManager) (now : Instant) (cid : UInt32) (name : String) (penalize : Bool) :
    Option SearchManager :=
  let retries := if penalize then m.config.penalty else 0
  (now.after? (m.config.backoff retries)).map fun deadline =>
    if m.canceled then m else { m with pending := m.pending.put cid ⟨name, retries, deadline⟩ }

/-- Ends a search; says whether there was one. -/
def unregister (m : SearchManager) (cid : UInt32) : Bool × SearchManager :=
  ((m.pending.get? cid).isSome, { m with pending := m.pending.erase cid })

def due (m : SearchManager) (now : Instant) : List SearchEntry :=
  m.pending.entries.filterMap fun (cid, p) =>
    if p.deadline ≤ now then some ⟨cid, p.name⟩ else none

/-- The time until the next search is due, or the longest period if there is none. -/
def untilNext (m : SearchManager) (now : Instant) : Duration :=
  match (m.pending.values.map fun p => p.deadline - now).min? with
  | some delay => ⟨delay⟩
  | none => m.config.maxPeriod

/-- Sends every search that is due.  Returns the time until the next one, unless the manager is
canceled, and what to send.  The searches are put off one after the other before anything is sent,
so nothing is if that fails for one of them. -/
def tick (m : SearchManager) (now : Instant) : TickOutcome × List Outgoing × SearchManager :=
  if m.canceled then (.canceled, [], m)
  else
    let entries := m.due now
    match m.pending.changeValues fun _ => m.config.putOff now with
    | (pending, true) =>
      let sequence := if entries.isEmpty then m.sequence else m.sequence + 1
      let m := { m with pending, sequence }
      (.waits (m.untilNext now), m.outgoing sequence entries, m)
    | (pending, false) => (.failed, [], { m with pending })

/-- Takes the channels of a response out of the searches, one after the other. -/
def resolve (found : UInt32 → String → SearchResult) :
    List UInt32 → Table UInt32 PendingSearch → List SearchResult × Table UInt32 PendingSearch
  | [], pending => ([], pending)
  | cid :: cids, pending =>
    match pending.get? cid with
    | some p =>
      let (results, pending) := resolve found cids (pending.erase cid)
      (found cid p.name :: results, pending)
    | none => resolve found cids pending

/-- Ends the searches that a response from `source` answers.  Returns what was found. -/
def respond (m : SearchManager) (r : SearchResponse) (source : Endpoint) (minorRevision : UInt8) :
    List SearchResult × SearchManager :=
  if !r.found ∨ r.protocol ≠ tcpProtocol then ([], m)
  else
    let found (cid : UInt32) (name : String) : SearchResult :=
      { cid, name, guid := r.guid, server := r.server.resolve source, minorRevision,
        sequence := r.sequence }
    let (results, pending) := resolve found r.cids m.pending
    (results, { m with pending })

/-- A new server was detected: every search is due at once and starts anew. -/
def boost (m : SearchManager) (now : Instant) : SearchManager :=
  { m with pending := m.pending.mapValues fun _ p => { p with retries := 0, deadline := now } }

/-- Ends all searches for good. -/
def cancel (m : SearchManager) : SearchManager :=
  if m.canceled then m else { m with canceled := true, pending := .empty }

end SearchManager

end PvNet
