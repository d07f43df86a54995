import Mathlib.Data.List.Induction
import PvNet.Discovery.BeaconEmitter
import PvNet.Discovery.Client
import PvNet.Proofs.Discovery.Beacons
import PvNet.Proofs.Discovery.SearchSizes
set_option autoImplicit false

/-!
# Beacons from the server to the client

A server sends beacons and now and then counts a change of its channels.  Whatever the
network makes of the beacons, a client that gets some of them compares each with the one
before: it hears of a change if the changes that were counted before the two differ in
number, as far as the 16 bits of a change count tell (`beacons_report_changes`).

How many beacons were sent is not limited here.  On the wire their numbers start over after
256 of them, but the pause behind a beacon depends on the number itself.
-/

namespace PvNet

namespace BeaconTracker

variable {t : BeaconTracker} {now : Instant} {server : Endpoint} {guid : Guid} {changeCount : UInt16}

theorem notify_of_none (h : t.servers.get? server = none) :
    (t.notify now server guid changeCount).1 = .firstSighting := by
  simp only [notify, h]

theorem notify_of_some {known : ServerState} (h : t.servers.get? server = some known) :
    (t.notify now server guid changeCount).1 =
      if known.guid = guid ∧ known.changeCount = changeCount then .unchanged else .changed := by
  simp only [notify, h]

end BeaconTracker

/-! ## The server -/

/-- What a server does about its beacons. -/
inductive AnnounceStep where
  /-- It sends one to every destination. -/
  | emit
  /-- It counts a change of its channels. -/
  | change
  deriving DecidableEq

/-- A beacon that is sent in the course of some steps, given by the steps in front of it. -/
structure SentBeacon (steps : List AnnounceStep) where
  before : List AnnounceStep
  sent : before ++ [.emit] <+: steps

namespace BeaconEmitter

def run (e : BeaconEmitter) : AnnounceStep → BeaconEmitter
  | .emit => e.emit.2
  | .change => e.countChange

/-- The emitter of a server that has just started. -/
def start (guid : Guid) (server : Endpoint) (destinations : List Endpoint) (period : Duration) :
    BeaconEmitter :=
  { guid, server, destinations, period }

/-- The emitter after some steps. -/
def after (e : BeaconEmitter) (steps : List AnnounceStep) : BeaconEmitter := steps.foldl run e

/-- Everything is counted, as far as the counters go. -/
theorem after_eq (e : BeaconEmitter) (steps : List AnnounceStep) :
    e.after steps =
      { e with
        sequence := e.sequence + UInt8.ofNat (steps.count .emit)
        sent := e.sent + steps.count .emit
        changeCount := e.changeCount + UInt16.ofNat (steps.count .change) } := by
  induction steps using List.reverseRecOn with
  | nil => simp [after]
  | append_singleton steps step ih =>
    rw [after, List.foldl_concat]
    show (e.after steps).run step = _
    rw [ih]
    cases step with
    | emit => simp [run, emit, List.count_append, UInt8.ofNat_add, UInt8.add_assoc, Nat.add_assoc]
    | change =>
      simp [run, countChange, List.count_append, UInt16.ofNat_add, UInt16.add_assoc]

/-! ## The beacon on its way -/

variable (e : BeaconEmitter)

/-- The message of the next beacon. -/
def message : Message := .application Command.beacon .big true (e.beacon.encode .big).bytes

/-- The octets of a beacon are read back, and there are few of them. -/
theorem reads_beacon :
    Beacon.decode.Reads .big () (e.beacon.encode .big).bytes e.beacon.canonical () ∧
      (e.beacon.encode .big).bytes.length = 43 := by
  have hfits : e.beacon.Fits :=
    ⟨show tcpProtocol.utf8ByteSize ≤ Wire.maxSize by decide, fun _ hstatus => nomatch hstatus⟩
  obtain ⟨bs, hencode, hreads⟩ := Beacon.exists_encode .big () hfits
  have hprotocol : (Wire.string .big tcpProtocol).length = 4 := by
    rw [Wire.length_string]
    decide
  refine ⟨by rw [hencode]; exact hreads, ?_⟩
  rw [Beacon.encode_eq]
  show (e.beacon.headOctets .big ++ [nullCode]).length = 43
  simp only [Beacon.headOctets, List.length_append, List.length_cons, List.length_nil,
    Guid.length_octets, Wire.word16, ByteOrder.length_encode, Endpoint.length_encode]
  show _ + ((_ + (_ + (Wire.string .big tcpProtocol).length)) + 1 + 1) + (0 + 1) = 43
  rw [hprotocol]

theorem read_message : e.message.read Beacon.decode = .ok e.beacon.canonical :=
  Message.read_application e.reads_beacon.1

theorem transmissible_message : e.message.Transmissible Message.maxDatagram := by
  have hlength : (e.beacon.encode .big).bytes.length ≤ Message.maxDatagram := by
    rw [e.reads_beacon.2]
    decide
  exact Message.transmissible_application hlength
    (Nat.le_trans hlength Message.maxDatagram_le_maxDeclared)

theorem ofDatagram_datagram : Message.ofDatagram e.datagram = .ok [e.message] := by
  have hdatagram := Message.ofDatagram_octets (List.forall_mem_singleton.2 e.transmissible_message)
  rwa [List.flatMap_singleton] at hdatagram

variable {e}

/-- A server that listens everywhere is taken to be where its beacon comes from. -/
theorem resolve_canonical_server (hwildcard : e.server.ip.isWildcard = true) (source : Endpoint) :
    e.beacon.canonical.server.resolve source = ⟨source.ip, e.server.port⟩ := by
  refine if_pos ?_
  show e.server.ip.canonical.isWildcard = true
  rw [IpAddress.isWildcard_canonical, hwildcard]

/-- The effects of the next beacon on a client. -/
theorem handle_datagram (hwildcard : e.server.ip.isWildcard = true) (c : DiscoveryClient)
    (now : Instant) (source : Endpoint) :
    (c.handle now e.datagram source).1 =
        { sightings := [⟨e.beacon.canonical, ⟨source.ip, e.server.port⟩,
            (c.tracker.notify now ⟨source.ip, e.server.port⟩ e.guid e.changeCount).1⟩],
          handled := 1 } ∧
      (c.handle now e.datagram source).2.tracker =
        (c.tracker.notify now ⟨source.ip, e.server.port⟩ e.guid e.changeCount).2 := by
  have hmessages : Responder.messages e.datagram = [e.message] := by
    rw [Responder.messages, ofDatagram_datagram]
    rfl
  have hresponse : e.message.isApplication Command.searchResponse = false := by
    simp [message, Message.isApplication, Command.searchResponse, Command.beacon]
  have hbeacon : e.message.isApplication Command.beacon = true := Message.isApplication_application
  have htracker : c.tracker.handle now e.message source =
      (some ⟨e.beacon.canonical, ⟨source.ip, e.server.port⟩,
          (c.tracker.notify now ⟨source.ip, e.server.port⟩ e.guid e.changeCount).1⟩,
        (c.tracker.notify now ⟨source.ip, e.server.port⟩ e.guid e.changeCount).2) := by
    simp only [BeaconTracker.handle, read_message, resolve_canonical_server hwildcard]
    rfl
  rw [DiscoveryClient.handle, hmessages, DiscoveryClient.handleMessages,
    DiscoveryClient.handleMessage, hresponse, hbeacon, htracker]
  exact ⟨rfl, rfl⟩

end BeaconEmitter

/-! ## Beacons that are delivered -/

/-- A beacon that reaches a client, with the port that it was sent from. -/
structure BeaconDelivery (steps : List AnnounceStep) extends SentBeacon steps where
  now : Instant
  port : UInt16

section

variable {steps : List AnnounceStep}

namespace SentBeacon

/-- The number of a beacon, from one. -/
def number (b : SentBeacon steps) : Nat := b.before.count .emit + 1

/-- How many changes were counted before it was sent. -/
def changes (b : SentBeacon steps) : Nat := b.before.count .change

/-- The emitter that sends it. -/
def sender (e : BeaconEmitter) (b : SentBeacon steps) : BeaconEmitter := e.after b.before

end SentBeacon

/-- The client after some deliveries from one address, in the order in which they arrive. -/
def DiscoveryClient.hear (e : BeaconEmitter) (ip : IpAddress) (c : DiscoveryClient)
    (deliveries : List (BeaconDelivery steps)) : DiscoveryClient :=
  deliveries.foldl (fun c d => (c.handle d.now (d.sender e).datagram ⟨ip, d.port⟩).2) c

/-- What a beacon says, and when the next one is due. -/
structure Announced (e : BeaconEmitter) (b : SentBeacon steps) : Prop where
  /-- Every destination gets it. -/
  sent : (b.sender e).emit.1 = e.destinations.map fun target => ⟨target, (b.sender e).datagram⟩
  /-- Whoever gets it can read it. -/
  decodes : ∃ m beacon, Message.ofDatagram (b.sender e).datagram = .ok [m] ∧
    m.isApplication Command.beacon = true ∧ m.read Beacon.decode = .ok beacon ∧
    beacon.guid = e.guid ∧ beacon.server = e.server.canonical ∧
    beacon.sequence.toNat = (b.number - 1) % 256 ∧ beacon.changeCount.toNat = b.changes % 65536
  delay : (b.sender e).delayAfter (b.sender e).emit.2.sent =
    if b.number < 10 then (Duration.ofSeconds 1).min e.period else e.period

/-- What a client knows after some deliveries, and what another one tells it. -/
structure Reported (e : BeaconEmitter) (ip : IpAddress) (c : DiscoveryClient)
    (deliveries : List (BeaconDelivery steps)) : Prop where
  /-- It remembers the beacon that was delivered last. -/
  known : (c.hear e ip deliveries).tracker.servers.get? ⟨ip, e.server.port⟩ =
    deliveries.getLast?.map fun last => ⟨e.guid, UInt16.ofNat last.changes, last.now⟩
  others : ∀ other, other ≠ ⟨ip, e.server.port⟩ →
    (c.hear e ip deliveries).tracker.servers.get? other = c.tracker.servers.get? other
  /-- The next beacon is the first one, or it is compared with the last one. -/
  next : ∀ d : BeaconDelivery steps, ∃ beacon outcome,
    ((c.hear e ip deliveries).handle d.now (d.sender e).datagram ⟨ip, d.port⟩).1 =
      { sightings := [⟨beacon, ⟨ip, e.server.port⟩, outcome⟩], handled := 1 } ∧
    (deliveries = [] → outcome = .firstSighting) ∧
    ∀ last, deliveries.getLast? = some last → outcome =
      if last.changes % 65536 = d.changes % 65536 then .unchanged else .changed

end

section

variable {steps : List AnnounceStep} (guid : Guid) (server : Endpoint)
  (destinations : List Endpoint) (period : Duration)

theorem sender_start (b : SentBeacon steps) :
    b.sender (.start guid server destinations period) =
      { guid, server, destinations, period
        sequence := UInt8.ofNat (b.before.count .emit)
        sent := b.before.count .emit
        changeCount := UInt16.ofNat b.changes } := by
  rw [SentBeacon.sender, BeaconEmitter.after_eq]
  simp [BeaconEmitter.start, SentBeacon.changes]

theorem announced_start (b : SentBeacon steps) :
    Announced (.start guid server destinations period) b := by
  refine ⟨?_, ⟨_, _, BeaconEmitter.ofDatagram_datagram _, Message.isApplication_application,
    BeaconEmitter.read_message _, ?_, ?_, ?_, ?_⟩, ?_⟩
  · rw [sender_start]
    rfl
  · rw [sender_start]
    rfl
  · rw [sender_start]
    rfl
  · rw [sender_start]
    exact UInt8.toNat_ofNat' ..
  · rw [sender_start]
    exact UInt16.toNat_ofNat' ..
  · rw [sender_start]
    rfl

/-- What a client is told by a beacon, and what it remembers. -/
theorem handle_sender (hwildcard : server.ip.isWildcard = true) (c : DiscoveryClient)
    (now : Instant) (source : Endpoint) (b : SentBeacon steps) :
    ∃ beacon,
      (c.handle now (b.sender (.start guid server destinations period)).datagram source).1 =
        { sightings := [⟨beacon, ⟨source.ip, server.port⟩,
            (c.tracker.notify now ⟨source.ip, server.port⟩ guid (UInt16.ofNat b.changes)).1⟩],
          handled := 1 } ∧
      (c.handle now (b.sender (.start guid server destinations period)).datagram source).2.tracker =
        (c.tracker.notify now ⟨source.ip, server.port⟩ guid (UInt16.ofNat b.changes)).2 := by
  rw [sender_start]
  exact ⟨_, BeaconEmitter.handle_datagram hwildcard c now source⟩

theorem ofNat_eq_ofNat_iff (m n : Nat) :
    UInt16.ofNat m = UInt16.ofNat n ↔ m % 65536 = n % 65536 := by
  rw [← UInt16.toNat_inj, UInt16.toNat_ofNat', UInt16.toNat_ofNat']

theorem known_hear (hwildcard : server.ip.isWildcard = true) (ip : IpAddress) (c : DiscoveryClient)
    (hunknown : c.tracker.servers.get? ⟨ip, server.port⟩ = none)
    (deliveries : List (BeaconDelivery steps)) (place : Endpoint) :
    (c.hear (.start guid server destinations period) ip deliveries).tracker.servers.get? place =
      if place = ⟨ip, server.port⟩ then
        deliveries.getLast?.map fun last => ⟨guid, UInt16.ofNat last.changes, last.now⟩
      else c.tracker.servers.get? place := by
  induction deliveries using List.reverseRecOn with
  | nil =>
    by_cases hplace : place = ⟨ip, server.port⟩
    · rw [if_pos hplace, hplace]
      exact hunknown
    · rw [if_neg hplace]
      rfl
  | append_singleton deliveries d ih =>
    rw [DiscoveryClient.hear, List.foldl_concat]
    obtain ⟨beacon, -, htracker⟩ := handle_sender guid server destinations period hwildcard
      (c.hear (.start guid server destinations period) ip deliveries) d.now ⟨ip, d.port⟩ d.toSentBeacon
    show (DiscoveryClient.handle (c.hear _ ip deliveries) _ _ _).2.tracker.servers.get? place = _
    rw [htracker, List.getLast?_concat]
    show (Table.put _ _ _).get? place = _
    rw [Table.get?_put, ih]
    by_cases hplace : place = ⟨ip, server.port⟩
    · rw [if_pos hplace.symm, if_pos hplace]
      rfl
    · rw [if_neg hplace, if_neg hplace, if_neg (Ne.symm hplace)]

theorem reported_start (hwildcard : server.ip.isWildcard = true) (ip : IpAddress)
    (c : DiscoveryClient) (hunknown : c.tracker.servers.get? ⟨ip, server.port⟩ = none)
    (deliveries : List (BeaconDelivery steps)) :
    Reported (.start guid server destinations period) ip c deliveries := by
  have hknown := known_hear guid server destinations period hwildcard ip c hunknown deliveries
  have hplace := hknown ⟨ip, server.port⟩
  rw [if_pos rfl] at hplace
  refine ⟨hplace, fun other hother => (hknown other).trans (if_neg hother), fun d => ?_⟩
  obtain ⟨beacon, heffects, -⟩ := handle_sender guid server destinations period hwildcard
    (c.hear (.start guid server destinations period) ip deliveries) d.now ⟨ip, d.port⟩ d.toSentBeacon
  refine ⟨beacon, _, heffects, ?_, ?_⟩
  · rintro rfl
    exact BeaconTracker.notify_of_none hplace
  · intro last hlast
    rw [hlast] at hplace
    rw [BeaconTracker.notify_of_some hplace]
    simp only [true_and, ofNat_eq_ofNat_iff]

/-- A server that listens everywhere numbers its beacons and slows down after the first ones.  A
client that gets any of them from one address, in any order, places the server there, and each of
them tells it whether changes were counted between the sending of this one and of the one before.
Where the count of beacons has 64 bits, this is about the first `2 ^ 64 - 1` of them. -/
theorem beacons_report_changes (hwildcard : server.ip.isWildcard = true)
    (steps : List AnnounceStep) :
    (∀ b : SentBeacon steps, Announced (.start guid server destinations period) b) ∧
      ∀ (ip : IpAddress) (c : DiscoveryClient), c.tracker.servers.get? ⟨ip, server.port⟩ = none →
        ∀ deliveries : List (BeaconDelivery steps),
          Reported (.start guid server destinations period) ip c deliveries :=
  ⟨announced_start guid server destinations period,
    reported_start guid server destinations period hwildcard⟩

/-- A client that gets the second of two beacons first. -/
theorem beacons_report_changes_reordered :
    (Endpoint.any 5075).ip.isWildcard = true ∧
      (({} : BeaconTracker).servers.get? (.any 5075) = none) ∧
      @Reported [.emit, .change, .emit]
        (.start ⟨7⟩ (.any 5075) [.any 5076] (.ofSeconds 15)) .any
        { searches := { config := {}, destinations := [], replyTo := .any 0 } }
        [⟨⟨[.emit, .change], by decide⟩, 0, 40000⟩, ⟨⟨[], by decide⟩, 1, 40000⟩] :=
  ⟨by decide, rfl, (beacons_report_changes ⟨7⟩ (.any 5075) [.any 5076] (.ofSeconds 15) (by decide)
    [.emit, .change, .emit]).2 .any _ rfl _⟩

end

end PvNet
