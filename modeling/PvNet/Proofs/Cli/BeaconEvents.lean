import Mathlib.Data.List.Basic
import PvNet.Cli.Rehearsal
import PvNet.Proofs.Discovery.Announcing
set_option autoImplicit false

/-!
# The events of a beacon watch

Every well-formed beacon is an event: its server appears, changes or says nothing new,
as the beacons before it from the same endpoint have it (`Arrival.events`).  Appearances
and changes are to be printed, or all events if that is asked for, and of these as many
as a limit says (`Arrival.promised`).

What is printed differs from that in two ways (`World.beacons_printed`).  Appearances are
taken for beacons without news.  And the limit stops the watch between datagrams, not
between the messages of one.
-/

namespace PvNet.Cli

/-- A well-formed beacon and the endpoint of its server. -/
structure Arrival where
  beacon : Beacon
  server : Endpoint

namespace Arrival

/-! ## Beacons and what they tell -/

/-- The beacon in a message from `source`. -/
def ofMessage? (source : Endpoint) (m : Message) : Option Arrival :=
  if m.isApplication Command.beacon then
    (m.read Beacon.decode).toOption.map fun b => ⟨b, b.server.resolve source⟩
  else none

/-- The beacons in a datagram; one that is not made of messages has none. -/
def ofDatagram (datagram : Bytes) (source : Endpoint) : List Arrival :=
  ((Message.ofDatagram (datagram.take Message.maxDatagram)).toOption.getD []).filterMap
    (ofMessage? source)

/-- The beacons in some datagrams, each one with its source. -/
def ofDatagrams (datagrams : List (Bytes × Endpoint)) : List Arrival :=
  datagrams.flatMap fun d => ofDatagram d.1 d.2

/-- The last of some beacons that is from a server. -/
def last? (earlier : List Arrival) (server : Endpoint) : Option Arrival :=
  earlier.reverse.find? fun a => a.server = server

/-- What a beacon tells when others have arrived before. -/
def outcomeAfter (earlier : List Arrival) (a : Arrival) : BeaconOutcome :=
  match last? earlier a.server with
  | none => .firstSighting
  | some b =>
    if b.beacon.guid = a.beacon.guid ∧ b.beacon.changeCount = a.beacon.changeCount then .unchanged
    else .changed

def eventAfter (earlier : List Arrival) (a : Arrival) : BeaconEvent :=
  .ofSighting ⟨a.beacon, a.server, outcomeAfter earlier a⟩

/-- The events that beacons are, one after the other, when others have arrived before. -/
def eventsFrom : List Arrival → List Arrival → List BeaconEvent
  | _, [] => []
  | earlier, a :: as => eventAfter earlier a :: eventsFrom (earlier ++ [a]) as

/-- The events that beacons are. -/
def events (as : List Arrival) : List BeaconEvent := eventsFrom [] as

/-- The events to print: those of servers that appear or change, or all of them, up to a limit. -/
def promised (limit : Option Nat) (all : Bool) (as : List Arrival) : List BeaconEvent :=
  let told := (events as).filter fun e => all || e.outcome.isNews
  limit.elim told told.take

/-- The events that are printed when others have arrived before: those of servers that change, or
all of them. -/
def shownFrom (all : Bool) (earlier as : List Arrival) : List BeaconEvent :=
  (eventsFrom earlier as).filter fun e => all || e.outcome.isChange

/-- The events that are printed. -/
def shown (all : Bool) (as : List Arrival) : List BeaconEvent := shownFrom all [] as

theorem last?_concat (earlier : List Arrival) (a : Arrival) (server : Endpoint) :
    last? (earlier ++ [a]) server = if a.server = server then some a else last? earlier server := by
  rw [last?, List.reverse_append, List.reverse_singleton, List.singleton_append, List.find?_cons]
  by_cases h : a.server = server <;> simp [h, last?]

theorem ofMessage?_eq_some {source : Endpoint} {m : Message} {a : Arrival}
    (h : ofMessage? source m = some a) :
    m.isApplication Command.beacon = true ∧ m.read Beacon.decode = .ok a.beacon ∧
      a.server = a.beacon.server.resolve source := by
  simp only [ofMessage?, Option.ite_none_right_eq_some, Option.map_eq_some_iff] at h
  obtain ⟨happ, b, hb, rfl⟩ := h
  refine ⟨happ, ?_, rfl⟩
  cases hread : m.read Beacon.decode with
  | error e =>
    rw [hread] at hb
    cases hb
  | ok b' =>
    rw [hread] at hb
    exact congrArg _ (Option.some.inj hb)

theorem eventsFrom_append (earlier as bs : List Arrival) :
    eventsFrom earlier (as ++ bs) = eventsFrom earlier as ++ eventsFrom (earlier ++ as) bs := by
  induction as generalizing earlier with
  | nil => rw [List.nil_append, List.append_nil, eventsFrom, List.nil_append]
  | cons a as ih =>
    rw [List.cons_append, eventsFrom, eventsFrom, ih, List.cons_append, List.append_assoc,
      List.singleton_append]

theorem length_eventsFrom (earlier as : List Arrival) :
    (eventsFrom earlier as).length = as.length := by
  induction as generalizing earlier with
  | nil => rfl
  | cons a as ih => rw [eventsFrom, List.length_cons, ih, List.length_cons]

theorem shownFrom_append (all : Bool) (earlier as bs : List Arrival) :
    shownFrom all earlier (as ++ bs) =
      shownFrom all earlier as ++ shownFrom all (earlier ++ as) bs := by
  rw [shownFrom, eventsFrom_append, List.filter_append]
  rfl

theorem shown_append (all : Bool) (as bs : List Arrival) :
    shown all (as ++ bs) = shown all as ++ shownFrom all as bs :=
  shownFrom_append all [] as bs

theorem shownFrom_singleton (all : Bool) (earlier : List Arrival) (a : Arrival) :
    shownFrom all earlier [a] =
      if all || (outcomeAfter earlier a).isChange then [eventAfter earlier a] else [] := by
  rw [shownFrom, eventsFrom, eventsFrom, List.filter_singleton, Bool.cond_eq_ite]
  rfl

theorem shown_true (as : List Arrival) : shown true as = events as := by
  simp [shown, shownFrom, events]

theorem ofDatagrams_append (ds es : List (Bytes × Endpoint)) :
    ofDatagrams (ds ++ es) = ofDatagrams ds ++ ofDatagrams es := List.flatMap_append

end Arrival

open Arrival

/-! ## What a watch has seen -/

namespace BeaconWatch

variable {w : BeaconWatch} {p : Printing} {source : Endpoint} {limit : Option Nat} {all : Bool}
  {earlier : List Arrival}

/-- The lines of some events. -/
def report (p : Printing) (events : List BeaconEvent) : List String :=
  events.flatMap fun e => e.lines p.timestamp p.format

theorem report_append (p : Printing) (es fs : List BeaconEvent) :
    report p (es ++ fs) = report p es ++ report p fs := List.flatMap_append

/-- A watch after some beacons: it knows the last one of every server, and it has counted the events
that were printed. -/
structure Saw (limit : Option Nat) (all : Bool) (earlier : List Arrival) (w : BeaconWatch) :
    Prop where
  limit_eq : w.limit = limit
  all_eq : w.all = all
  known : ∀ server, w.tracker.servers.get? server =
    (last? earlier server).map fun a => ⟨a.beacon.guid, a.beacon.changeCount, 0⟩
  printed_eq : w.printed = (shown all earlier).length

theorem saw_start (limit : Option Nat) (all : Bool) : Saw limit all [] { limit, all } :=
  ⟨rfl, rfl, fun _ => rfl, rfl⟩

/-- The tracker tells what the beacons before have it. -/
theorem Saw.outcome_eq (h : w.Saw limit all earlier) (a : Arrival) :
    (w.tracker.notify 0 a.server a.beacon.guid a.beacon.changeCount).1 =
      outcomeAfter earlier a := by
  have hknown := h.known a.server
  unfold outcomeAfter
  cases hlast : last? earlier a.server with
  | none =>
    rw [hlast] at hknown
    exact BeaconTracker.notify_of_none hknown
  | some b =>
    rw [hlast] at hknown
    exact BeaconTracker.notify_of_some hknown

theorem Saw.known_notify (h : w.Saw limit all earlier) (a : Arrival) (server : Endpoint) :
    (w.tracker.notify 0 a.server a.beacon.guid a.beacon.changeCount).2.servers.get? server =
      (last? (earlier ++ [a]) server).map fun a => ⟨a.beacon.guid, a.beacon.changeCount, 0⟩ := by
  rw [BeaconTracker.notify, Table.get?_put, last?_concat, h.known]
  split <;> rfl

/-- A message without a well-formed beacon leaves no trace. -/
theorem seeMessage_of_none {m : Message} (h : ofMessage? source m = none) (w : BeaconWatch)
    (p : Printing) : w.seeMessage p source m = ([], w) := by
  unfold seeMessage
  cases happ : m.isApplication Command.beacon with
  | false => rfl
  | true =>
    cases hread : m.read Beacon.decode with
    | error e => simp [BeaconTracker.handle, hread]
    | ok b => simp [ofMessage?, happ, hread, Except.toOption] at h

/-- A beacon is printed if it is shown, and it is remembered in any case. -/
theorem Saw.seeMessage_of_some {m : Message} {a : Arrival} (hw : w.Saw limit all earlier)
    (h : ofMessage? source m = some a) (p : Printing) :
    (w.seeMessage p source m).1 = report p (shownFrom all earlier [a]) ∧
      (w.seeMessage p source m).2.Saw limit all (earlier ++ [a]) := by
  obtain ⟨happ, hread, hserver⟩ := ofMessage?_eq_some h
  have hhandle : w.tracker.handle 0 m source =
      (some ⟨a.beacon, a.server, outcomeAfter earlier a⟩,
        (w.tracker.notify 0 a.server a.beacon.guid a.beacon.changeCount).2) := by
    simp only [BeaconTracker.handle, hread, ← hserver, hw.outcome_eq a]
  have hknown := hw.known_notify a
  -- the count goes up with the events that are shown
  have hshown := shown_append all earlier [a]
  rw [shownFrom_singleton] at hshown ⊢
  simp only [seeMessage, happ, hhandle, Bool.not_true, Bool.false_eq_true, if_false, shows,
    hw.all_eq]
  split
  case isTrue hshows =>
    rw [if_pos hshows] at hshown
    refine ⟨by simp [report, eventAfter], hw.limit_eq, rfl, hknown, ?_⟩
    rw [hshown, List.length_append, ← hw.printed_eq]
    rfl
  case isFalse hshows =>
    rw [if_neg hshows] at hshown
    refine ⟨rfl, hw.limit_eq, rfl, hknown, ?_⟩
    rw [hshown, List.append_nil, ← hw.printed_eq]

/-- What messages print, one after the other. -/
theorem Saw.seeMessages (hw : w.Saw limit all earlier) (p : Printing) (source : Endpoint)
    (ms : List Message) :
    (BeaconWatch.seeMessages p source ms w).1 =
        report p (shownFrom all earlier (ms.filterMap (ofMessage? source))) ∧
      (BeaconWatch.seeMessages p source ms w).2.Saw limit all
        (earlier ++ ms.filterMap (ofMessage? source)) := by
  induction ms generalizing w earlier with
  | nil => exact ⟨rfl, by simpa [BeaconWatch.seeMessages] using hw⟩
  | cons m ms ih =>
    cases h : ofMessage? source m with
    | none =>
      rw [List.filterMap_cons_none h]
      simpa only [BeaconWatch.seeMessages, seeMessage_of_none h, List.nil_append] using ih hw
    | some a =>
      obtain ⟨hlines, hsaw⟩ := hw.seeMessage_of_some h p
      obtain ⟨hrest, hsaw⟩ := ih hsaw
      rw [List.filterMap_cons_some h, List.append_cons]
      refine ⟨?_, hsaw⟩
      show (w.seeMessage p source m).1 ++
        (BeaconWatch.seeMessages p source ms (w.seeMessage p source m).2).1 = _
      rw [hlines, hrest, ← report_append, ← shownFrom_append, List.singleton_append]

theorem Saw.see (hw : w.Saw limit all earlier) (p : Printing) (datagram : Bytes)
    (source : Endpoint) :
    (w.see p datagram source).1 = report p (shownFrom all earlier (ofDatagram datagram source)) ∧
      (w.see p datagram source).2.Saw limit all (earlier ++ ofDatagram datagram source) :=
  hw.seeMessages p source _

/-- Whether as many events as a limit says have been printed. -/
def Reached (limit : Option Nat) (printed : List BeaconEvent) : Prop :=
  ∃ n, limit = some n ∧ n ≤ printed.length

theorem Saw.isDone_iff (hw : w.Saw limit all earlier) :
    w.isDone = true ↔ Reached limit (shown all earlier) := by
  simp [isDone, hw.limit_eq, hw.printed_eq, Reached, Option.any_eq_true]

/-- A watch takes one datagram after the other until what it has printed reaches the limit. -/
theorem Saw.watch (hw : w.Saw limit all earlier) (p : Printing)
    (datagrams : List (Bytes × Endpoint)) :
    ∃ k ≤ datagrams.length,
      BeaconWatch.watch p datagrams w =
        report p (shownFrom all earlier (ofDatagrams (datagrams.take k))) ∧
      (∀ j < k, ¬ Reached limit (shown all (earlier ++ ofDatagrams (datagrams.take j)))) ∧
      (k = datagrams.length ∨
        Reached limit (shown all (earlier ++ ofDatagrams (datagrams.take k)))) := by
  -- one datagram less to come is one more that has been seen
  induction datagrams generalizing w earlier with
  | nil => exact ⟨0, Nat.le_refl 0, rfl, by simp, .inl rfl⟩
  | cons d ds ih =>
    obtain ⟨datagram, source⟩ := d
    rw [BeaconWatch.watch]
    split
    case isTrue hdone =>
      have hreached := hw.isDone_iff.mp hdone
      rw [← List.append_nil earlier] at hreached
      exact ⟨0, Nat.zero_le _, rfl, by simp, .inr hreached⟩
    case isFalse hdone =>
      obtain ⟨hlines, hsaw⟩ := hw.see p datagram source
      obtain ⟨k, hk, hrest, hbefore, hend⟩ := ih hsaw
      have hcons (j : Nat) : ofDatagrams (((datagram, source) :: ds).take (j + 1)) =
          ofDatagram datagram source ++ ofDatagrams (ds.take j) := by
        rw [List.take_succ_cons, ofDatagrams, List.flatMap_cons]
        rfl
      refine ⟨k + 1, Nat.succ_le_succ hk, ?_, fun j hj => ?_, ?_⟩
      · show (w.see p datagram source).1 ++ BeaconWatch.watch p ds (w.see p datagram source).2 = _
        rw [hlines, hrest, ← report_append, ← shownFrom_append, hcons]
      · cases j with
        | zero => simpa [ofDatagrams] using mt hw.isDone_iff.mpr hdone
        | succ j =>
          rw [hcons, ← List.append_assoc]
          exact hbefore j (Nat.lt_of_succ_lt_succ hj)
      · rw [hcons, ← List.append_assoc]
        exact hend.imp_left (congrArg Nat.succ)

/-! ## What is printed and what was to be printed -/

/-- A watch goes through a number of datagrams: the limit is not reached before, and it is reached
then unless these are all datagrams. -/
structure StopsAt (limit : Option Nat) (all : Bool) (datagrams : List (Bytes × Endpoint))
    (k : Nat) : Prop where
  le_length : k ≤ datagrams.length
  before : ∀ j < k, ¬ Reached limit (shown all (ofDatagrams (datagrams.take j)))
  reached : k = datagrams.length ∨ Reached limit (shown all (ofDatagrams (datagrams.take k)))

/-- If as many beacons arrive as a limit says, the last of them is the last one of a datagram. -/
def BetweenDatagrams (limit : Option Nat) (datagrams : List (Bytes × Endpoint)) : Prop :=
  ∀ n, limit = some n → n ≤ (ofDatagrams datagrams).length →
    ∃ j, (ofDatagrams (datagrams.take j)).length = n

variable {datagrams : List (Bytes × Endpoint)} {k : Nat}

theorem ofDatagrams_take_append (datagrams : List (Bytes × Endpoint)) (k : Nat) :
    ofDatagrams (datagrams.take k) ++ ofDatagrams (datagrams.drop k) = ofDatagrams datagrams := by
  rw [← ofDatagrams_append, List.take_append_drop]

theorem length_ofDatagrams_take_le {j : Nat} (h : j ≤ k) :
    (ofDatagrams (datagrams.take j)).length ≤ (ofDatagrams (datagrams.take k)).length := by
  rw [← ofDatagrams_take_append (datagrams.take k) j, List.take_take, Nat.min_eq_left h,
    List.length_append]
  exact Nat.le_add_right _ _

/-- The events of the first datagrams are the first events. -/
theorem events_ofDatagrams_take (datagrams : List (Bytes × Endpoint)) (k : Nat) :
    events (ofDatagrams (datagrams.take k)) =
      (events (ofDatagrams datagrams)).take (ofDatagrams (datagrams.take k)).length := by
  rw [← ofDatagrams_take_append datagrams k, events, events, eventsFrom_append,
    ← length_eventsFrom [] (ofDatagrams (datagrams.take k)), List.take_left]

/-- The first beacon of all is an appearance, which is to be printed if anything is. -/
theorem exists_firstSighting (all : Bool) {as : List Arrival} (hlimit : limit ≠ some 0)
    (has : as ≠ []) : ∃ e ∈ promised limit all as, e.outcome = .firstSighting := by
  obtain ⟨a, as, rfl⟩ := List.exists_cons_of_ne_nil has
  have hnews : (all || (eventAfter [] a).outcome.isNews) = true :=
    Bool.or_eq_true_iff.mpr (.inr rfl)
  have htold : (events (a :: as)).filter (fun e => all || e.outcome.isNews) =
      eventAfter [] a :: (eventsFrom [a] as).filter fun e => all || e.outcome.isNews := by
    rw [events, eventsFrom, List.filter_cons, if_pos hnews]
    rfl
  refine ⟨eventAfter [] a, ?_, rfl⟩
  rw [promised, htold]
  cases limit with
  | none => exact List.mem_cons_self
  | some n =>
    cases n with
    | zero => exact absurd rfl hlimit
    | succ n => exact List.mem_cons_self

/-- Without being asked for all events, a watch prints what it has to only if that is nothing. -/
theorem shown_false_eq_promised_iff (h : StopsAt limit false datagrams k) :
    shown false (ofDatagrams (datagrams.take k)) = promised limit false (ofDatagrams datagrams) ↔
      limit = some 0 ∨ ofDatagrams datagrams = [] := by
  constructor
  · intro heq
    by_contra hnone
    obtain ⟨hlimit, has⟩ := not_or.mp hnone
    obtain ⟨e, he, hfirst⟩ := exists_firstSighting false hlimit has
    rw [← heq] at he
    have hchange := (List.mem_filter.mp he).2
    rw [hfirst] at hchange
    cases hchange
  · rintro (rfl | hnil)
    · have hzero : k = 0 := by
        refine Nat.eq_zero_of_not_pos fun hpos => ?_
        exact h.before 0 hpos ⟨0, rfl, Nat.zero_le _⟩
      rw [hzero]
      rfl
    · have htake : ofDatagrams (datagrams.take k) = [] :=
        (List.append_eq_nil_iff.mp ((ofDatagrams_take_append datagrams k).trans hnil)).1
      rw [hnil, htake]
      cases limit <;> simp [promised, shown, shownFrom, events, eventsFrom]

theorem length_events (as : List Arrival) : (events as).length = as.length :=
  length_eventsFrom [] as

theorem promised_true (limit : Option Nat) (as : List Arrival) :
    promised limit true as = limit.elim (events as) (events as).take := by
  simp [promised]

theorem reached_true_iff {n : Nat} {as : List Arrival} :
    Reached (some n) (shown true as) ↔ n ≤ as.length := by
  simp [Reached, shown_true, length_events]

/-- If the limit falls between two datagrams, a watch that prints all events stops there. -/
theorem StopsAt.length_eq {n : Nat} (h : StopsAt (some n) true datagrams k)
    (hbetween : BetweenDatagrams (some n) datagrams) (hn : n ≤ (ofDatagrams datagrams).length) :
    (ofDatagrams (datagrams.take k)).length = n := by
  obtain ⟨j, hj⟩ := hbetween n rfl hn
  have hkj : k ≤ j := Nat.not_lt.mp fun hlt =>
    h.before j hlt (reached_true_iff.mpr (Nat.le_of_eq hj.symm))
  refine Nat.le_antisymm (hj ▸ length_ofDatagrams_take_le hkj) ?_
  rcases h.reached with rfl | hreached
  · rwa [List.take_length]
  · exact reached_true_iff.mp hreached

/-- If fewer beacons arrive than the limit says, a watch goes through all datagrams. -/
theorem StopsAt.eq_length {n : Nat} (h : StopsAt (some n) true datagrams k)
    (hn : (ofDatagrams datagrams).length < n) : k = datagrams.length := by
  refine h.reached.resolve_right fun hreached => ?_
  have hle : (ofDatagrams (datagrams.take k)).length ≤
      (ofDatagrams (datagrams.take datagrams.length)).length :=
    length_ofDatagrams_take_le h.le_length
  rw [List.take_length] at hle
  have := reached_true_iff.mp hreached
  omega

/-- Asked for all events, a watch prints what it has to exactly if the limit falls between two
datagrams. -/
theorem shown_true_eq_promised_iff (h : StopsAt limit true datagrams k) :
    shown true (ofDatagrams (datagrams.take k)) = promised limit true (ofDatagrams datagrams) ↔
      BetweenDatagrams limit datagrams := by
  rw [shown_true, promised_true]
  constructor
  · rintro heq n rfl hn
    refine ⟨k, ?_⟩
    rw [← length_events, heq, Option.elim_some, List.length_take, length_events, Nat.min_eq_left hn]
  · intro hbetween
    cases limit with
    | none =>
      have hall : k = datagrams.length := h.reached.resolve_right (by simp [Reached])
      rw [hall, List.take_length]
      rfl
    | some n =>
      rw [Option.elim_some]
      rcases Nat.lt_or_ge (ofDatagrams datagrams).length n with hlt | hle
      · rw [h.eq_length hlt, List.take_length, List.take_of_length_le]
        rw [length_events]
        exact Nat.le_of_lt hlt
      · rw [events_ofDatagrams_take, h.length_eq hbetween hle]

end BeaconWatch

/-- A watch prints the changes in the datagrams up to the one with which the limit is reached, or
all events in them.  This is what it has to print exactly if that is nothing, or if all events are
asked for and the limit falls between two datagrams. -/
theorem World.beacons_printed (w : World) (p : Printing) (config : Config) (limit : Option Nat)
    (all : Bool) (duration : Option Duration) :
    ∃ k, BeaconWatch.StopsAt limit all w.datagrams k ∧
      w.perform p (.beacons config { limit, all } duration) =
        ⟨.success, BeaconWatch.report p (shown all (ofDatagrams (w.datagrams.take k))), none⟩ ∧
      (shown all (ofDatagrams (w.datagrams.take k)) =
          promised limit all (ofDatagrams w.datagrams) ↔
        limit = some 0 ∨ ofDatagrams w.datagrams = [] ∨
          (all = true ∧ BeaconWatch.BetweenDatagrams limit w.datagrams)) := by
  obtain ⟨k, hk, hlines, hbefore, hend⟩ :=
    (BeaconWatch.saw_start limit all).watch p w.datagrams
  have hstop : BeaconWatch.StopsAt limit all w.datagrams k := ⟨hk, hbefore, hend⟩
  refine ⟨k, hstop, ?_, ?_⟩
  · rw [World.perform, hlines]
    rfl
  cases all with
  | false => simpa using BeaconWatch.shown_false_eq_promised_iff hstop
  | true =>
    rw [BeaconWatch.shown_true_eq_promised_iff hstop]
    refine ⟨fun h => .inr (.inr ⟨rfl, h⟩), ?_⟩
    rintro (rfl | hnil | ⟨-, h⟩)
    · rintro n hn -
      exact ⟨0, Option.some.inj hn⟩
    · rintro n - hn
      rw [hnil] at hn
      exact ⟨0, (Nat.eq_zero_of_le_zero hn).symm⟩
    · exact h

/-- A datagram with the beacon of a server. -/
def sampleBeacon (sequence changeCount : UInt8) : Bytes :=
  [0xCA, 2, 0xC0, 0, 0, 0, 0, 42] ++ List.replicate 16 7 ++ [0, sequence, 0, changeCount] ++
    List.replicate 10 0 ++ [0xFF, 0xFF, 0, 0, 0, 0, 0x13, 0xD3, 3, 0x74, 0x63, 0x70]

def sampleWorld (datagrams : List Bytes) : World :=
  World.confined (fun _ => none) [] (datagrams.map fun d => (d, World.localEndpoint 5076))

/-- A server appears and changes.  Asked for one event, a watch leaves the appearance out and prints
the change; asked for one of all events, it prints both if they are in the same datagram. -/
theorem appearance_left_out :
    let guid := "07070707070707070707070707070707"
    let appears := "new server=127.0.0.1:5075 guid=" ++ guid ++ " change_count=0 seq=1"
    let changes := "changed server=127.0.0.1:5075 guid=" ++ guid ++ " change_count=4 seq=3"
    let apart := sampleWorld [sampleBeacon 1 0, sampleBeacon 3 4]
    let together := sampleWorld [sampleBeacon 1 0 ++ sampleBeacon 3 4]
    let p : Printing := ⟨.pretty, ""⟩
    BeaconWatch.report p (promised (some 1) false (ofDatagrams apart.datagrams)) = [appears] ∧
      (apart.perform p (.beacons {} { limit := some 1, all := false } none)).lines = [changes] ∧
      BeaconWatch.report p (promised (some 1) true (ofDatagrams together.datagrams)) = [appears] ∧
      (together.perform p (.beacons {} { limit := some 1, all := true } none)).lines =
        [appears, changes] := by
  decide +kernel

end PvNet.Cli
