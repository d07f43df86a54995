import PvNet.Proofs.Connection.Registration
import PvNet.Proofs.Discovery.Batches
import PvNet.Proofs.History
set_option autoImplicit false

/-!
# When searches are sent

A client registers and unregisters searches, hears of answers and of new servers, lets time
pass and in the end gives everything up.  Whatever the order and the times, a channel is
pending if it was registered and nothing has ended its search since (`SearchedAfter`).  A
tick sends those that are due, each once, and puts off nothing else; no deadline passes
before the tick that it asks for (`Ticked`).

All this ends where the clock does.  A search is not registered if its first deadline would be
later than the clock can tell (`SearchConfig.accepts`).  A tick at which this is so of the next
deadline of a search that is due (`SearchManager.InTime`) sends nothing, and leaves that search
due (`Stopped`).

`searches_scheduled` is about all that may happen: `Affects` says what one action does to a
channel, and `Reflects.concat` carries it over.
-/

namespace PvNet

/-! ## Delays that the clock can tell -/

namespace Duration

instance : Preorder Duration where
  toLE := inferInstance
  le_refl d := Nat.le_refl d.nanoseconds
  le_trans _ _ _ := Nat.le_trans

theorem min_le_right (a b : Duration) : a.min b ≤ b := by
  unfold min
  split
  · assumption
  · exact le_refl b

end Duration

theorem Instant.isSome_after?_of_le {now : Instant} {d longer : Duration} (h : d ≤ longer)
    (hlonger : (now.after? longer).isSome = true) : (now.after? d).isSome = true := by
  unfold Instant.after? at hlonger ⊢
  split at hlonger
  · rename_i hlimit
    rw [if_pos (Nat.lt_of_le_of_lt (Nat.add_le_add_left h now) hlimit)]
    rfl
  · cases hlonger

theorem SearchConfig.backoff_le_maxPeriod (c : SearchConfig) (r : Nat) :
    c.backoff r ≤ c.maxPeriod := by
  cases r with
  | zero => exact Nat.zero_le _
  | succ r => exact Duration.min_le_right _ _

/-! ## What happens to searches -/

/-- What a client does with its searches, and what it hears about them. -/
inductive SearchAction where
  | register (now : Instant) (cid : UInt32) (name : String) (penalize : Bool)
  /-- A channel that is searched goes by another name from now on. -/
  | rename (cid : UInt32) (name : String)
  | unregister (cid : UInt32)
  | respond (r : SearchResponse) (source : Endpoint) (minorRevision : UInt8)
  /-- A new server makes every search due. -/
  | boost (now : Instant)
  | cancel
  | tick (now : Instant)

/-- Gives a channel that is searched another name. -/
def SearchManager.rename (m : SearchManager) (cid : UInt32) (name : String) : SearchManager :=
  { m with pending := m.pending.mapValues fun cid' p => if cid' = cid then { p with name } else p }

/-- Whether the clock can tell when a search that is registered now is first due. -/
def SearchConfig.accepts (c : SearchConfig) (now : Instant) (penalize : Bool) : Bool :=
  (now.after? (c.backoff (if penalize then c.penalty else 0))).isSome

/-- A search that was sent is due again after the delay for its number of retries. -/
def SearchConfig.afterSend (c : SearchConfig) (now : Instant) (p : PendingSearch) : PendingSearch :=
  { p.counted with deadline := now + (c.backoff p.counted.retries).nanoseconds }

namespace SearchAction

def run (m : SearchManager) : SearchAction → SearchManager
  | register now cid name penalize => (m.register? now cid name penalize).getD m
  | rename cid name => m.rename cid name
  | unregister cid => (m.unregister cid).2
  | respond r source minorRevision => (m.respond r source minorRevision).2
  | boost now => m.boost now
  | cancel => m.cancel
  | tick now => (m.tick now).2.2

def runAll (m : SearchManager) (actions : List SearchAction) : SearchManager := actions.foldl run m

/-- The search for a channel starts, or starts anew. -/
def Starts (c : SearchConfig) (cid : UInt32) : SearchAction → Prop
  | register now cid' _ penalize => cid' = cid ∧ c.accepts now penalize = true
  | _ => False

/-- The search for a channel ends: it is unregistered, or a server that can be connected to has the
channel. -/
def Ends (cid : UInt32) : SearchAction → Prop
  | unregister cid' => cid' = cid
  | respond r _ _ => (r.found = true ∧ r.protocol = tcpProtocol) ∧ cid ∈ r.cids
  | _ => False

/-- The name that a channel is given. -/
def named? (c : SearchConfig) (cid : UInt32) : SearchAction → Option String
  | register now cid' name penalize =>
    if cid' = cid ∧ c.accepts now penalize = true then some name else none
  | rename cid' name => if cid' = cid then some name else none
  | _ => none

end SearchAction

/-- A channel was registered before everything was given up, and its search has not ended since. -/
def SearchedAfter (c : SearchConfig) (actions : List SearchAction) (cid : UInt32) : Prop :=
  .cancel ∉ actions ∧ StandsIn actions (·.Starts c cid) (¬ ·.Ends cid)

/-- The latest name of a channel. -/
def lastName? (c : SearchConfig) (actions : List SearchAction) (cid : UInt32) : Option String :=
  (actions.filterMap (·.named? c cid)).getLast?

section

variable {c : SearchConfig} {actions : List SearchAction} {action : SearchAction} {cid : UInt32}

theorem searchedAfter_concat (hcancel : .cancel ∉ actions) (haction : action ≠ .cancel) :
    SearchedAfter c (actions ++ [action]) cid ↔
      action.Starts c cid ∨ (SearchedAfter c actions cid ∧ ¬ action.Ends cid) := by
  have hcancel' : .cancel ∉ actions ++ [action] := by
    rw [List.mem_append, List.mem_singleton]
    exact not_or.2 ⟨hcancel, Ne.symm haction⟩
  rw [SearchedAfter, and_iff_right hcancel', standsIn_concat, SearchedAfter, and_iff_right hcancel]

theorem lastName?_concat :
    lastName? c (actions ++ [action]) cid =
      (action.named? c cid).or (lastName? c actions cid) := by
  rw [lastName?, List.filterMap_append, List.getLast?_append]
  cases hname : action.named? c cid with
  | none => simp [hname, lastName?]
  | some name => simp [hname]

end

/-! ## What an action does to a channel -/

namespace SearchManager

variable {m : SearchManager} {cid : UInt32}

/-- What an action does to the search for a channel: it starts, it ends, or it goes on, perhaps
under a new name. -/
inductive Affects (c : SearchConfig) (action : SearchAction) (cid : UInt32)
    (before : Option PendingSearch) : Option PendingSearch → Prop where
  | starts (p : PendingSearch) (hstarts : action.Starts c cid)
    (hname : action.named? c cid = some p.name) : Affects c action cid before (some p)
  | ends (hstarts : ¬ action.Starts c cid) (hends : action.Ends cid) :
    Affects c action cid before none
  | goesOn (after : Option PendingSearch) (hstarts : ¬ action.Starts c cid)
    (hends : ¬ action.Ends cid)
    (hname : after.map (·.name) = before.map fun p => (action.named? c cid).getD p.name) :
    Affects c action cid before after

section

variable {c : SearchConfig} {action : SearchAction} {before after : Option PendingSearch}

theorem Affects.of_names (hstarts : ¬ action.Starts c cid) (hends : ¬ action.Ends cid)
    (hnamed : action.named? c cid = none)
    (hnames : after.map (·.name) = before.map (·.name)) : Affects c action cid before after := by
  refine .goesOn after hstarts hends ?_
  rw [hnames, hnamed]
  rfl

theorem Affects.exists_iff (h : Affects c action cid before after) :
    (∃ p, after = some p) ↔
      action.Starts c cid ∨ ((∃ p, before = some p) ∧ ¬ action.Ends cid) := by
  cases h with
  | starts p hstarts hname => exact iff_of_true ⟨p, rfl⟩ (.inl hstarts)
  | ends hstarts hends =>
    refine iff_of_false (fun ⟨p, hsome⟩ => (nomatch hsome)) ?_
    exact not_or.2 ⟨hstarts, fun hgone => hgone.2 hends⟩
  | goesOn after hstarts hends hname =>
    rw [or_iff_right hstarts, and_iff_left hends, ← Option.isSome_iff_exists,
      ← Option.isSome_iff_exists]
    have hsome := congrArg Option.isSome hname
    rw [Option.isSome_map, Option.isSome_map] at hsome
    rw [hsome]

theorem Affects.name_eq {p : PendingSearch} (h : Affects c action cid before (some p))
    {last : Option String} (hlast : ∀ q, before = some q → last = some q.name) :
    (action.named? c cid).or last = some p.name := by
  generalize hafter : some p = after at h
  cases h with
  | starts p' hstarts hname =>
    cases hafter
    rw [hname]
    rfl
  | ends hstarts hends => cases hafter
  | goesOn after hstarts hends hname =>
    rw [← hafter, Option.map_some] at hname
    obtain ⟨q, hq, hsame⟩ := Option.map_eq_some_iff.1 hname.symm
    rw [hlast q hq, ← hsame]
    cases action.named? c cid with
    | none => rfl
    | some name => rfl

end

theorem respond_snd (r : SearchResponse) (source : Endpoint) (minorRevision : UInt8) :
    ∃ found, (m.respond r source minorRevision).2 =
      { m with pending :=
          if r.found = true ∧ r.protocol = tcpProtocol then (resolve found r.cids m.pending).2
          else m.pending } := by
  refine ⟨fun cid name =>
    ⟨cid, name, r.guid, r.server.resolve source, minorRevision, r.sequence⟩, ?_⟩
  by_cases hanswer : r.found = true ∧ r.protocol = tcpProtocol
  · obtain ⟨hfound, hprotocol⟩ := hanswer
    rw [respond, if_neg (by simp [hfound, hprotocol]), if_pos ⟨hfound, hprotocol⟩]
  · have hother : (!r.found) = true ∨ r.protocol ≠ tcpProtocol := by
      rw [Bool.not_eq_true', ← Bool.not_eq_true]
      exact not_and_or.1 hanswer
    rw [respond, if_pos hother, if_neg hanswer]

theorem isSome_register? (m : SearchManager) (now : Instant) (cid : UInt32) (name : String)
    (penalize : Bool) :
    (m.register? now cid name penalize).isSome = m.config.accepts now penalize :=
  Option.isSome_map

/-- What registering a search does while nothing was given up. -/
theorem run_register_cases (hopen : m.canceled = false) (now : Instant) (cid : UInt32)
    (name : String) (penalize : Bool) :
    (m.config.accepts now penalize = false ∧
      SearchAction.run m (.register now cid name penalize) = m) ∨
    (m.config.accepts now penalize = true ∧ ∃ p : PendingSearch, p.name = name ∧
      SearchAction.run m (.register now cid name penalize) =
        { m with pending := m.pending.put cid p }) := by
  rw [← isSome_register? m now cid name penalize, SearchAction.run]
  rcases register?_cases hopen now cid name penalize with hnone | ⟨p, hname, hsome⟩
  · rw [hnone]
    exact .inl ⟨rfl, rfl⟩
  · rw [hsome]
    exact .inr ⟨rfl, p, hname, rfl⟩

theorem run_tick (hopen : m.canceled = false) (now : Instant) :
    ∃ sequence, SearchAction.run m (.tick now) = m.ticked now sequence := by
  obtain ⟨outcome, sequence, entries, -, htick⟩ := exists_tick hopen now
  exact ⟨sequence, congrArg (·.2.2) htick⟩

theorem affects_run (hopen : m.canceled = false) {action : SearchAction} (haction : action ≠ .cancel)
    (cid : UInt32) :
    Affects m.config action cid (m.pending.get? cid) ((action.run m).pending.get? cid) := by
  cases action with
  | register now cid' name penalize =>
    rcases run_register_cases hopen now cid' name penalize with
      ⟨hrefused, hrun⟩ | ⟨haccepted, p, hname, hrun⟩
    · rw [hrun]
      have hstarts : ¬ (cid' = cid ∧ m.config.accepts now penalize = true) := fun h =>
        Bool.false_ne_true (hrefused.symm.trans h.2)
      exact .of_names hstarts not_false (if_neg hstarts) rfl
    rw [hrun]
    show Affects _ _ cid _ ((m.pending.put cid' p).get? cid)
    rw [Table.get?_put]
    by_cases hcid : cid' = cid
    · rw [if_pos hcid]
      refine .starts p ⟨hcid, haccepted⟩ ?_
      rw [SearchAction.named?, if_pos ⟨hcid, haccepted⟩, hname]
    · rw [if_neg hcid]
      exact .of_names (fun h => hcid h.1) not_false (if_neg fun h => hcid h.1) rfl
  | rename cid' name =>
    show Affects _ _ cid _ ((m.rename cid' name).pending.get? cid)
    rw [rename, Table.get?_mapValues]
    refine .goesOn _ not_false not_false ?_
    rw [Option.map_map]
    refine congrArg (fun f => (m.pending.get? cid).map f) (funext fun p => ?_)
    show (if cid = cid' then { p with name } else p).name =
      (if cid' = cid then some name else none).getD p.name
    by_cases hcid : cid' = cid
    · rw [if_pos hcid, if_pos hcid.symm]
      rfl
    · rw [if_neg hcid, if_neg (Ne.symm hcid)]
      rfl
  | unregister cid' =>
    show Affects _ _ cid _ ((m.pending.erase cid').get? cid)
    rw [Table.get?_erase]
    by_cases hcid : cid' = cid
    · rw [if_pos hcid]
      exact .ends not_false hcid
    · rw [if_neg hcid]
      exact .of_names not_false hcid rfl rfl
  | respond r source minorRevision =>
    obtain ⟨found, hrespond⟩ := m.respond_snd r source minorRevision
    show Affects _ _ cid _ ((m.respond r source minorRevision).2.pending.get? cid)
    rw [hrespond]
    by_cases hanswer : r.found = true ∧ r.protocol = tcpProtocol
    · rw [if_pos hanswer, get?_resolve]
      by_cases hcid : cid ∈ r.cids
      · rw [if_pos hcid]
        exact .ends not_false ⟨hanswer, hcid⟩
      · rw [if_neg hcid]
        exact .of_names not_false (fun hends => hcid hends.2) rfl rfl
    · rw [if_neg hanswer]
      exact .of_names not_false (fun hends => hanswer hends.1) rfl rfl
  | boost now =>
    show Affects _ _ cid _ ((m.boost now).pending.get? cid)
    rw [boost, Table.get?_mapValues]
    refine .of_names not_false not_false rfl ?_
    rw [Option.map_map]
    rfl
  | cancel => exact absurd rfl haction
  | tick now =>
    obtain ⟨sequence, hrun⟩ := run_tick hopen now
    rw [hrun]
    refine .of_names not_false not_false rfl ?_
    exact Table.map_get?_changeValues (fun _ => name_putOff m.config now) cid

/-- The settings and whether the manager is canceled. -/
theorem run_of_ne_cancel {action : SearchAction} (haction : action ≠ .cancel) :
    ∃ pending sequence, action.run m = { m with pending, sequence } := by
  cases action with
  | register now cid name penalize =>
    rw [SearchAction.run, register?]
    cases now.after? (m.config.backoff (if penalize then m.config.penalty else 0)) with
    | none => exact ⟨_, _, rfl⟩
    | some deadline =>
      rw [Option.map_some, Option.getD_some]
      split
      · exact ⟨_, _, rfl⟩
      · exact ⟨_, _, rfl⟩
  | rename cid name => exact ⟨_, _, rfl⟩
  | unregister cid => exact ⟨_, _, rfl⟩
  | respond r source minorRevision =>
    obtain ⟨found, hrespond⟩ := m.respond_snd r source minorRevision
    exact ⟨_, _, hrespond⟩
  | boost now => exact ⟨_, _, rfl⟩
  | cancel => exact absurd rfl haction
  | tick now =>
    cases hcanceled : m.canceled with
    | true =>
      rw [SearchAction.run, tick, if_pos hcanceled]
      exact ⟨_, _, by rw [← hcanceled]⟩
    | false =>
      obtain ⟨sequence, hrun⟩ := run_tick hcanceled now
      rw [hrun]
      exact ⟨_, _, by rw [← hcanceled]; rfl⟩

theorem canceled_run (action : SearchAction) (haction : action ≠ .cancel) :
    (action.run m).canceled = m.canceled := by
  obtain ⟨pending, sequence, hrun⟩ := run_of_ne_cancel (m := m) haction
  rw [hrun]

theorem resolve_empty (found : UInt32 → String → SearchResult) (cids : List UInt32) :
    (resolve found cids .empty).2 = .empty := by
  induction cids with
  | nil => rfl
  | cons cid cids ih => exact ih

/-- After everything was given up nothing has any effect. -/
theorem run_of_canceled (hcanceled : m.canceled = true) (hempty : m.pending = .empty)
    (action : SearchAction) : action.run m = m := by
  have hsame : ∀ pending, pending = Table.empty → { m with pending } = m := by
    intro pending hpending
    rw [hpending, ← hempty]
  cases action with
  | register now cid name penalize =>
    rw [SearchAction.run, register?]
    cases now.after? (m.config.backoff (if penalize then m.config.penalty else 0)) with
    | none => rfl
    | some deadline => exact if_pos hcanceled
  | rename cid name =>
    refine hsame _ ?_
    rw [hempty]
    rfl
  | unregister cid =>
    refine hsame _ ?_
    rw [hempty]
    rfl
  | respond r source minorRevision =>
    obtain ⟨found, hrespond⟩ := m.respond_snd r source minorRevision
    show (m.respond r source minorRevision).2 = m
    rw [hrespond]
    refine hsame _ ?_
    rw [hempty, resolve_empty, ite_self]
  | boost now =>
    refine hsame _ ?_
    rw [hempty]
    rfl
  | cancel => exact if_pos hcanceled
  | tick now =>
    show (m.tick now).2.2 = m
    rw [tick, if_pos hcanceled]

/-! ## What a tick does -/

/-- The clock can tell when each search that is due would be due next. -/
def InTime (m : SearchManager) (now : Instant) : Prop :=
  ∀ cid p, m.pending.get? cid = some p → p.deadline ≤ now →
    (now.after? (m.config.backoff p.counted.retries)).isSome = true

/-- While the clock can tell when the longest period is over, every search can be registered and
every tick is in time. -/
theorem inTime_of_maxPeriod {now : Instant}
    (h : (now.after? m.config.maxPeriod).isSome = true) :
    (∀ penalize, m.config.accepts now penalize = true) ∧ m.InTime now :=
  ⟨fun _ => Instant.isSome_after?_of_le (m.config.backoff_le_maxPeriod _) h,
    fun _ _ _ _ => Instant.isSome_after?_of_le (m.config.backoff_le_maxPeriod _) h⟩

/-- What comes of a tick in time: how long to wait, what is sent, and the searches afterwards. -/
structure Ticked (m : SearchManager) (now : Instant) (outcome : TickOutcome)
    (sent : List Outgoing) (after : SearchManager) : Prop where
  /-- Every destination gets the same requests, flagged as sent to a single host if it is one.
  Together they ask once for every channel that is due, by its present name. -/
  sent : ∃ requests : List SearchRequest,
    (sent = requests.flatMap fun r => m.destinations.map fun destination =>
      ⟨destination.address, ({ r with unicast := destination.unicast }).message.octets⟩) ∧
    (∀ r ∈ requests, r.channels ≠ [] ∧ r.sequence = after.sequence ∧ r.replyTo = m.replyTo ∧
      r.protocols = [tcpProtocol]) ∧
    ((requests.flatMap (·.channels)).map (·.cid)).Nodup ∧
    (∀ e, e ∈ requests.flatMap (·.channels) ↔ m.carries e = true ∧
      ∃ p, m.pending.get? e.cid = some p ∧ p.name = e.name ∧ p.deadline ≤ now) ∧
    ∀ r ∈ requests, (∀ e ∈ r.channels, e.name.utf8ByteSize ≤ Wire.maxSize) → ∀ unicast,
      ({ r with unicast }).message.read SearchRequest.decode = .ok ({ r with unicast }).canonical
  /-- No search is left out, except one for a name that is too long to be written. -/
  carried : ∀ e : SearchEntry, e.name.utf8ByteSize ≤ Wire.maxSize → m.carries e = true
  /-- Those that are due are put off, and the others stay as they are. -/
  pending : ∀ cid, after.pending.get? cid = (m.pending.get? cid).map fun p =>
    if p.deadline ≤ now then m.config.afterSend now p else p
  /-- No deadline has passed. -/
  later : ∀ cid p, after.pending.get? cid = some p → now ≤ p.deadline
  /-- The delay ends at the first deadline, or after the longest period if there is none. -/
  delay : ∃ d, outcome = .waits d ∧
    ((∃ cid p, after.pending.get? cid = some p) →
      IsLeast {t | ∃ cid p, after.pending.get? cid = some p ∧ p.deadline = t} (now + d.nanoseconds)) ∧
    ((∀ cid, after.pending.get? cid = none) → d = m.config.maxPeriod)
  /-- The number advances if something is due. -/
  advanced : (∃ cid p, m.pending.get? cid = some p ∧ p.deadline ≤ now) →
    after.sequence = m.sequence + 1
  kept : (∀ cid p, m.pending.get? cid = some p → now < p.deadline) → after.sequence = m.sequence

/-- What comes of a tick that is not in time. -/
structure Stopped (m : SearchManager) (now : Instant) (outcome : TickOutcome)
    (sent : List Outgoing) (after : SearchManager) : Prop where
  /-- Nothing is sent although something is due, and the number stays. -/
  failed : outcome = .failed ∧ sent = [] ∧ after.sequence = m.sequence
  /-- The send of a search is counted although the search stays due; the others that are due have
  been put off without being sent, or are as before like all the rest. -/
  pending : ∃ cid p, m.pending.get? cid = some p ∧ p.deadline ≤ now ∧
    now.after? (m.config.backoff p.counted.retries) = none ∧
    after.pending.get? cid = some p.counted ∧
    ∀ cid', cid' ≠ cid → after.pending.get? cid' = m.pending.get? cid' ∨
      ∃ p', m.pending.get? cid' = some p' ∧ p'.deadline ≤ now ∧
        (now.after? (m.config.backoff p'.counted.retries)).isSome = true ∧
        after.pending.get? cid' = some (m.config.afterSend now p')

theorem mem_due_iff {now : Instant} {e : SearchEntry} :
    e ∈ m.due now ↔ ∃ p, m.pending.get? e.cid = some p ∧ p.name = e.name ∧ p.deadline ≤ now := by
  rw [due, List.mem_filterMap]
  constructor
  · rintro ⟨⟨cid, p⟩, hmem, hsome⟩
    have hsome : (if p.deadline ≤ now then some (⟨cid, p.name⟩ : SearchEntry) else none) = some e :=
      hsome
    split at hsome
    · rename_i hdue
      cases hsome
      exact ⟨p, Table.get?_of_mem hmem, rfl, hdue⟩
    · cases hsome
  · rintro ⟨p, hget, hname, hdue⟩
    refine ⟨(e.cid, p), Table.mem_entries_iff.2 hget, ?_⟩
    show (if p.deadline ≤ now then some (⟨e.cid, p.name⟩ : SearchEntry) else none) = some e
    rw [if_pos hdue, hname]

theorem due_eq_nil_iff {now : Instant} :
    m.due now = [] ↔ ∀ cid p, m.pending.get? cid = some p → now < p.deadline := by
  rw [List.eq_nil_iff_forall_not_mem]
  constructor
  · intro hnone cid p hget
    by_contra hle
    exact hnone ⟨cid, p.name⟩ (mem_due_iff.2 ⟨p, hget, rfl, Nat.le_of_not_lt hle⟩)
  · intro hlater e he
    obtain ⟨p, hget, -, hdue⟩ := mem_due_iff.1 he
    exact Nat.not_lt.2 hdue (hlater e.cid p hget)

/-- No channel is due twice. -/
theorem nodup_due (m : SearchManager) (now : Instant) : ((m.due now).map (·.cid)).Nodup := by
  have hkeys := List.pairwise_map.1 m.pending.distinct
  rw [due, List.Nodup, List.pairwise_map, List.pairwise_filterMap]
  refine hkeys.imp fun {x y} hne => ?_
  have hcid : ∀ {x : UInt32 × PendingSearch} {e : SearchEntry},
      (if x.2.deadline ≤ now then some (⟨x.1, x.2.name⟩ : SearchEntry) else none) = some e →
        e.cid = x.1 := by
    intro x e hsome
    split at hsome
    · cases hsome
      rfl
    · cases hsome
  intro e he e' he'
  rw [hcid he, hcid he']
  exact hne

theorem le_deadline_afterSend (c : SearchConfig) (now : Instant) (p : PendingSearch) :
    now ≤ (c.afterSend now p).deadline := Nat.le_add_right _ _

/-! ### Putting off -/

section

variable {c : SearchConfig} {now : Instant} {p : PendingSearch}

theorem putOff_of_lt (h : now < p.deadline) : c.putOff now p = (p, true) :=
  if_neg (Nat.not_le.2 h)

theorem putOff_of_some (hdue : p.deadline ≤ now)
    (hsome : (now.after? (c.backoff p.counted.retries)).isSome = true) :
    c.putOff now p = (c.afterSend now p, true) := by
  obtain ⟨deadline, hdeadline⟩ := Option.isSome_iff_exists.1 hsome
  have hsum : deadline = now + (c.backoff p.counted.retries).nanoseconds := by
    unfold Instant.after? at hdeadline
    split at hdeadline
    · exact (Option.some.inj hdeadline).symm
    · cases hdeadline
  rw [SearchConfig.putOff, if_pos hdue, hdeadline, SearchConfig.afterSend, hsum]

theorem putOff_of_none (hdue : p.deadline ≤ now)
    (hnone : now.after? (c.backoff p.counted.retries) = none) :
    c.putOff now p = (p.counted, false) := by
  rw [SearchConfig.putOff, if_pos hdue, hnone]

/-- Putting off a search fails for the clock only. -/
theorem snd_putOff_iff :
    (c.putOff now p).2 = true ↔
      (p.deadline ≤ now → (now.after? (c.backoff p.counted.retries)).isSome = true) := by
  by_cases hdue : p.deadline ≤ now
  · cases hsome : now.after? (c.backoff p.counted.retries) with
    | none =>
      rw [putOff_of_none hdue hsome]
      exact iff_of_false Bool.false_ne_true fun h => Bool.false_ne_true (h hdue)
    | some deadline =>
      have hsome' : (now.after? (c.backoff p.counted.retries)).isSome = true := by
        rw [hsome]
        rfl
      rw [putOff_of_some hdue hsome']
      exact iff_of_true rfl fun _ => rfl
  · rw [putOff_of_lt (Nat.lt_of_not_le hdue)]
    exact iff_of_true rfl fun h => absurd h hdue

theorem fst_putOff (h : (c.putOff now p).2 = true) :
    (c.putOff now p).1 = if p.deadline ≤ now then c.afterSend now p else p := by
  by_cases hdue : p.deadline ≤ now
  · rw [putOff_of_some hdue (snd_putOff_iff.1 h hdue), if_pos hdue]
  · rw [putOff_of_lt (Nat.lt_of_not_le hdue), if_neg hdue]

end

/-- In time, every search that is due is put off. -/
theorem changeValues_of_inTime {now : Instant} (h : m.InTime now) :
    m.pending.changeValues (fun _ => m.config.putOff now) =
      (m.pending.mapValues fun _ p => (m.config.putOff now p).1, true) := by
  rcases m.pending.changeValues_cases fun _ => m.config.putOff now with
    ⟨-, heq⟩ | ⟨-, cid, p, hget, hfailed, -⟩
  · exact heq
  · rw [snd_putOff_iff.2 (h cid p hget)] at hfailed
    cases hfailed

theorem get?_ticked_of_inTime {now : Instant} (h : m.InTime now) (sequence : UInt32)
    (cid : UInt32) : (m.ticked now sequence).pending.get? cid = (m.pending.get? cid).map fun p =>
      if p.deadline ≤ now then m.config.afterSend now p else p := by
  rw [ticked, changeValues_of_inTime h, Table.get?_mapValues]
  refine Option.map_congr fun p hp => fst_putOff ?_
  exact snd_putOff_iff.2 (h cid p hp)

theorem tick_of_inTime (hopen : m.canceled = false) {now : Instant} (h : m.InTime now) :
    m.tick now =
      let sequence := if (m.due now).isEmpty then m.sequence else m.sequence + 1
      (.waits ((m.ticked now sequence).untilNext now),
        (m.ticked now sequence).outgoing sequence (m.due now), m.ticked now sequence) := by
  rw [tick, if_neg (Bool.eq_false_iff.1 hopen)]
  unfold ticked
  rw [changeValues_of_inTime h]

theorem tick_of_failed (hopen : m.canceled = false) {now : Instant}
    (h : (m.pending.changeValues fun _ => m.config.putOff now).2 = false) :
    m.tick now = (.failed, [], m.ticked now m.sequence) := by
  rw [tick, if_neg (Bool.eq_false_iff.1 hopen)]
  unfold ticked
  split
  · rename_i pending hput
    rw [hput] at h
    cases h
  · rename_i pending hput
    rw [hput]

theorem stopped_tick (hopen : m.canceled = false) {now : Instant} (h : ¬ m.InTime now) :
    Stopped m now (m.tick now).1 (m.tick now).2.1 (m.tick now).2.2 := by
  rcases m.pending.changeValues_cases fun _ => m.config.putOff now with
    ⟨hall, -⟩ | ⟨hstopped, cid, p, hget, hfailed, hafter, hothers⟩
  · exact absurd (fun cid p hget => snd_putOff_iff.1 (hall cid p hget)) h
  rw [tick_of_failed hopen hstopped]
  refine ⟨⟨rfl, rfl, rfl⟩, cid, p, hget, ?_⟩
  have hstays := mt snd_putOff_iff.2 (Bool.eq_false_iff.1 hfailed)
  rw [not_forall, exists_prop] at hstays
  obtain ⟨hdue, hnone⟩ := hstays
  have hnone := Option.not_isSome_iff_eq_none.1 hnone
  refine ⟨hdue, hnone, ?_, fun cid' hne => ?_⟩
  · rw [ticked, hafter, putOff_of_none hdue hnone]
  rcases hothers cid' hne with hsame | ⟨p', hget', hdone, hafter'⟩
  · exact .inl hsame
  by_cases hdue' : p'.deadline ≤ now
  · refine .inr ⟨p', hget', hdue', snd_putOff_iff.1 hdone hdue', hafter'.trans ?_⟩
    rw [fst_putOff hdone, if_pos hdue']
  · refine .inl (hafter'.trans ?_)
    rw [putOff_of_lt (Nat.lt_of_not_le hdue'), hget']

/-! ### Until the next tick -/

/-- As long as no deadline has passed, the delay ends at the first one. -/
theorem isLeast_untilNext {now : Instant}
    (hlater : ∀ cid p, m.pending.get? cid = some p → now ≤ p.deadline)
    (hsome : ∃ cid p, m.pending.get? cid = some p) :
    IsLeast {t | ∃ cid p, m.pending.get? cid = some p ∧ p.deadline = t}
      (now + (m.untilNext now).nanoseconds) := by
  cases hmin : (m.pending.values.map fun p => p.deadline - now).min? with
  | none =>
    obtain ⟨cid, p, hget⟩ := hsome
    have hp : p ∈ m.pending.values := Table.mem_values_iff.2 ⟨cid, hget⟩
    rw [List.min?_eq_none_iff, List.map_eq_nil_iff] at hmin
    rw [hmin] at hp
    cases hp
  | some delay =>
    have huntil : m.untilNext now = ⟨delay⟩ := by
      rw [untilNext, hmin]
    obtain ⟨hmem, hle⟩ := List.min?_eq_some_iff.1 hmin
    obtain ⟨p, hp, hdelay⟩ := List.mem_map.1 hmem
    obtain ⟨cid, hget⟩ := Table.mem_values_iff.1 hp
    have hnow := hlater cid p hget
    rw [huntil]
    refine ⟨⟨cid, p, hget, ?_⟩, ?_⟩
    · rw [← hdelay]
      exact (Nat.add_sub_of_le hnow).symm
    · rintro t ⟨cid', p', hget', rfl⟩
      have hfirst := hle (p'.deadline - now)
        (List.mem_map.2 ⟨p', Table.mem_values_iff.2 ⟨cid', hget'⟩, rfl⟩)
      rw [Nat.add_comm]
      exact Nat.add_le_of_le_sub (hlater cid' p' hget') hfirst

theorem untilNext_of_none {now : Instant} (hnone : ∀ cid, m.pending.get? cid = none) :
    m.untilNext now = m.config.maxPeriod := by
  have hvalues : m.pending.values = [] := by
    refine List.eq_nil_iff_forall_not_mem.2 fun p hp => ?_
    obtain ⟨cid, hget⟩ := Table.mem_values_iff.1 hp
    rw [hnone] at hget
    cases hget
  rw [untilNext, hvalues]
  rfl

theorem later_ticked {now : Instant} (h : m.InTime now) (sequence : UInt32) {cid : UInt32}
    {p : PendingSearch} (hget : (m.ticked now sequence).pending.get? cid = some p) :
    now ≤ p.deadline := by
  rw [get?_ticked_of_inTime h] at hget
  obtain ⟨q, -, rfl⟩ := Option.map_eq_some_iff.1 hget
  split
  · exact le_deadline_afterSend m.config now q
  · rename_i hlater
    exact Nat.le_of_not_le hlater

theorem ticked_tick (hlimit : m.config.maxDatagram ≤ Message.maxDatagram) (hopen : m.canceled = false)
    {now : Instant} (htime : m.InTime now) :
    Ticked m now (m.tick now).1 (m.tick now).2.1 (m.tick now).2.2 := by
  have hdue : ∀ sequence, (m.requests sequence (m.due now)).flatMap (·.channels) =
      (m.due now).filter m.carries :=
    fun sequence => flatMap_channels_requests hlimit sequence (m.due now)
  rw [tick_of_inTime hopen htime]
  refine ⟨⟨_, outgoing_eq hlimit _ _, ?_, ?_, ?_, ?_⟩, fun e => m.carries_of_le, ?_, ?_, ?_, ?_, ?_⟩
  · intro r hr
    obtain ⟨group, rfl, hne, -, -⟩ := mem_requests hlimit hr
    exact ⟨hne, rfl, rfl, rfl⟩
  · show (((m.requests _ (m.due now)).flatMap (·.channels)).map (·.cid)).Nodup
    rw [hdue]
    exact (m.nodup_due now).sublist (List.filter_sublist.map _)
  · intro e
    show e ∈ (m.requests _ (m.due now)).flatMap (·.channels) ↔ _
    rw [hdue, List.mem_filter, mem_due_iff, and_comm]
  · intro r hr hnames unicast
    obtain ⟨group, rfl, -, hcount, -⟩ := mem_requests hlimit hr
    exact SearchRequest.read_message hcount rfl hnames
  · exact get?_ticked_of_inTime htime _
  · intro cid p hget
    exact later_ticked htime _ hget
  · refine ⟨_, rfl, isLeast_untilNext fun cid p hget => later_ticked htime _ hget, ?_⟩
    exact untilNext_of_none
  · rintro ⟨cid, p, hget, hle⟩
    have hne : m.due now ≠ [] := fun hnil => Nat.not_lt.2 hle (due_eq_nil_iff.1 hnil cid p hget)
    exact if_neg fun hempty => hne (List.isEmpty_iff.1 hempty)
  · intro hlater
    exact if_pos (List.isEmpty_iff.2 (due_eq_nil_iff.2 hlater))

/-! ## All that may happen -/

/-- What the searches are after some actions. -/
structure Reflects (config : SearchConfig) (destinations : List SearchDestination)
    (replyTo : Endpoint) (actions : List SearchAction) (m : SearchManager) : Prop where
  settings : m.config = config ∧ m.destinations = destinations ∧ m.replyTo = replyTo
  /-- The channels that are pending are those that are searched. -/
  searched : ∀ cid, (∃ p, m.pending.get? cid = some p) ↔ SearchedAfter config actions cid
  named : ∀ cid p, m.pending.get? cid = some p → lastName? config actions cid = some p.name
  canceled_iff : m.canceled = true ↔ .cancel ∈ actions
  /-- After everything was given up nothing is pending. -/
  empty : m.canceled = true → m.pending = .empty

/-- What the searches are after some actions, and what a tick would do. -/
structure Scheduled (config : SearchConfig) (destinations : List SearchDestination)
    (replyTo : Endpoint) (actions : List SearchAction) (m : SearchManager) : Prop
    extends Reflects config destinations replyTo actions m where
  ticked : .cancel ∉ actions → ∀ now, m.InTime now →
    Ticked m now (m.tick now).1 (m.tick now).2.1 (m.tick now).2.2
  stopped : .cancel ∉ actions → ∀ now, ¬ m.InTime now →
    Stopped m now (m.tick now).1 (m.tick now).2.1 (m.tick now).2.2
  /-- Every search can be registered and every tick is in time unless the longest period from then on
  ends later than the clock can tell. -/
  inTime : ∀ now : Instant, (now.after? config.maxPeriod).isSome = true →
    (∀ penalize, config.accepts now penalize = true) ∧ m.InTime now
  /-- After everything was given up nothing is sent, and no tick asks for another one. -/
  silent : .cancel ∈ actions → ∀ now, m.tick now = (.canceled, [], m)

section

variable {config : SearchConfig} {destinations : List SearchDestination} {replyTo : Endpoint}
  {actions : List SearchAction}

theorem reflects_nil : Reflects config destinations replyTo [] { config, destinations, replyTo } where
  settings := ⟨rfl, rfl, rfl⟩
  searched cid := by
    refine iff_of_false (fun ⟨p, hget⟩ => (nomatch hget)) fun hsearched => ?_
    exact not_standsIn_nil hsearched.2
  named _ _ hget := nomatch hget
  canceled_iff := by simp
  empty hcanceled := nomatch hcanceled

theorem Reflects.of_cancel {m' : SearchManager}
    (hsettings : m'.config = config ∧ m'.destinations = destinations ∧ m'.replyTo = replyTo)
    (hcancel : .cancel ∈ actions) (hcanceled : m'.canceled = true) (hempty : m'.pending = .empty) :
    Reflects config destinations replyTo actions m' where
  settings := hsettings
  searched cid := by
    rw [hempty]
    exact iff_of_false (fun ⟨p, hget⟩ => (nomatch hget)) fun hsearched => hsearched.1 hcancel
  named cid p hget := by
    rw [hempty] at hget
    cases hget
  canceled_iff := iff_of_true hcanceled hcancel
  empty _ := hempty

theorem Reflects.concat (h : Reflects config destinations replyTo actions m) (action : SearchAction) :
    Reflects config destinations replyTo (actions ++ [action]) (action.run m) := by
  by_cases hcancel : .cancel ∈ actions
  · have hcanceled := h.canceled_iff.2 hcancel
    have hempty := h.empty hcanceled
    rw [run_of_canceled hcanceled hempty]
    exact .of_cancel h.settings (List.mem_append_left _ hcancel) hcanceled hempty
  have hopen : m.canceled = false := Bool.eq_false_iff.2 fun hcanceled =>
    hcancel (h.canceled_iff.1 hcanceled)
  by_cases haction : action = .cancel
  · subst haction
    have hrun : SearchAction.cancel.run m = { m with canceled := true, pending := .empty } :=
      if_neg (Bool.eq_false_iff.1 hopen)
    rw [hrun]
    exact .of_cancel h.settings (List.mem_append_right _ (List.mem_singleton.2 rfl)) rfl rfl
  have hnot : .cancel ∉ actions ++ [action] := by
    rw [List.mem_append, List.mem_singleton]
    exact not_or.2 ⟨hcancel, Ne.symm haction⟩
  obtain ⟨pending, sequence, hrun⟩ := run_of_ne_cancel (m := m) haction
  have hcanceled' : (action.run m).canceled = false := (canceled_run action haction).trans hopen
  refine ⟨by rw [hrun]; exact h.settings, fun cid => ?_, fun cid p hget => ?_, ?_, ?_⟩
  · rw [searchedAfter_concat hcancel haction, ← h.searched cid, ← h.settings.1]
    exact (affects_run hopen haction cid).exists_iff
  · have haffects := affects_run hopen haction cid
    rw [hget, h.settings.1] at haffects
    rw [lastName?_concat]
    exact haffects.name_eq (h.named cid)
  · rw [hcanceled']
    exact iff_of_false Bool.false_ne_true hnot
  · rw [hcanceled']
    intro hfalse
    cases hfalse

theorem Reflects.scheduled (hlimit : config.maxDatagram ≤ Message.maxDatagram)
    (h : Reflects config destinations replyTo actions m) :
    Scheduled config destinations replyTo actions m := by
  have hopen : .cancel ∉ actions → m.canceled = false := fun hcancel =>
    Bool.eq_false_iff.2 fun hcanceled => hcancel (h.canceled_iff.1 hcanceled)
  rw [← h.settings.1] at hlimit
  exact {
    toReflects := h
    ticked := fun hcancel now htime => ticked_tick hlimit (hopen hcancel) htime
    stopped := fun hcancel now htime => stopped_tick (hopen hcancel) htime
    inTime := fun now hlimit => h.settings.1 ▸ inTime_of_maxPeriod (h.settings.1 ▸ hlimit)
    silent := fun hcancel now => if_pos (h.canceled_iff.2 hcancel) }

theorem reflects_runAll (config : SearchConfig) (destinations : List SearchDestination)
    (replyTo : Endpoint) (actions : List SearchAction) :
    Reflects config destinations replyTo actions
      (SearchAction.runAll { config, destinations, replyTo } actions) := by
  induction actions using List.reverseRecOn with
  | nil => exact reflects_nil
  | append_singleton actions action ih =>
    rw [SearchAction.runAll, List.foldl_concat]
    exact ih.concat action

/-- Whatever happens, the pending searches are those that were registered and have not ended, each
tick in time sends those that are due and asks for the next one in time, and nothing goes on after
everything was given up.  A tick that is not in time sends nothing and leaves a search due. -/
theorem searches_scheduled (config : SearchConfig)
    (hlimit : config.maxDatagram ≤ Message.maxDatagram) (destinations : List SearchDestination)
    (replyTo : Endpoint) (actions : List SearchAction) :
    Scheduled config destinations replyTo actions
      (SearchAction.runAll { config, destinations, replyTo } actions) :=
  (reflects_runAll config destinations replyTo actions).scheduled hlimit

theorem searches_scheduled_at_limit :
    ({ maxDatagram := 65487 } : SearchConfig).maxDatagram ≤ Message.maxDatagram ∧
      Scheduled { maxDatagram := 65487 } [⟨.any 5076, true⟩] (.any 0)
        [.register 0 7 "x" true, .boost 5, .rename 7 "y", .tick 5]
        (SearchAction.runAll
          { config := { maxDatagram := 65487 }, destinations := [⟨.any 5076, true⟩],
            replyTo := .any 0 }
          [.register 0 7 "x" true, .boost 5, .rename 7 "y", .tick 5]) :=
  ⟨by decide, searches_scheduled _ (by decide) _ _ _⟩

/-- A search that is due is not sent if the clock ends before it would be due again, and stays due;
and one that is to wait for longer than the clock can tell is not registered. -/
theorem due_search_stays_unsent :
    let config : SearchConfig :=
      { basePeriod := .ofSeconds 9223372036854775808, maxPeriod := .ofSeconds 9223372036854775808 }
    let m := SearchAction.runAll { config, destinations := [⟨.any 5076, true⟩], replyTo := .any 0 }
      [.register 0 7 "x" false, .register 0 8 "y" true]
    config.maxDatagram ≤ Message.maxDatagram ∧
      m.pending.keys = [7] ∧ m.due 0 = [⟨7, "x"⟩] ∧
      (m.tick 0).1 = .failed ∧ (m.tick 0).2.1 = [] ∧ (m.tick 0).2.2.sequence = 0 ∧
      (m.tick 0).2.2.due 0 = [⟨7, "x"⟩] := by
  decide +kernel

end

end SearchManager

end PvNet
