import PvNet.Net.Poller
import PvNet.Proofs.Connection.Registration
import PvNet.Proofs.History
set_option autoImplicit false

/-!
# What a poller calls

`Poller.history` records what is done to a poller: additions with the keys that they return,
removals, and polls with what the host says and the calls that are made.  A poll follows the
history (`Polled.Follows`): what it registers, tells and calls can be read off what happened
before, and so can whether it waits (`Poller.polls_follow_history`).

`Poller.Tracks` is what every step preserves.  An addition takes effect at the next poll, which
finds its descriptor valid or not; so the invariant speaks of what the queue would come to, whatever
the next poll finds.
-/

namespace PvNet

/-! ## Histories -/

/-- What is done to a poller. -/
inductive PollerStep where
  | add (descriptor : Int) (interest : Interest)
  | remove (key : PollKey)
  | poll (isOpen : Int → Bool) (timeout : Option Duration)
    (host : Table PollKey Registration → WaitAnswer)

/-- What has been done to a poller, and what came of it. -/
inductive PollerEvent where
  | added (key : PollKey) (registration : Registration)
  | removed (key : PollKey)
  | polled (isOpen : Int → Bool) (answer : WaitAnswer) (calls : List PollCall)

namespace PollCall

/-- Whether a call tells of the outcome of a registration. -/
def isRegistration : PollCall → Bool
  | registered _ _ => true
  | readable _ | writable _ => false

/-- The registration that a call is about. -/
def key : PollCall → PollKey
  | registered key _ | readable key | writable key => key

end PollCall

namespace PollerEvent

/-- The key that an addition returns. -/
def addedKey? : PollerEvent → Option PollKey
  | added key _ => some key
  | removed _ | polled _ _ _ => none

/-- Which descriptors a poll finds open. -/
def isOpen? : PollerEvent → Option (Int → Bool)
  | polled isOpen _ _ => some isOpen
  | added _ _ | removed _ => none

/-- The calls of a poll. -/
def calls? : PollerEvent → Option (List PollCall)
  | polled _ _ calls => some calls
  | added _ _ | removed _ => none

/-- A registration does not outlast the event. -/
def Drops (key : PollKey) : PollerEvent → Prop
  | added _ _ => False
  | removed key' => key' = key
  | polled _ answer _ => (answer.reported key).invalid = true

/-- The keys that the additions have returned, in order. -/
def addedKeys (history : List PollerEvent) : List PollKey := history.filterMap addedKey?

/-- Which descriptors the first poll of some events finds open; if there is no poll among them, it
is the next one. -/
def judged (next : Int → Bool) (events : List PollerEvent) : Int → Bool :=
  (events.findSome? isOpen?).getD next

/-- A key has been added, the descriptor was found valid, and nothing has dropped the key since. -/
def Enrolled (next : Int → Bool) (history : List PollerEvent) (key : PollKey) (r : Registration) :
    Prop :=
  ∃ before behind, history = before ++ added key r :: behind ∧
    (0 ≤ r.descriptor ∧ judged next behind r.descriptor = true) ∧ ∀ e ∈ behind, ¬ e.Drops key

/-- One call for each addition, in order, which says what is wrong with the descriptor. -/
def outcomes (next : Int → Bool) : List PollerEvent → List PollCall
  | [] => []
  | added key r :: behind =>
    .registered key (Poller.rejection? (judged next behind) r.descriptor) :: outcomes next behind
  | removed _ :: behind | polled _ _ _ :: behind => outcomes next behind

/-- The registrations that have been told of, in order. -/
def told (history : List PollerEvent) : List PollCall :=
  (history.filterMap calls?).flatten.filter PollCall.isRegistration

/-- The calls of the polls so far, the last poll first. -/
def pollsBack (history : List PollerEvent) : List (List PollCall) :=
  (history.filterMap calls?).reverse

/-- All calls of a poll were about registrations. -/
def Quiet (calls : List PollCall) : Prop := ∀ c ∈ calls, c.isRegistration = true

end PollerEvent

namespace Poller

/-- What a step makes of a poller. -/
def step (p : Poller) : PollerStep → Poller
  | .add descriptor interest => (p.add descriptor interest).2
  | .remove key => p.remove key
  | .poll isOpen timeout host => (p.poll isOpen timeout host).poller

/-- What is recorded of a step. -/
def event (p : Poller) : PollerStep → PollerEvent
  | .add descriptor interest => .added (p.add descriptor interest).1 ⟨descriptor, interest⟩
  | .remove key => .removed key
  | .poll isOpen timeout host =>
    .polled isOpen (host (p.applied isOpen).2) (p.poll isOpen timeout host).calls

/-- What steps make of a poller. -/
def runAll (p : Poller) : List PollerStep → Poller
  | [] => p
  | s :: steps => (p.step s).runAll steps

/-- What is recorded of steps. -/
def history (p : Poller) : List PollerStep → List PollerEvent
  | [] => []
  | s :: steps => p.event s :: (p.step s).history steps

end Poller

open PollerEvent

/-- A poll does what the history before it asks for. -/
structure Poller.Polled.Follows (history : List PollerEvent) (isOpen : Int → Bool)
    (timeout : Option Duration) (answer : WaitAnswer) (r : Polled) : Prop where
  /-- What is registered afterwards. -/
  registered : ∀ key registration, r.poller.entries.get? key = some registration ↔
    Enrolled isOpen history key registration ∧ (answer.reported key).invalid = false
  /-- Every addition has been told of once. -/
  told : told history ++ r.calls.filter PollCall.isRegistration = outcomes isOpen history
  readable : ∀ key, .readable key ∈ r.calls ↔
    (∃ registration, Enrolled isOpen history key registration) ∧
      (answer.reported key).invalid = false ∧
        ((answer.reported key).readable = true ∨ (answer.reported key).hungUp = true)
  writable : ∀ key, .writable key ∈ r.calls ↔
    (∃ registration, Enrolled isOpen history key registration) ∧
      (answer.reported key).invalid = false ∧ (answer.reported key).writable = true
  /-- No call is made twice. -/
  once : r.calls.Nodup
  /-- The number of calls about readiness is returned. -/
  returned : ∀ n, r.result = .ok n → n = (r.calls.filter fun c => !c.isRegistration).length
  /-- Only a failed wait has another result. -/
  fails_iff : ∀ e, r.result = .error e ↔
    ∃ cause, answer = .failed cause ∧ cause.kind ≠ .interrupted ∧ e = .io cause
  /-- It may wait if the last five polls have made no calls about readiness. -/
  waits : (∀ calls ∈ (pollsBack history).take throttlePolls, Quiet calls) →
    r.limit = limitOf timeout
  /-- It does not wait if one of them has. -/
  hastens : (∃ calls ∈ (pollsBack history).take throttlePolls, ¬ Quiet calls) → r.limit = 0

/-! ## One more event -/

namespace PollerEvent

variable {next : Int → Bool} {history : List PollerEvent} {e : PollerEvent} {key : PollKey}
  {r : Registration}

theorem judged_concat (next : Int → Bool) (events : List PollerEvent) (e : PollerEvent) :
    judged next (events ++ [e]) = judged (e.isOpen?.getD next) events := by
  unfold judged
  rw [List.findSome?_append]
  cases events.findSome? isOpen? with
  | some isOpen => rfl
  | none => cases e with
    | added | removed | polled => rfl

theorem enrolled_iff :
    Enrolled next history key r ↔
      ∃ before first behind, history = before ++ first :: behind ∧ first = added key r ∧
        (0 ≤ r.descriptor ∧ judged next behind r.descriptor = true) ∧ ∀ e ∈ behind, ¬ e.Drops key := by
  constructor
  · rintro ⟨before, behind, hhistory, hvalid, hkept⟩
    exact ⟨before, _, behind, hhistory, rfl, hvalid, hkept⟩
  · rintro ⟨before, _, behind, hhistory, rfl, hvalid, hkept⟩
    exact ⟨before, behind, hhistory, hvalid, hkept⟩

/-- The last event may be the poll that finds the descriptors valid or not. -/
theorem enrolled_concat :
    Enrolled next (history ++ [e]) key r ↔
      (e = added key r ∧ 0 ≤ r.descriptor ∧ next r.descriptor = true) ∨
        (Enrolled (e.isOpen?.getD next) history key r ∧ ¬ e.Drops key) := by
  rw [enrolled_iff, exists_split_concat, enrolled_iff]
  refine or_congr (and_congr_right' (and_iff_left (List.forall_mem_nil _))) ?_
  simp only [judged_concat, List.forall_mem_append, List.forall_mem_singleton]
  constructor
  · rintro ⟨before, first, behind, hhistory, hfirst, hvalid, hkept, hlast⟩
    exact ⟨⟨before, first, behind, hhistory, hfirst, hvalid, hkept⟩, hlast⟩
  · rintro ⟨⟨before, first, behind, hhistory, hfirst, hvalid, hkept⟩, hlast⟩
    exact ⟨before, first, behind, hhistory, hfirst, hvalid, hkept, hlast⟩

theorem Enrolled.mem_addedKeys (h : Enrolled next history key r) :
    key ∈ addedKeys history := by
  obtain ⟨before, behind, rfl, -, -⟩ := h
  rw [addedKeys, List.filterMap_append]
  exact List.mem_append_right _ List.mem_cons_self

theorem outcomes_concat :
    outcomes next (history ++ [e]) = outcomes (e.isOpen?.getD next) history ++ outcomes next [e] := by
  induction history with
  | nil => rfl
  | cons first history ih =>
    cases first with
    | added key r =>
      rw [List.cons_append, outcomes, outcomes, ih, judged_concat]
      rfl
    | removed | polled => exact ih

theorem map_key_outcomes (next : Int → Bool) (history : List PollerEvent) :
    (outcomes next history).map PollCall.key = addedKeys history := by
  induction history with
  | nil => rfl
  | cons first history ih =>
    cases first with
    | added key r => exact congrArg (key :: ·) ih
    | removed | polled => exact ih

theorem addedKeys_added : addedKeys (history ++ [added key r]) = addedKeys history ++ [key] := by
  simp [addedKeys, addedKey?]

theorem addedKeys_of_none (h : e.addedKey? = none) :
    addedKeys (history ++ [e]) = addedKeys history := by
  simp [addedKeys, h]

theorem told_of_none (h : e.calls? = none) : told (history ++ [e]) = told history := by
  simp [told, h]

theorem told_polled {isOpen : Int → Bool} {answer : WaitAnswer} {calls : List PollCall} :
    told (history ++ [polled isOpen answer calls]) =
      told history ++ calls.filter PollCall.isRegistration := by
  simp [told, calls?]

theorem pollsBack_of_none (h : e.calls? = none) : pollsBack (history ++ [e]) = pollsBack history := by
  simp [pollsBack, h]

theorem pollsBack_polled {isOpen : Int → Bool} {answer : WaitAnswer} {calls : List PollCall} :
    pollsBack (history ++ [polled isOpen answer calls]) = calls :: pollsBack history := by
  simp [pollsBack, calls?]

end PollerEvent

/-! ## The parts of a poll -/

namespace Poller

variable {p : Poller} {isOpen : Int → Bool} {timeout : Option Duration}
  {host : Table PollKey Registration → WaitAnswer} {entries : Table PollKey Registration}
  {answer : WaitAnswer} {key : PollKey}

theorem rejection?_eq_none_iff {descriptor : Int} :
    rejection? isOpen descriptor = none ↔ 0 ≤ descriptor ∧ isOpen descriptor = true := by
  unfold rejection?
  by_cases hnegative : descriptor < 0
  · rw [if_pos hnegative]
    exact iff_of_false nofun fun h => absurd h.1 (Int.not_le.2 hnegative)
  · rw [if_neg hnegative]
    have hnonneg : 0 ≤ descriptor := Int.not_lt.1 hnegative
    by_cases hopen : isOpen descriptor = true
    · rw [if_pos hopen]
      exact iff_of_true rfl ⟨hnonneg, hopen⟩
    · rw [if_neg hopen]
      exact iff_of_false nofun fun h => hopen h.2

theorem applyChanges_append (changes changes' : List PollChange)
    (entries : Table PollKey Registration) :
    applyChanges isOpen (changes ++ changes') entries =
      ((applyChanges isOpen changes entries).1 ++
          (applyChanges isOpen changes' (applyChanges isOpen changes entries).2).1,
        (applyChanges isOpen changes' (applyChanges isOpen changes entries).2).2) := by
  induction changes generalizing entries with
  | nil => rfl
  | cons change changes ih =>
    cases change with
    | remove key => exact ih _
    | add key r =>
      simp only [List.cons_append, applyChanges, ih]

theorem isRegistration_of_mem_changes {changes : List PollChange} {c : PollCall}
    (h : c ∈ (applyChanges isOpen changes entries).1) : c.isRegistration = true := by
  induction changes generalizing entries with
  | nil => cases h
  | cons change changes ih =>
    cases change with
    | remove key => exact ih h
    | add key r =>
      rcases List.mem_cons.1 h with rfl | h
      · rfl
      · exact ih h

theorem applied_add (p : Poller) (descriptor : Int) (interest : Interest) :
    (p.add descriptor interest).2.applied isOpen =
      ((p.applied isOpen).1 ++ [.registered p.next (rejection? isOpen descriptor)],
        if (rejection? isOpen descriptor).isNone then
          (p.applied isOpen).2.put p.next ⟨descriptor, interest⟩
        else (p.applied isOpen).2) :=
  applyChanges_append p.queue [.add p.next ⟨descriptor, interest⟩] p.entries

theorem applied_remove (p : Poller) (key : PollKey) :
    (p.remove key).applied isOpen =
      ((p.applied isOpen).1 ++ [], (p.applied isOpen).2.erase key) :=
  applyChanges_append p.queue [.remove key] p.entries

theorem isRegistration_of_mem_applied {c : PollCall} (h : c ∈ (p.applied isOpen).1) :
    c.isRegistration = true := isRegistration_of_mem_changes h

theorem mem_callsFor {seen : Readiness} {c : PollCall} (h : c ∈ callsFor key seen) :
    c.isRegistration = false ∧ c.key = key := by
  unfold callsFor at h
  by_cases hinvalid : seen.invalid = true
  · rw [if_pos hinvalid] at h
    cases h
  · rw [if_neg hinvalid] at h
    rcases List.mem_append.1 h with h | h
    · obtain ⟨-, h⟩ := List.mem_ite_nil_right.1 h
      rw [List.mem_singleton.1 h]
      exact ⟨rfl, rfl⟩
    · obtain ⟨-, h⟩ := List.mem_ite_nil_right.1 h
      rw [List.mem_singleton.1 h]
      exact ⟨rfl, rfl⟩

theorem nodup_callsFor (key : PollKey) (seen : Readiness) : (callsFor key seen).Nodup := by
  obtain ⟨readable, writable, hungUp, invalid⟩ := seen
  cases readable <;> cases writable <;> cases hungUp <;> cases invalid <;> simp [callsFor]

theorem readable_mem_callsFor_iff {seen : Readiness} :
    .readable key ∈ callsFor key seen ↔
      seen.invalid = false ∧ (seen.readable = true ∨ seen.hungUp = true) := by
  obtain ⟨readable, writable, hungUp, invalid⟩ := seen
  cases readable <;> cases writable <;> cases hungUp <;> cases invalid <;> simp [callsFor]

theorem writable_mem_callsFor_iff {seen : Readiness} :
    .writable key ∈ callsFor key seen ↔ seen.invalid = false ∧ seen.writable = true := by
  obtain ⟨readable, writable, hungUp, invalid⟩ := seen
  cases readable <;> cases writable <;> cases hungUp <;> cases invalid <;> simp [callsFor]

/-- A call is made for the registration that it is about. -/
theorem mem_dispatch_iff {c : PollCall} :
    c ∈ dispatch entries answer ↔ c.key ∈ entries.keys ∧ c ∈ callsFor c.key (answer.reported c.key) := by
  unfold dispatch
  rw [List.mem_flatMap]
  constructor
  · rintro ⟨key, hkey, hc⟩
    rw [(mem_callsFor hc).2]
    exact ⟨hkey, hc⟩
  · exact fun h => ⟨_, h⟩

theorem isRegistration_of_mem_dispatch {c : PollCall} (h : c ∈ dispatch entries answer) :
    c.isRegistration = false := (mem_callsFor (mem_dispatch_iff.1 h).2).1

theorem nodup_dispatch : (dispatch entries answer).Nodup := by
  unfold dispatch
  have hkeys : entries.keys.Nodup := entries.distinct
  refine List.nodup_flatMap.2 ⟨fun key _ => nodup_callsFor key _, hkeys.imp fun hne c hc hc' => ?_⟩
  rw [← (mem_callsFor hc).2, ← (mem_callsFor hc').2] at hne
  exact hne rfl

/-- Nothing is called when the wait fails. -/
theorem dispatch_failed (entries : Table PollKey Registration) (cause : IoError) :
    dispatch entries (.failed cause) = [] := by
  rw [dispatch, List.flatMap_eq_nil_iff]
  exact fun _ _ => rfl

theorem calls_poll (p : Poller) (isOpen : Int → Bool) (timeout : Option Duration)
    (host : Table PollKey Registration → WaitAnswer) :
    (p.poll isOpen timeout host).calls =
      (p.applied isOpen).1 ++ dispatch (p.applied isOpen).2 (host (p.applied isOpen).2) := rfl

theorem registrations_poll (p : Poller) (isOpen : Int → Bool) (timeout : Option Duration)
    (host : Table PollKey Registration → WaitAnswer) :
    (p.poll isOpen timeout host).calls.filter PollCall.isRegistration = (p.applied isOpen).1 := by
  rw [calls_poll, List.filter_append,
    List.filter_eq_self.2 fun c hc => isRegistration_of_mem_applied hc,
    List.filter_eq_nil_iff.2 fun c hc => by rw [isRegistration_of_mem_dispatch hc]; decide]
  exact List.append_nil _

theorem others_poll (p : Poller) (isOpen : Int → Bool) (timeout : Option Duration)
    (host : Table PollKey Registration → WaitAnswer) :
    ((p.poll isOpen timeout host).calls.filter fun c => !c.isRegistration) =
      dispatch (p.applied isOpen).2 (host (p.applied isOpen).2) := by
  rw [calls_poll, List.filter_append,
    List.filter_eq_nil_iff.2 fun c hc => by rw [isRegistration_of_mem_applied hc]; decide,
    List.filter_eq_self.2 fun c hc => by rw [isRegistration_of_mem_dispatch hc]; rfl]
  exact List.nil_append _

theorem throttle_poll (p : Poller) (isOpen : Int → Bool) (timeout : Option Duration)
    (host : Table PollKey Registration → WaitAnswer) :
    (p.poll isOpen timeout host).poller.throttle =
      if (dispatch (p.applied isOpen).2 (host (p.applied isOpen).2)).isEmpty then p.throttle - 1
      else throttlePolls := rfl

theorem entries_poll (p : Poller) (isOpen : Int → Bool) (timeout : Option Duration)
    (host : Table PollKey Registration → WaitAnswer) :
    (p.poll isOpen timeout host).poller.entries =
      (p.applied isOpen).2.filter fun key _ =>
        !((host (p.applied isOpen).2).reported key).invalid := rfl

/-- A poll leaves nothing in the queue. -/
theorem applied_poll (p : Poller) (isOpen isOpen' : Int → Bool) (timeout : Option Duration)
    (host : Table PollKey Registration → WaitAnswer) :
    (p.poll isOpen timeout host).poller.applied isOpen' =
      ([], (p.poll isOpen timeout host).poller.entries) := rfl

theorem result_of_ready {readiness : PollKey → Readiness}
    (h : host (p.applied isOpen).2 = .ready readiness) :
    (p.poll isOpen timeout host).result =
      .ok (dispatch (p.applied isOpen).2 (.ready readiness)).length := by
  simp only [poll, h]

theorem result_of_failed {cause : IoError} (h : host (p.applied isOpen).2 = .failed cause) :
    (p.poll isOpen timeout host).result =
      if cause.kind = .interrupted then .ok 0 else .error (.io cause) := by
  simp only [poll, h]

theorem mem_calls_iff {c : PollCall} (hc : c.isRegistration = false) :
    c ∈ (p.poll isOpen timeout host).calls ↔
      c.key ∈ (p.applied isOpen).2.keys ∧
        c ∈ callsFor c.key ((host (p.applied isOpen).2).reported c.key) := by
  rw [calls_poll, List.mem_append, ← mem_dispatch_iff]
  refine or_iff_right fun hregistration => ?_
  rw [isRegistration_of_mem_applied hregistration] at hc
  cases hc

theorem quiet_poll_iff :
    Quiet (p.poll isOpen timeout host).calls ↔
      dispatch (p.applied isOpen).2 (host (p.applied isOpen).2) = [] := by
  rw [← others_poll p isOpen timeout host, List.filter_eq_nil_iff]
  simp only [Quiet, Bool.not_eq_true, Bool.not_eq_false']

/-! ## What every step preserves -/

/-- A poller has got to where its history says. -/
structure Tracks (history : List PollerEvent) (p : Poller) : Prop where
  /-- Keys that have been given out are behind the next one. -/
  fresh : ∀ key ∈ addedKeys history, key < p.next
  nodup : (addedKeys history).Nodup
  enrolled : ∀ isOpen key r,
    (p.applied isOpen).2.get? key = some r ↔ Enrolled isOpen history key r
  told : ∀ isOpen, told history ++ (p.applied isOpen).1 = outcomes isOpen history
  throttle : ∀ k ≤ throttlePolls, p.throttle ≤ k ↔
    ∀ calls ∈ (pollsBack history).take (throttlePolls - k), Quiet calls

namespace Tracks

variable {history : List PollerEvent}

theorem start : Tracks [] {} where
  fresh _ h := nomatch h
  nodup := .nil
  enrolled isOpen key r := by
    refine ⟨nofun, ?_⟩
    rintro ⟨before, behind, hnil, -⟩
    exact absurd hnil.symm (List.append_ne_nil_of_right_ne_nil before (List.cons_ne_nil _ _))
  told _ := rfl
  throttle k _ := by
    refine iff_of_true (Nat.zero_le k) fun calls hcalls => ?_
    rw [show pollsBack [] = [] from rfl, List.take_nil] at hcalls
    cases hcalls

theorem add (h : p.Tracks history) (descriptor : Int) (interest : Interest) :
    (p.add descriptor interest).2.Tracks
      (history ++ [.added p.next ⟨descriptor, interest⟩]) where
  fresh key hkey := by
    rw [addedKeys_added] at hkey
    rcases List.mem_append.1 hkey with hkey | hkey
    · exact Nat.lt_succ_of_lt (h.fresh key hkey)
    · rw [List.mem_singleton.1 hkey]
      exact Nat.lt_succ_self _
  nodup := by
    rw [addedKeys_added]
    refine List.nodup_append.2 ⟨h.nodup, List.nodup_singleton _, fun key hkey key' hkey' => ?_⟩
    rw [List.mem_singleton.1 hkey']
    exact Nat.ne_of_lt (h.fresh key hkey)
  enrolled isOpen key r := by
    rw [applied_add, enrolled_concat, ← rejection?_eq_none_iff]
    have hold : (Enrolled isOpen history key r ∧ ¬ False) ↔
        (p.applied isOpen).2.get? key = some r :=
      (and_iff_left not_false).trans (h.enrolled isOpen key r).symm
    refine Iff.trans ?_ (or_congr Iff.rfl hold.symm)
    by_cases hvalid : rejection? isOpen descriptor = none
    · rw [if_pos (Option.isNone_iff_eq_none.2 hvalid), Table.get?_put]
      by_cases hkey : p.next = key
      · subst hkey
        have hnone : (p.applied isOpen).2.get? p.next ≠ some r := fun hget =>
          Nat.lt_irrefl _ (h.fresh _ ((h.enrolled isOpen _ r).1 hget).mem_addedKeys)
        rw [if_pos rfl]
        constructor
        · rintro ⟨⟩
          exact .inl ⟨rfl, hvalid⟩
        · rintro (⟨⟨⟩, -⟩ | hget)
          · rfl
          · exact absurd hget hnone
      · rw [if_neg hkey]
        refine ⟨.inr, ?_⟩
        rintro (⟨⟨⟩, -⟩ | hget)
        · exact absurd rfl hkey
        · exact hget
    · rw [if_neg (mt Option.isNone_iff_eq_none.1 hvalid)]
      refine ⟨.inr, ?_⟩
      rintro (⟨⟨⟩, hr⟩ | hget)
      · exact absurd hr hvalid
      · exact hget
  told isOpen := by
    rw [applied_add, told_of_none rfl, outcomes_concat, ← List.append_assoc, h.told]
    rfl
  throttle := by
    rw [pollsBack_of_none rfl]
    exact h.throttle

theorem remove (h : p.Tracks history) (key : PollKey) :
    (p.remove key).Tracks (history ++ [.removed key]) where
  fresh := by
    rw [addedKeys_of_none rfl]
    exact h.fresh
  nodup := by
    rw [addedKeys_of_none rfl]
    exact h.nodup
  enrolled isOpen key' r := by
    rw [applied_remove, enrolled_concat, Table.get?_erase]
    by_cases hkey : key = key'
    · rw [if_pos hkey]
      refine ⟨nofun, ?_⟩
      rintro (⟨⟨⟩, -⟩ | ⟨-, hkept⟩)
      exact absurd hkey hkept
    · rw [if_neg hkey, h.enrolled]
      refine ⟨fun henrolled => .inr ⟨henrolled, hkey⟩, ?_⟩
      rintro (⟨⟨⟩, -⟩ | ⟨henrolled, -⟩)
      exact henrolled
  told isOpen := by
    rw [applied_remove, told_of_none rfl, outcomes_concat, List.append_nil, h.told]
    exact (List.append_nil _).symm
  throttle := by
    rw [pollsBack_of_none rfl]
    exact h.throttle

theorem poll (h : p.Tracks history) (isOpen : Int → Bool) (timeout : Option Duration)
    (host : Table PollKey Registration → WaitAnswer) :
    (p.poll isOpen timeout host).poller.Tracks
      (history ++ [.polled isOpen (host (p.applied isOpen).2) (p.poll isOpen timeout host).calls])
      where
  fresh := by
    rw [addedKeys_of_none rfl]
    exact h.fresh
  nodup := by
    rw [addedKeys_of_none rfl]
    exact h.nodup
  enrolled isOpen' key r := by
    rw [enrolled_concat]
    refine Iff.trans ?_ (or_iff_right nofun).symm
    rw [applied_poll, entries_poll, Table.get?_filter, Option.filter_eq_some_iff, h.enrolled,
      Bool.not_eq_true']
    exact and_congr Iff.rfl (Bool.not_eq_true _).symm.to_iff
  told isOpen' := by
    rw [told_polled, registrations_poll, h.told, outcomes_concat]
    rfl
  throttle k hk := by
    rw [pollsBack_polled, throttle_poll]
    have hmost : p.throttle ≤ throttlePolls := by
      refine (h.throttle throttlePolls (Nat.le_refl _)).2 ?_
      rw [Nat.sub_self]
      exact List.forall_mem_nil _
    rcases Nat.eq_or_lt_of_le hk with rfl | hlt
    · rw [Nat.sub_self]
      refine iff_of_true ?_ (List.forall_mem_nil _)
      split <;> omega
    · have hrest : throttlePolls - k = throttlePolls - (k + 1) + 1 := by omega
      rw [hrest, List.take_succ_cons, List.forall_mem_cons, quiet_poll_iff, ← h.throttle _ hlt]
      by_cases hnone : dispatch (p.applied isOpen).2 (host (p.applied isOpen).2) = []
      · rw [if_pos (List.isEmpty_iff.2 hnone), Nat.sub_le_iff_le_add]
        exact (and_iff_right hnone).symm
      · rw [if_neg (mt List.isEmpty_iff.1 hnone)]
        exact iff_of_false (Nat.not_le.2 hlt) fun h => hnone h.1

end Tracks

theorem tracks_runAll (steps : List PollerStep) {history : List PollerEvent}
    (h : p.Tracks history) : (p.runAll steps).Tracks (history ++ p.history steps) := by
  induction steps generalizing p history with
  | nil =>
    rw [Poller.history, List.append_nil]
    exact h
  | cons s steps ih =>
    have hstep : (p.step s).Tracks (history ++ [p.event s]) := by
      cases s with
      | add descriptor interest => exact h.add descriptor interest
      | remove key => exact h.remove key
      | poll isOpen timeout host => exact h.poll isOpen timeout host
    rw [Poller.history, List.append_cons]
    exact ih hstep

/-- A poller that has got to where its history says goes on as it says. -/
theorem Tracks.follows {history : List PollerEvent} (h : p.Tracks history) (isOpen : Int → Bool)
    (timeout : Option Duration) (host : Table PollKey Registration → WaitAnswer) :
    (p.poll isOpen timeout host).Follows history isOpen timeout (host (p.applied isOpen).2) := by
  have hkeys (key : PollKey) : key ∈ (p.applied isOpen).2.keys ↔
      ∃ registration, Enrolled isOpen history key registration := by
    rw [Table.mem_keys_iff]
    exact exists_congr fun r => h.enrolled isOpen key r
  have hlimit : p.throttle ≤ 0 ↔
      ∀ calls ∈ (pollsBack history).take throttlePolls, Quiet calls :=
    h.throttle 0 (Nat.zero_le _)
  have hnodup : (outcomes isOpen history).Nodup := by
    refine List.Nodup.of_map PollCall.key ?_
    rw [map_key_outcomes]
    exact h.nodup
  rw [← h.told] at hnodup
  refine ⟨fun key r => ?_, ?_, fun key => ?_, fun key => ?_, ?_, fun n hn => ?_, fun e => ?_,
    fun hquiet => ?_, fun hbusy => ?_⟩
  · rw [entries_poll, Table.get?_filter, Option.filter_eq_some_iff, h.enrolled, Bool.not_eq_true']
  · rw [registrations_poll, h.told]
  · rw [mem_calls_iff rfl]
    exact and_congr (hkeys key) readable_mem_callsFor_iff
  · rw [mem_calls_iff rfl]
    exact and_congr (hkeys key) writable_mem_callsFor_iff
  · rw [calls_poll]
    refine List.nodup_append.2 ⟨(List.nodup_append.1 hnodup).2.1, nodup_dispatch, ?_⟩
    rintro c hc c' hc' rfl
    have hregistration := isRegistration_of_mem_applied hc
    rw [isRegistration_of_mem_dispatch hc'] at hregistration
    cases hregistration
  · rw [others_poll]
    cases hanswer : host (p.applied isOpen).2 with
    | ready readiness =>
      rw [result_of_ready hanswer] at hn
      exact (Except.ok.inj hn).symm
    | failed cause =>
      rw [result_of_failed hanswer] at hn
      by_cases hkind : cause.kind = .interrupted
      · rw [if_pos hkind] at hn
        rw [dispatch_failed]
        exact (Except.ok.inj hn).symm
      · rw [if_neg hkind] at hn
        cases hn
  · cases hanswer : host (p.applied isOpen).2 with
    | ready readiness =>
      rw [result_of_ready hanswer]
      exact ⟨nofun, nofun⟩
    | failed cause =>
      rw [result_of_failed hanswer]
      by_cases hkind : cause.kind = .interrupted
      · rw [if_pos hkind]
        refine ⟨nofun, ?_⟩
        rintro ⟨cause', ⟨⟩, hkind', -⟩
        exact absurd hkind hkind'
      · rw [if_neg hkind]
        constructor
        · rintro ⟨⟩
          exact ⟨cause, rfl, hkind, rfl⟩
        · rintro ⟨cause', ⟨⟩, -, rfl⟩
          rfl
  · exact if_pos (Nat.le_zero.1 (hlimit.2 hquiet))
  · refine if_neg fun hzero => ?_
    obtain ⟨calls, hcalls, hbusy⟩ := hbusy
    exact hbusy (hlimit.1 (Nat.le_of_eq hzero) calls hcalls)

/-- Keys are never reused, and every poll does what the history before it asks for; nothing is
wrong with a descriptor exactly if it is not negative and open.  Where keys have 64 bits, this is
about histories of fewer than `2 ^ 64` additions. -/
theorem polls_follow_history (steps : List PollerStep) :
    (addedKeys (history {} steps)).Nodup ∧
      (∀ isOpen timeout host,
        ((runAll {} steps).poll isOpen timeout host).Follows (history {} steps) isOpen timeout
          (host ((runAll {} steps).applied isOpen).2)) ∧
      ∀ isOpen descriptor,
        rejection? isOpen descriptor = none ↔ 0 ≤ descriptor ∧ isOpen descriptor = true := by
  have htracks : (runAll {} steps).Tracks (history {} steps) := tracks_runAll steps .start
  exact ⟨htracks.nodup, htracks.follows, fun _ _ => rejection?_eq_none_iff⟩

end Poller

end PvNet
