import PvNet.Proofs.Connection.Connecting
import PvNet.Proofs.Connection.Registration
set_option autoImplicit false

/-!
# The outcome of a validation and the users of a connection

A transport takes down every verdict that comes, so the outcome of the validation is
final exactly if all verdicts are alike (`pairwise_verifications_iff`).  The pool looks
at the outcome once, when it opens the connection.  Whoever gets the same connection
later gets it with the outcome that it has by then.
-/

namespace PvNet

namespace Transport

variable {t : Transport}

/-! ## The states of the validation -/

/-- The states that the validation goes through, the first one included. -/
def verifications : List TransportStep → Transport → List Verification
  | [], t => [t.verification]
  | step :: steps, t => t.verification :: verifications steps (step.run t).2

theorem verification_run (t : Transport) (step : TransportStep) :
    (step.run t).2.verification =
      ((t.heardVerdict? step).map Status.outcome).getD t.verification :=
  (stepped_run t step).verification

theorem mem_verdicts_cons {step : TransportStep} {steps : List TransportStep} {s : Status} :
    s ∈ verdicts (step :: steps) t ↔
      t.heardVerdict? step = some s ∨ s ∈ verdicts steps (step.run t).2 := by
  rw [verdicts_cons, List.mem_append, Option.mem_toList]

/-- The validation stands at one state throughout exactly if it does so at the start and every
verdict says so again. -/
theorem forall_verifications_iff {v : Verification} (steps : List TransportStep) (t : Transport) :
    (∀ w ∈ verifications steps t, w = v) ↔
      t.verification = v ∧ ∀ s ∈ verdicts steps t, s.outcome = v := by
  induction steps generalizing t with
  | nil => simp [verifications, verdicts]
  | cons step steps ih =>
    simp only [verifications, List.forall_mem_cons, ih, mem_verdicts_cons, verification_run]
    cases hverdict : t.heardVerdict? step with
    | none => simp
    | some s =>
      simp only [Option.map_some, Option.getD_some, Option.some.injEq, @eq_comm _ s,
        forall_eq_or_imp]

/-- Of two states, the earlier one is that of an open question or the later one is the same. -/
def Lasting (earlier later : Verification) : Prop := earlier = .pending ∨ later = earlier

theorem pairwise_of_ne_pending (hdone : t.verification ≠ .pending) (steps : List TransportStep) :
    (verifications steps t).Pairwise Lasting ↔
      ∀ s ∈ verdicts steps t, s.outcome = t.verification := by
  have hall := forall_verifications_iff (v := t.verification) steps t
  have hhead : ∃ rest, verifications steps t = t.verification :: rest := by
    cases steps with
    | nil => exact ⟨_, rfl⟩
    | cons step steps => exact ⟨_, rfl⟩
  obtain ⟨rest, hrest⟩ := hhead
  rw [hrest] at hall ⊢
  constructor
  · intro hpairwise
    have hsame : ∀ w ∈ rest, w = t.verification := fun w hw =>
      ((List.pairwise_cons.1 hpairwise).1 w hw).resolve_left hdone
    exact (hall.1 (List.forall_mem_cons.2 ⟨rfl, hsame⟩)).2
  · intro hverdicts
    have hsame := hall.2 ⟨rfl, hverdicts⟩
    exact List.pairwise_of_forall_mem_list fun v hv w hw =>
      .inr ((hsame w hw).trans (hsame v hv).symm)

/-- A validation that is still open comes to a final outcome exactly if all verdicts are alike. -/
theorem pairwise_verifications_iff (hpending : t.verification = .pending)
    (steps : List TransportStep) :
    (verifications steps t).Pairwise Lasting ↔
      ∀ s ∈ verdicts steps t, ∀ s' ∈ verdicts steps t, s.outcome = s'.outcome := by
  induction steps generalizing t with
  | nil => simp [verifications, verdicts]
  | cons step steps ih =>
    have hstep := verification_run t step
    have hopen : ∀ w ∈ verifications steps (step.run t).2, Lasting t.verification w :=
      fun w _ => .inl hpending
    rw [verifications, List.pairwise_cons, and_iff_right hopen]
    cases hverdict : t.heardVerdict? step with
    | none =>
      rw [hverdict] at hstep
      rw [ih (hstep.trans hpending)]
      simp only [mem_verdicts_cons, hverdict, reduceCtorEq, false_or]
    | some s =>
      rw [hverdict] at hstep
      have hdone : (step.run t).2.verification ≠ .pending := by
        rw [hstep]
        exact s.outcome_ne_pending
      rw [pairwise_of_ne_pending hdone, hstep]
      simp only [mem_verdicts_cons, hverdict, Option.some.injEq]
      constructor
      · intro hsame s₁ h₁ s₂ h₂
        have hall : ∀ s', s = s' ∨ s' ∈ verdicts steps (step.run t).2 → s'.outcome = s.outcome := by
          rintro s' (rfl | hs')
          · rfl
          · exact hsame s' hs'
        exact (hall s₁ h₁).trans (hall s₂ h₂).symm
      · intro halike s' hs'
        exact halike s' (.inr hs') s (.inl rfl)

end Transport

/-! ## The pool -/

/-- What can happen to the connections of a client. -/
inductive PoolStep where
  /-- Somebody gets a connection. -/
  | connect (c : Connector) (now : Instant) (client : Holder) (address : Endpoint) (priority : Int16)
    (listener : Listener)
  /-- Something happens to a transport. -/
  | happen (n : Nat) (step : TransportStep)
  /-- A transport is forgotten without being closed. -/
  | forget (n : Nat)

namespace TransportPool

variable {p : TransportPool} {n : Nat} {t : Transport}

def step (p : TransportPool) : PoolStep → TransportPool
  | .connect c now client address priority listener =>
    (p.connect c now client address priority listener).2.2
  | .happen n step => (p.update n fun t => step.run t).2
  | .forget n => (p.forget n).2

def run : List PoolStep → TransportPool → TransportPool
  | [], p => p
  | s :: steps, p => run steps (p.step s)

/-- What a step of the pool is to one of its transports. -/
def stepsOf (n : Nat) (p : TransportPool) : PoolStep → List TransportStep
  | .connect _ _ client address priority _ =>
    if (p.reuse? client address priority).map (·.1) = some n then [.acquire client] else []
  | .happen n' step => if n' = n then [step] else []
  | .forget _ => []

/-- What happens to one of the transports in the course of it all. -/
def traceOf (n : Nat) : List PoolStep → TransportPool → List TransportStep
  | [], _ => []
  | s :: steps, p => p.stepsOf n s ++ traceOf n steps (p.step s)

/-! ## One transport of the pool -/

/-- A transport of the pool goes through what is its own, and nothing else touches it. -/
theorem transports_step (h : p.transports[n]? = some t) (s : PoolStep) :
    (p.step s).transports[n]? = some (Transport.runAll (p.stepsOf n s) t).2 := by
  cases s with
  | connect c now client address priority listener =>
    have hconnects := connects_connect p c now client address priority listener
    show (p.connect c now client address priority listener).2.2.transports[n]? = _
    generalize p.connect c now client address priority listener = r at hconnects ⊢
    cases hconnects with
    | reused n' t' hregistered ht' hopen =>
      have hreuse := reuse?_of_open client hregistered ht' hopen
      simp only [stepsOf, hreuse, Option.map_some]
      by_cases hn : n' = n
      · subst hn
        rw [h] at ht'
        cases ht'
        obtain ⟨hlt, -⟩ := List.getElem?_eq_some_iff.1 h
        rw [if_pos rfl, List.getElem?_set_self hlt]
        rfl
      · rw [if_neg (by simp [hn]), List.getElem?_set_ne hn]
        exact h
    | opened t' activity locks hreuse hopen hverified hremote hpriority hheld hspared hlocks =>
      obtain ⟨hlt, -⟩ := List.getElem?_eq_some_iff.1 h
      have hnone : p.stepsOf n (.connect c now client address priority listener) = [] := by
        simp only [stepsOf, hreuse, Option.map_none, reduceCtorEq, if_false]
      rw [List.getElem?_append_left hlt, hnone]
      exact h
    | failed e activity ends registry locks hreuse hends hregistry htold hlocks =>
      have hnone : p.stepsOf n (.connect c now client address priority listener) = [] := by
        simp only [stepsOf, hreuse, Option.map_none, reduceCtorEq, if_false]
      rw [hnone]
      exact h
  | happen n' step =>
    show (p.update n' fun t => step.run t).2.transports[n]? = _
    by_cases hn : n' = n
    · subst hn
      rw [transports_update_self h, stepsOf, if_pos rfl]
      rfl
    · rw [transports_update_of_ne hn, stepsOf, if_neg hn]
      exact h
  | forget n' =>
    show (p.forget n').2.transports[n]? = _
    cases ht' : p.transports[n']? with
    | none =>
      simp only [forget, ht']
      exact h
    | some before =>
      simp only [forget, ht']
      exact h

theorem stepsOf_cases (p : TransportPool) (n : Nat) (s : PoolStep) :
    p.stepsOf n s = [] ∨ ∃ step, p.stepsOf n s = [step] := by
  cases s with
  | connect c now client address priority listener =>
    by_cases hreuse : (p.reuse? client address priority).map (·.1) = some n
    · exact .inr ⟨.acquire client, if_pos hreuse⟩
    · exact .inl (if_neg hreuse)
  | happen n' step =>
    by_cases hn : n' = n
    · exact .inr ⟨step, if_pos hn⟩
    · exact .inl (if_neg hn)
  | forget n' => exact .inl rfl

/-- At most one thing happens to a transport at a time, so that what is verified before stays so
exactly if no verdict says otherwise. -/
theorem isVerified_stepsOf_iff (hverified : t.isVerified = true) (s : PoolStep) :
    (Transport.runAll (p.stepsOf n s) t).2.isVerified = true ↔
      ∀ status ∈ Transport.verdicts (p.stepsOf n s) t, status.isSuccess = true := by
  have hone : ∀ step : TransportStep, (Transport.runAll [step] t).2.isVerified = true ↔
      ∀ status ∈ Transport.verdicts [step] t, status.isSuccess = true := by
    intro step
    have hstep : (Transport.runAll [step] t).2.verification = _ := t.verification_run step
    simp only [Transport.isVerified, decide_eq_true_iff, hstep, Transport.mem_verdicts_cons]
    have hkept : t.verification = .verified := of_decide_eq_true hverified
    cases t.heardVerdict? step with
    | none => simp [Transport.verdicts, hkept]
    | some status => simp [Transport.verdicts, Status.outcome_eq_verified_iff]
  have hnone : (Transport.runAll [] t).2.isVerified = true ↔
      ∀ status ∈ Transport.verdicts [] t, status.isSuccess = true := by
    simp [Transport.verdicts, hverified]
  rcases stepsOf_cases p n s with hsteps | ⟨step, hsteps⟩
  · rw [hsteps]
    exact hnone
  · rw [hsteps]
    exact hone step

/-- A verified transport of the pool stays verified exactly as long as no verdict says otherwise. -/
theorem isVerified_throughout_iff (h : p.transports[n]? = some t) (hverified : t.isVerified = true)
    (steps : List PoolStep) :
    (∀ before, before <+: steps →
        ∃ t', (run before p).transports[n]? = some t' ∧ t'.isVerified = true) ↔
      ∀ status ∈ Transport.verdicts (traceOf n steps p) t, status.isSuccess = true := by
  induction steps generalizing p t with
  | nil =>
    simp only [traceOf, Transport.verdicts, List.not_mem_nil, false_imp_iff, implies_true,
      iff_true, List.prefix_nil]
    rintro before rfl
    exact ⟨t, h, hverified⟩
  | cons s steps ih =>
    have hnext := transports_step h s
    have hiff := isVerified_stepsOf_iff (p := p) (n := n) hverified s
    rw [traceOf, Transport.verdicts_append]
    simp only [List.mem_append, or_imp, forall_and, ← hiff]
    constructor
    · intro hall
      obtain ⟨t', ht', hfirst⟩ := hall [s] (List.prefix_append [s] steps)
      have hsame : t' = _ := Option.some.inj (ht'.symm.trans hnext)
      rw [hsame] at hfirst
      refine ⟨hfirst, (ih hnext hfirst).1 fun before hbefore => ?_⟩
      exact hall (s :: before) (List.cons_prefix_cons.2 ⟨rfl, hbefore⟩)
    · rintro ⟨hfirst, hrest⟩ before hbefore
      rcases List.prefix_cons_iff.1 hbefore with rfl | ⟨before', rfl, hbefore'⟩
      · exact ⟨t, h, hverified⟩
      · exact (ih hnext hfirst).2 hrest before' hbefore'

/-- A connection that is handed out is open; if the pool had it before, its validation stands where
it stood, and if not, it is verified. -/
theorem handed_connect (p : TransportPool) {c : Connector} {now : Instant} {client : Holder}
    {address : Endpoint} {priority : Int16} {listener : Listener}
    (h : (p.connect c now client address priority listener).1 = .ok n) :
    ∃ t, (p.connect c now client address priority listener).2.2.transports[n]? = some t ∧
      t.closed = false ∧
      t.verification = ((p.transports[n]?).map (·.verification)).getD .verified := by
  have hconnects := connects_connect p c now client address priority listener
  generalize p.connect c now client address priority listener = r at h hconnects ⊢
  cases hconnects with
  | reused n' t' hregistered ht' hopen =>
    cases h
    obtain ⟨hlt, -⟩ := List.getElem?_eq_some_iff.1 ht'
    refine ⟨(t'.acquire client).2, List.getElem?_set_self hlt, ?_, ?_⟩
    · unfold Transport.acquire
      rw [if_neg (by simp [hopen])]
      exact hopen
    · rw [ht']
      exact (t'.quiet_acquire client).verification
  | opened t' activity locks hreuse hopen hverified hremote hpriority hheld hspared hlocks =>
    cases h
    refine ⟨t', List.getElem?_concat_length, hopen, ?_⟩
    rw [List.getElem?_eq_none (Nat.le_refl _)]
    exact hverified
  | failed e activity ends registry locks hreuse hends hregistry htold hlocks => cases h

/-- The outcome of a validation that is still open comes to stay exactly if all verdicts are alike.
A connection is handed out verified if it is new and as it stands if it is not, and one that was
handed out verified is verified from then on exactly if every later verdict accepts it. -/
theorem outcome_lasting_iff {t : Transport} (hpending : t.verification = .pending)
    (steps : List TransportStep) {p : TransportPool} {c : Connector} {now : Instant}
    {client : Holder} {address : Endpoint} {priority : Int16} {listener : Listener} {n : Nat}
    (hconnect : (p.connect c now client address priority listener).1 = .ok n) :
    ((Transport.verifications steps t).Pairwise Transport.Lasting ↔
      ∀ s ∈ Transport.verdicts steps t, ∀ s' ∈ Transport.verdicts steps t,
        s.outcome = s'.outcome) ∧
    let handed := (p.connect c now client address priority listener).2.2
    ∃ t, handed.transports[n]? = some t ∧ t.closed = false ∧
      t.verification = ((p.transports[n]?).map (·.verification)).getD .verified ∧
      ∀ steps, t.isVerified = true →
        ((∀ before, before <+: steps →
            ∃ t', (run before handed).transports[n]? = some t' ∧ t'.isVerified = true) ↔
          ∀ s ∈ Transport.verdicts (traceOf n steps handed) t, s.isSuccess = true) := by
  refine ⟨Transport.pairwise_verifications_iff hpending steps, ?_⟩
  intro handed
  obtain ⟨t, ht, hopen, hverification⟩ := handed_connect p hconnect
  exact ⟨t, ht, hopen, hverification, fun steps hverified =>
    isVerified_throughout_iff ht hverified steps⟩

/-- A connection on which the server accepts again what it has accepted stays verified. -/
theorem accepted_again_lasting :
    let first := ({} : TransportPool).connect {} 0 ⟨1, 0⟩ (.any 0) 0 (.serving {})
    let again : PoolStep := .happen 0 (.take 0 (acceptanceMessage {}))
    (Transport.verifications [.take 0 (acceptanceMessage {}), .take 0 (acceptanceMessage {})]
        (.client (.any 0) 0 {} none)).Pairwise Transport.Lasting ∧
      first.1 = .ok 0 ∧
        ∀ before, before <+: [again] →
          ∃ t', (run before first.2.2).transports[0]? = some t' ∧ t'.isVerified = true := by
  intro first again
  have hadmits : ({} : Connector).transport.Admits {} := ⟨by decide, by decide, by decide⟩
  have hfirst : ({} : TransportPool).connect {} 0 ⟨1, 0⟩ (.any 0) 0 (.serving {}) = _ :=
    connect_serving hadmits rfl rfl 0
  have hresult : first.1 = .ok 0 := congrArg Prod.fst hfirst
  obtain ⟨hpending, t, ht, -, -, hlasting⟩ := outcome_lasting_iff
    (t := .client (.any 0) 0 {} none) rfl
    [.take 0 (acceptanceMessage {}), .take 0 (acceptanceMessage {})] hresult
  refine ⟨hpending.2 ?_, hresult, ?_⟩
  · have hverdicts : Transport.verdicts [.take 0 (acceptanceMessage {}), .take 0
        (acceptanceMessage {})] (.client (.any 0) 0 {} none) = [.ok, .ok] := rfl
    rw [hverdicts]
    decide
  · refine (hlasting [again] ?_).2 fun s hs => ?_
    · rw [hfirst] at ht
      cases ht
      rfl
    · rw [hfirst] at ht hs
      cases ht
      have hmem : s ∈ [Status.ok] := hs
      rw [List.mem_singleton.1 hmem]
      rfl

/-- A server takes back that it accepts the connection. -/
def denial : Message :=
  .application Command.validated .big true ((Status.error "denied").encode .big)

/-- A connection that was handed out verified is not verified any more when the server takes it
back, and the next user gets it all the same. -/
theorem denied_and_reused :
    let first := ({} : TransportPool).connect {} 0 ⟨1, 0⟩ (.any 0) 0 (.serving {})
    let denied := first.2.2.step (.happen 0 (.take 0 denial))
    let second := denied.connect {} 0 ⟨2, 0⟩ (.any 0) 0 (.serving {})
    (first.1 = .ok 0 ∧ first.2.2.transports.map (·.isVerified) = [true]) ∧
      second.1 = .ok 0 ∧ second.2.2.transports.map (·.isVerified) = [false] ∧
        second.2.2.transports.map (·.closed) = [false] ∧
        second.2.2.registry.get? (.any 0) 0 = some 0 := by
  have hadmits : ({} : Connector).transport.Admits {} := ⟨by decide, by decide, by decide⟩
  have hfirst : ({} : TransportPool).connect {} 0 ⟨1, 0⟩ (.any 0) 0 (.serving {}) = _ :=
    connect_serving hadmits rfl rfl 0
  rw [hfirst]
  exact ⟨⟨rfl, rfl⟩, rfl, rfl, rfl, rfl⟩

end TransportPool

end PvNet
