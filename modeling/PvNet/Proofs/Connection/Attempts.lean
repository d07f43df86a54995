import Mathlib.Logic.ExistsUnique
import PvNet.Connection.Dialing
set_option autoImplicit false

/-!
# How dialling ends

An attempt settles the matter if it succeeds or fails in a way in which every other attempt would
fail too.  Dialling makes attempts up to the first one that settles the matter, or up to the last
one that is allowed; its result is that of this attempt, and between two attempts there is one
pause (`Dialing.EndsAt`).

`Dialing.attempts` is told how the attempt before failed, which is its result if no attempt is left.
Where one is left, the result is that of an attempt (`Dialing.exists_endsAt_attempts`).
-/

namespace PvNet

namespace Dialing

variable {α : Type}

/-! ## Attempts -/

/-- What the system answers to an attempt settles the matter: it gives a connection, or it fails
because of what it is asked for. -/
inductive Settles : Except IoError α → Prop where
  | connected (a : α) : Settles (.ok a)
  | refused (e : IoError) (hkind : e.kind ∈ [.invalidInput, .unsupported, .permissionDenied]) :
    Settles (.error e)

theorem isTransient_iff_not_settles {e : IoError} :
    e.kind.isTransient ↔ ¬ Settles (.error e : Except IoError α) := by
  have hkind : e.kind.isTransient ↔ e.kind ∉ [.invalidInput, .unsupported, .permissionDenied] := by
    simp [IoKind.isTransient, and_assoc]
  rw [hkind]
  refine not_congr ⟨.refused e, ?_⟩
  rintro ⟨⟩
  assumption

variable {c : ConnectorConfig} {address : Endpoint} {failed : Option IoError}
  {answer : Nat → Except IoError α} {left : Nat} {d : Dialing α}

theorem attempts_of_ok {a : α} (h : answer 0 = .ok a) :
    attempts c address failed answer (left + 1) =
      ⟨.ok a, [.attempt address c.connectTimeout]⟩ := by
  rw [attempts, h]
  rfl

/-- The address that a failed attempt names is of no account. -/
theorem attempts_of_error {e : IoError} (h : answer 0 = .error e) :
    attempts c address failed answer (left + 1) =
      if e.kind.isTransient then
        let pauses := if 0 < left then [.pause c.retryDelay] else []
        let rest := attempts c address (some e) (fun i => answer (i + 1)) left
        ⟨rest.result, .attempt address c.connectTimeout :: pauses ++ rest.steps⟩
      else ⟨.error e, [.attempt address c.connectTimeout]⟩ := by
  rw [attempts, h]
  rfl

theorem attempts_of_settles (h : Settles (answer 0)) :
    attempts c address failed answer (left + 1) =
      ⟨answer 0, [.attempt address c.connectTimeout]⟩ := by
  generalize hanswer : answer 0 = r at h
  cases h with
  | connected a => exact attempts_of_ok hanswer
  | refused e hkind =>
    rw [attempts_of_error hanswer, if_neg]
    exact fun ht => isTransient_iff_not_settles.1 ht (.refused (α := α) e hkind)

theorem exists_error_of_not_settles (h : ¬ Settles (answer 0)) :
    ∃ e, answer 0 = .error e ∧ e.kind.isTransient := by
  cases hanswer : answer 0 with
  | ok a => exact absurd (hanswer ▸ .connected a) h
  | error e => exact ⟨e, rfl, isTransient_iff_not_settles.2 (hanswer ▸ h)⟩

/-- The last attempt that is left decides, whatever comes of it. -/
theorem attempts_one :
    attempts c address failed answer 1 = ⟨answer 0, [.attempt address c.connectTimeout]⟩ := by
  by_cases hsettled : Settles (answer 0)
  · exact attempts_of_settles hsettled
  · obtain ⟨e, hanswer, ht⟩ := exists_error_of_not_settles hsettled
    rw [attempts_of_error hanswer, if_pos ht, hanswer]
    rfl

/-- Behind an attempt that does not settle the matter there is a pause, and then the next one, for
which it does not matter how the attempt failed. -/
theorem attempts_of_not_settles (h : ¬ Settles (answer 0)) :
    attempts c address failed answer (left + 2) =
      let rest := attempts c address none (fun i => answer (i + 1)) (left + 1)
      ⟨rest.result, .attempt address c.connectTimeout :: .pause c.retryDelay :: rest.steps⟩ := by
  obtain ⟨e, hanswer, ht⟩ := exists_error_of_not_settles h
  rw [attempts_of_error hanswer, if_pos ht, if_pos (Nat.succ_pos left)]
  -- Where an attempt is left, the failure before is not looked at: `some e` may as well be `none`.
  rfl

/-! ## The end -/

/-- Dialling ends with attempt number `last`, where `allowed` attempts are allowed. -/
structure EndsAt (d : Dialing α) (c : ConnectorConfig) (address : Endpoint)
    (answer : Nat → Except IoError α) (allowed last : Nat) : Prop where
  lt_allowed : last < allowed
  /-- No attempt before settles the matter. -/
  before : ∀ i < last, ¬ Settles (answer i)
  /-- This one does, or there is no other one that is allowed. -/
  ended : Settles (answer last) ∨ last + 1 = allowed
  result : d.result = answer last
  /-- There is one pause between an attempt and the next one, and no other pause. -/
  steps : d.steps =
    (List.replicate (last + 1) (.attempt address c.connectTimeout)).intersperse (.pause c.retryDelay)

theorem EndsAt.last_le {d' : Dialing α} {allowed m n : Nat}
    (hm : d.EndsAt c address answer allowed m) (hn : d'.EndsAt c address answer allowed n) :
    n ≤ m := by
  rcases hm.ended with hsettled | hlast
  · exact Nat.le_of_not_lt fun hlt => hn.before m hlt hsettled
  · exact Nat.le_of_lt_succ (Nat.lt_of_lt_of_eq hn.lt_allowed hlast.symm)

/-- The answers and the number of attempts that are allowed determine the last attempt. -/
theorem EndsAt.last_unique {d' : Dialing α} {allowed m n : Nat}
    (hm : d.EndsAt c address answer allowed m) (hn : d'.EndsAt c address answer allowed n) :
    m = n := Nat.le_antisymm (hn.last_le hm) (hm.last_le hn)

theorem endsAt_zero {allowed : Nat} (hallowed : 0 < allowed)
    (hended : Settles (answer 0) ∨ 1 = allowed) :
    EndsAt ⟨answer 0, [.attempt address c.connectTimeout]⟩ c address answer allowed 0 where
  lt_allowed := hallowed
  before i hi := absurd hi (Nat.not_lt_zero i)
  ended := hended
  result := rfl
  steps := rfl

/-- One more attempt in front, which does not settle the matter, and a pause behind it. -/
theorem EndsAt.succ {allowed last : Nat} (h : ¬ Settles (answer 0))
    (hrest : d.EndsAt c address (fun i => answer (i + 1)) allowed last) :
    EndsAt ⟨d.result, .attempt address c.connectTimeout :: .pause c.retryDelay :: d.steps⟩ c address
      answer (allowed + 1) (last + 1) where
  lt_allowed := Nat.succ_lt_succ hrest.lt_allowed
  before
    | 0, _ => h
    | i + 1, hi => hrest.before i (Nat.lt_of_succ_lt_succ hi)
  ended := hrest.ended.imp_right (congrArg Nat.succ)
  result := hrest.result
  steps := by
    rw [hrest.steps, List.replicate_succ (n := last + 1), List.replicate_succ,
      List.intersperse_cons_cons]

/-- If an attempt is left, dialling ends with one. -/
theorem exists_endsAt_attempts (c : ConnectorConfig) (address : Endpoint) (failed : Option IoError)
    (answer : Nat → Except IoError α) (left : Nat) :
    ∃ last, (attempts c address failed answer (left + 1)).EndsAt c address answer (left + 1) last := by
  -- The answers move on with every attempt.
  induction left generalizing failed answer with
  | zero =>
    rw [attempts_one]
    exact ⟨0, endsAt_zero Nat.one_pos (.inr rfl)⟩
  | succ left ih =>
    by_cases hsettled : Settles (answer 0)
    · rw [attempts_of_settles hsettled]
      exact ⟨0, endsAt_zero (Nat.succ_pos _) (.inl hsettled)⟩
    · obtain ⟨last, hrest⟩ := ih none fun i => answer (i + 1)
      rw [attempts_of_not_settles hsettled]
      exact ⟨last + 1, hrest.succ hsettled⟩

theorem exists_endsAt_run (c : ConnectorConfig) (address : Endpoint)
    (answer : Nat → Except IoError α) :
    ∃ last, (run c address answer).EndsAt c address answer (max c.tries 1) last := by
  obtain ⟨left, hleft⟩ := Nat.exists_eq_add_of_lt (Nat.le_max_right c.tries 1)
  rw [run, hleft, Nat.zero_add]
  exact exists_endsAt_attempts c address none answer left

/-- Where the system always answers the same, this is the result. -/
theorem result_run_of_const {r : Except IoError α} (c : ConnectorConfig) (address : Endpoint) :
    (run c address fun _ => r).result = r := by
  obtain ⟨last, hends⟩ := exists_endsAt_run c address fun _ => r
  exact hends.result

/-- Dialling makes attempts up to the first that succeeds, the first that fails for good or the last
that is allowed, whichever comes first.  Its result is that of the last attempt made, and it
pauses once between two attempts. -/
theorem run_endsAt_last (c : ConnectorConfig) (address : Endpoint)
    (answer : Nat → Except IoError α) :
    ∃! last, (run c address answer).EndsAt c address answer (max c.tries 1) last := by
  obtain ⟨last, hends⟩ := exists_endsAt_run c address answer
  exact ⟨last, hends, fun _ hother => hother.last_unique hends⟩

/-- The second attempt is refused for good, so the third one is not made. -/
example (address : Endpoint) :
    let answer (i : Nat) : Except IoError Unit :=
      if i = 0 then .error ⟨.timedOut, none⟩ else .error ⟨.permissionDenied, none⟩
    let d := run {} address answer
    d.result = .error ⟨.permissionDenied, none⟩ ∧
      d.steps = [.attempt address (.ofSeconds 5), .pause (.ofMillis 100),
        .attempt address (.ofSeconds 5)] :=
  ⟨rfl, rfl⟩

end Dialing

end PvNet
