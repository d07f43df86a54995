import PvNet.PeriodicTask
import PvNet.Proofs.History
set_option autoImplicit false

/-!
# Wake-ups that are not lost

Callers and the worker of a task take turns in any order.  A caller that wakes the task sets a flag
first and notifies the worker afterwards, and the worker may do anything in between: check for a
stop, run the callback, look whether its wait is over, block.  `TaskSystem.Reaches` is what can
come of that, and `TaskSystem.Heeds` what can be read off the history of it
(`TaskSystem.Reaches.heeds`).

A wake is not lost because the worker blocks only if it finds the flag clear, and clears it only
on its way to the callback (`PeriodicTask.NearsRun`).
-/

namespace PvNet

/-! ## Histories -/

/-- What a caller or the worker of a task does without being interrupted. -/
inductive TaskStep where
  | setWoken
  | setStopped
  | notify
  | letGo
  | check
  | start
  | finish (now : Instant) (delay : Option Duration)
  | poll (now : Instant)
  /-- The deadline has come, or the worker gets going for no reason. -/
  | resume
  deriving DecidableEq

namespace TaskStep

/-- Whether it is the worker that takes the step. -/
def isWorkers : TaskStep → Bool
  | setWoken | setStopped | notify | letGo => false
  | check | start | finish _ _ | poll _ | resume => true

/-- Whether the worker looks at the flag of a stop. -/
def looks : TaskStep → Bool
  | check | poll _ => true
  | _ => false

/-- A wake has set its flag, and the callback has not been started since. -/
def WakeBegun (history : List TaskStep) : Prop := StandsIn history (· = setWoken) (· ≠ start)

/-- A wake has set its flag since the worker last looked whether its wait was over. -/
def WokenSincePoll (history : List TaskStep) : Prop :=
  StandsIn history (· = setWoken) fun later => ∀ now, later ≠ poll now

/-- The callback last returned a delay, at some moment. -/
def WaitsSince (history : List TaskStep) (since : Instant) (delay : Duration) : Prop :=
  StandsIn history (· = finish since (some delay)) fun later => ∀ now d, later ≠ finish now d

/-- A flag has been set, the worker notified of it, and whatever came behind the flag was of a
certain kind. -/
def Told (history : List TaskStep) (flag : TaskStep) (kept : TaskStep → Prop) : Prop :=
  ∃ before behind, history = before ++ flag :: behind ∧ notify ∈ behind ∧
    ∀ later ∈ behind, kept later

/-- The worker has noticed a stop, or the callback has returned that the task is over. -/
def Over (history : List TaskStep) : Prop :=
  (∃ now, finish now none ∈ history) ∨
    ∃ before behind, history = before ++ setStopped :: behind ∧ ∃ later ∈ behind, later.looks = true

/-- A call that stops the task has returned. -/
def StopMade (history : List TaskStep) : Prop :=
  ∃ before behind, history = before ++ setStopped :: behind ∧ notify ∈ behind ∧ letGo ∈ behind

theorem over_concat {history : List TaskStep} {step : TaskStep} (hover : Over (history ++ [step])) :
    Over history ∨ (∃ now, step = finish now none) ∨
      (setStopped ∈ history ∧ step.looks = true) := by
  rcases hover with ⟨now, hfinish⟩ | hlooked
  · rcases List.mem_append.1 hfinish with hfinish | hfinish
    · exact .inl (.inl ⟨now, hfinish⟩)
    · exact .inr (.inl ⟨now, (List.mem_singleton.1 hfinish).symm⟩)
  · rcases exists_split_concat (P := fun _ first behind => first = setStopped ∧
      ∃ later ∈ behind, later.looks = true) |>.1 (by simpa using hlooked) with
      ⟨-, later, hlater, -⟩ | ⟨before, flag, behind, rfl, rfl, later, hlater, hlooks⟩
    · exact absurd hlater List.not_mem_nil
    · rcases List.mem_append.1 hlater with hlater | hlater
      · exact .inl (.inr ⟨before, behind, rfl, later, hlater, hlooks⟩)
      · exact .inr (.inr ⟨by simp, List.mem_singleton.1 hlater ▸ hlooks⟩)

/-- Being told lasts as long as what has to be kept is. -/
theorem told_concat {history : List TaskStep} {step flag : TaskStep} {kept : TaskStep → Prop}
    (htold : Told (history ++ [step]) flag kept) :
    StandsIn history (· = flag) kept ∧ (step = notify ∨ Told history flag kept) := by
  rcases exists_split_concat (P := fun _ first behind => first = flag ∧ notify ∈ behind ∧
    ∀ later ∈ behind, kept later) |>.1 (by simpa [Told] using htold) with
    ⟨-, hnotify, -⟩ | ⟨before, flag, behind, hhistory, rfl, hnotify, hkept⟩
  · exact absurd hnotify List.not_mem_nil
  · obtain ⟨hbehind, -⟩ := List.forall_mem_append.1 hkept
    refine ⟨⟨before, flag, behind, hhistory, rfl, hbehind⟩, ?_⟩
    rcases List.mem_append.1 hnotify with hnotify | hnotify
    · exact .inr ⟨before, behind, hhistory, hnotify, hbehind⟩
    · exact .inl (List.mem_singleton.1 hnotify).symm

end TaskStep

/-- A task with those who call it. -/
structure TaskSystem where
  task : PeriodicTask := {}
  /-- How many callers have set a flag and not notified the worker yet. -/
  owed : Nat := 0

/-- A caller notifies the worker after setting a flag, and the worker does what it is about to. -/
inductive TaskSystem.Moves : TaskSystem → TaskStep → TaskSystem → Prop where
  | setWoken {s : TaskSystem} : Moves s .setWoken ⟨s.task.setWoken, s.owed + 1⟩
  | setStopped {s : TaskSystem} : Moves s .setStopped ⟨s.task.setStopped, s.owed + 1⟩
  | notify {task : PeriodicTask} {owed : Nat} : Moves ⟨task, owed + 1⟩ .notify ⟨task.notify, owed⟩
  | letGo {s : TaskSystem} : Moves s .letGo ⟨s.task.letGo, s.owed⟩
  | check {s : TaskSystem} (hphase : s.task.phase = .checking) :
      Moves s .check ⟨s.task.check, s.owed⟩
  | start {s : TaskSystem} (hphase : s.task.phase = .starting) :
      Moves s .start ⟨s.task.start, s.owed⟩
  | finish {s : TaskSystem} {now : Instant} {delay : Option Duration}
      (hphase : s.task.phase = .running) :
      Moves s (.finish now delay) ⟨s.task.finish now delay, s.owed⟩
  | poll {s : TaskSystem} {now deadline : Instant} (hphase : s.task.phase = .waiting deadline) :
      Moves s (.poll now) ⟨s.task.poll now, s.owed⟩
  | resume {s : TaskSystem} {deadline : Instant} (hphase : s.task.phase = .blocked deadline) :
      Moves s .resume ⟨s.task.resume, s.owed⟩

/-- What callers and the worker have done, and what has come of it. -/
inductive TaskSystem.Reaches : List TaskStep → TaskSystem → Prop where
  | nil : Reaches [] {}
  | concat {history : List TaskStep} {s s' : TaskSystem} {step : TaskStep}
      (hreaches : Reaches history s) (hmoves : s.Moves step s') : Reaches (history ++ [step]) s'

/-- What a history promises of the task. -/
structure TaskSystem.Heeds (history : List TaskStep) (s : TaskSystem) : Prop where
  /-- A wake that has returned does not leave the worker blocked before it has started the callback
  once more. -/
  awake : TaskStep.Told history .setWoken (· ≠ .start) → ∀ deadline, s.task.phase ≠ .blocked deadline
  /-- From the moment that the flag is set the worker does not begin to block, and if it was blocked
  then it will still be notified. -/
  not_lost : TaskStep.WakeBegun history →
    (∀ deadline, s.task.phase = .blocked deadline → 0 < s.owed) ∧
      ∀ deadline now, s.task.phase = .waiting deadline →
        ∀ later, (s.task.poll now).phase ≠ .blocked later
  /-- The worker takes no more than three steps before it starts the callback once more, unless it
  ends. -/
  runs_soon : ∀ before behind, history = before ++ .setWoken :: behind → .start ∉ behind →
    s.task.phase = .ended ∨ behind.countP TaskStep.isWorkers ≤ 3
  /-- A wait that is looked at ends the task if there was a stop; else it is over if its delay has
  passed or if there were wakes since a wait was last looked at, no matter how many; else the worker
  blocks. -/
  wait_iff : ∀ deadline now, s.task.phase = .waiting deadline →
    ∃ since delay, TaskStep.WaitsSince history since delay ∧
      ((s.task.poll now).phase = .ended ↔ .setStopped ∈ history) ∧
      ((s.task.poll now).phase = .checking ↔ .setStopped ∉ history ∧
        (TaskStep.WokenSincePoll history ∨ since + delay.nanoseconds ≤ now)) ∧
      ((s.task.poll now).phase = .blocked deadline ↔ .setStopped ∉ history ∧
        ¬ TaskStep.WokenSincePoll history ∧ now < since + delay.nanoseconds)
  /-- Once a stop has been noticed or the callback has returned that the task is over, the callback
  is not started again. -/
  no_more : (∀ before behind, history = before ++ .start :: behind → ¬ TaskStep.Over before) ∧
    (TaskStep.Over history → s.task.phase = .ended)
  /-- After one stop, another one changes nothing, whichever part of it comes when. -/
  stop_again : TaskStep.StopMade history →
    s.task.setStopped = s.task ∧ s.task.notify = s.task ∧ s.task.letGo = s.task

/-! ## Single steps of the worker -/

namespace PeriodicTask

variable {t : PeriodicTask} {now deadline : Instant}

theorem check_eq (hphase : t.phase = .checking) :
    t.check = { t with phase := if t.stopped then .ended else .starting } := by
  simp only [check, hphase]

theorem start_eq (hphase : t.phase = .starting) :
    t.start = { t with phase := .running, runs := t.runs + 1 } := by
  simp only [start, hphase]

/-- The worker waits as long as the callback says, or ends if that is over or too long for the
clock. -/
theorem finish_cases (now : Instant) (delay : Option Duration) (hphase : t.phase = .running) :
    (∃ d, delay = some d ∧ now.after? d = some (now + d.nanoseconds) ∧
      t.finish now delay = { t with phase := .waiting (now + d.nanoseconds) }) ∨
    (delay.bind now.after? = none ∧ t.finish now delay = { t with phase := .ended }) := by
  simp only [finish, hphase]
  cases delay with
  | none => exact .inr ⟨rfl, rfl⟩
  | some d =>
    by_cases hnear : now + d.nanoseconds < UInt64.size / 2 * Duration.perSecond
    · exact .inl ⟨d, rfl, by simp [Instant.after?, hnear]⟩
    · exact .inr (by simp [Instant.after?, hnear])

/-- A wait that is looked at ends with the task, is cut short, is over, or goes on. -/
theorem poll_cases (now : Instant) (hphase : t.phase = .waiting deadline) :
    (t.stopped = true ∧ t.poll now = { t with phase := .ended }) ∨
    (t.stopped = false ∧ t.woken = true ∧
      t.poll now = { t with woken := false, phase := .checking }) ∨
    (t.stopped = false ∧ t.woken = false ∧ deadline ≤ now ∧
      t.poll now = { t with phase := .checking }) ∨
    (t.stopped = false ∧ t.woken = false ∧ now < deadline ∧
      t.poll now = { t with phase := .blocked deadline }) := by
  simp only [poll, hphase]
  cases t.stopped <;> cases t.woken <;> by_cases hdeadline : deadline ≤ now <;>
    simp [hdeadline, Nat.not_le.1]

/-- The worker is on its way to the callback, or has ended. -/
def NearsRun (t : PeriodicTask) : Prop :=
  t.woken = true ∨ t.phase = .checking ∨ t.phase = .starting ∨ t.phase = .ended

theorem NearsRun.poll_ne_blocked (hnears : t.NearsRun) (hphase : t.phase = .waiting deadline)
    (later : Instant) : (t.poll now).phase ≠ .blocked later := by
  rcases poll_cases now hphase with ⟨-, hpoll⟩ | ⟨-, -, hpoll⟩ | ⟨-, -, -, hpoll⟩ | ⟨-, hwoken, -⟩
  · simp [hpoll]
  · simp [hpoll]
  · simp [hpoll]
  · simp [NearsRun, hphase, hwoken] at hnears

end PeriodicTask

namespace TaskPhase

/-- How many more steps the worker takes before it is about to start the callback. -/
def distance : TaskPhase → Nat
  | starting | ended => 0
  | checking => 1
  | waiting _ => 2
  | running | blocked _ => 3

/-- Until when the worker waits. -/
def deadline? : TaskPhase → Option Instant
  | waiting deadline | blocked deadline => some deadline
  | checking | starting | running | ended => none

variable (phase : TaskPhase)

theorem distance_le : phase.distance ≤ 3 := by
  cases phase <;> simp [distance]

theorem resumed_ne_blocked (deadline : Instant) : phase.resumed ≠ .blocked deadline := by
  cases phase <;> simp [resumed]

theorem distance_resumed_le : phase.resumed.distance ≤ phase.distance := by
  cases phase <;> simp [resumed, distance]

theorem deadline?_resumed : phase.resumed.deadline? = phase.deadline? := by
  cases phase <;> rfl

theorem resumed_of_ne_blocked {phase : TaskPhase}
    (hblocked : ∀ deadline, phase ≠ .blocked deadline) : phase.resumed = phase := by
  cases phase with
  | blocked deadline => exact absurd rfl (hblocked deadline)
  | _ => rfl

/-- A worker that does not wait has nothing to be got going from. -/
theorem resumed_eq_iff {phase' : TaskPhase} (hdeadline : phase'.deadline? = none) :
    phase.resumed = phase' ↔ phase = phase' := by
  cases phase <;> cases phase' <;> simp [resumed, deadline?] at hdeadline ⊢

end TaskPhase

/-! ## What one step does -/

namespace TaskSystem

/-- Everything that a step can make of a task. -/
inductive Turns : TaskSystem → TaskStep → TaskSystem → Prop where
  | woken {t : PeriodicTask} {owed : Nat} :
      Turns ⟨t, owed⟩ .setWoken ⟨{ t with woken := true }, owed + 1⟩
  | stopped {t : PeriodicTask} {owed : Nat} :
      Turns ⟨t, owed⟩ .setStopped ⟨{ t with stopped := true }, owed + 1⟩
  | notified {t : PeriodicTask} {owed : Nat} :
      Turns ⟨t, owed + 1⟩ .notify ⟨{ t with phase := t.phase.resumed }, owed⟩
  | released {t : PeriodicTask} {owed : Nat} :
      Turns ⟨t, owed⟩ .letGo ⟨{ t with held := false }, owed⟩
  | passes {t : PeriodicTask} {owed : Nat} (hphase : t.phase = .checking)
      (hstopped : t.stopped = false) :
      Turns ⟨t, owed⟩ .check ⟨{ t with phase := .starting }, owed⟩
  | stopsChecking {t : PeriodicTask} {owed : Nat} (hphase : t.phase = .checking)
      (hstopped : t.stopped = true) :
      Turns ⟨t, owed⟩ .check ⟨{ t with phase := .ended }, owed⟩
  | starts {t : PeriodicTask} {owed : Nat} (hphase : t.phase = .starting) :
      Turns ⟨t, owed⟩ .start ⟨{ t with phase := .running, runs := t.runs + 1 }, owed⟩
  | waits {t : PeriodicTask} {owed : Nat} {now : Instant} {delay : Duration}
      (hphase : t.phase = .running)
      (hdelay : now.after? delay = some (now + delay.nanoseconds)) :
      Turns ⟨t, owed⟩ (.finish now (some delay))
        ⟨{ t with phase := .waiting (now + delay.nanoseconds) }, owed⟩
  | quits {t : PeriodicTask} {owed : Nat} {now : Instant} {delay : Option Duration}
      (hphase : t.phase = .running) (hdelay : delay.bind now.after? = none) :
      Turns ⟨t, owed⟩ (.finish now delay) ⟨{ t with phase := .ended }, owed⟩
  | stopsWaiting {t : PeriodicTask} {owed : Nat} {now deadline : Instant}
      (hphase : t.phase = .waiting deadline) (hstopped : t.stopped = true) :
      Turns ⟨t, owed⟩ (.poll now) ⟨{ t with phase := .ended }, owed⟩
  | cutShort {t : PeriodicTask} {owed : Nat} {now deadline : Instant}
      (hphase : t.phase = .waiting deadline) (hstopped : t.stopped = false)
      (hwoken : t.woken = true) :
      Turns ⟨t, owed⟩ (.poll now) ⟨{ t with woken := false, phase := .checking }, owed⟩
  | timesOut {t : PeriodicTask} {owed : Nat} {now deadline : Instant}
      (hphase : t.phase = .waiting deadline) (hstopped : t.stopped = false)
      (hwoken : t.woken = false) (hdeadline : deadline ≤ now) :
      Turns ⟨t, owed⟩ (.poll now) ⟨{ t with phase := .checking }, owed⟩
  | blocks {t : PeriodicTask} {owed : Nat} {now deadline : Instant}
      (hphase : t.phase = .waiting deadline) (hstopped : t.stopped = false)
      (hwoken : t.woken = false) (hdeadline : now < deadline) :
      Turns ⟨t, owed⟩ (.poll now) ⟨{ t with phase := .blocked deadline }, owed⟩
  | resumes {t : PeriodicTask} {owed : Nat} {deadline : Instant}
      (hphase : t.phase = .blocked deadline) :
      Turns ⟨t, owed⟩ .resume ⟨{ t with phase := .waiting deadline }, owed⟩

variable {history : List TaskStep} {step : TaskStep} {s s' : TaskSystem}

theorem Moves.turns (hmoves : s.Moves step s') : s.Turns step s' := by
  cases hmoves with
  | setWoken => exact .woken
  | setStopped => exact .stopped
  | notify => exact .notified
  | letGo => exact .released
  | check hphase =>
    rw [PeriodicTask.check_eq hphase]
    by_cases hstopped : s.task.stopped = true
    · rw [if_pos hstopped]
      exact .stopsChecking hphase hstopped
    · rw [if_neg hstopped]
      exact .passes hphase (Bool.not_eq_true _ ▸ hstopped)
  | start hphase => exact PeriodicTask.start_eq hphase ▸ .starts hphase
  | @finish s now delay hphase =>
    rcases PeriodicTask.finish_cases now delay hphase with ⟨d, rfl, hdelay, hfinish⟩ |
      ⟨hdelay, hfinish⟩
    · exact hfinish ▸ .waits hphase hdelay
    · exact hfinish ▸ .quits hphase hdelay
  | @poll s now deadline hphase =>
    rcases PeriodicTask.poll_cases now hphase with ⟨hstopped, hpoll⟩ | ⟨hstopped, hwoken, hpoll⟩ |
      ⟨hstopped, hwoken, hdeadline, hpoll⟩ | ⟨hstopped, hwoken, hdeadline, hpoll⟩
    · exact hpoll ▸ .stopsWaiting hphase hstopped
    · exact hpoll ▸ .cutShort hphase hstopped hwoken
    · exact hpoll ▸ .timesOut hphase hstopped hwoken hdeadline
    · exact hpoll ▸ .blocks hphase hstopped hwoken hdeadline
  | @resume s deadline hphase =>
    have hresume : s.task.resume = { s.task with phase := .waiting deadline } := by
      simp only [PeriodicTask.resume, hphase, TaskPhase.resumed]
    exact hresume ▸ .resumes hphase

namespace Turns

theorem stopped_iff (hturns : s.Turns step s') :
    s'.task.stopped = true ↔ step = .setStopped ∨ s.task.stopped = true := by
  cases hturns <;> simp

theorem held_iff (hturns : s.Turns step s') :
    s'.task.held = false ↔ step = .letGo ∨ s.task.held = false := by
  cases hturns <;> simp

theorem woken_iff (hturns : s.Turns step s') (hended : s'.task.phase ≠ .ended) :
    s'.task.woken = true ↔
      step = .setWoken ∨ (s.task.woken = true ∧ ∀ now, step ≠ .poll now) := by
  cases hturns <;> simp_all

theorem ended (hturns : s.Turns step s') (hended : s.task.phase = .ended) :
    s'.task.phase = .ended := by
  cases hturns with
  | notified => exact (TaskPhase.resumed_eq_iff _ rfl).2 hended
  | _ => simp_all

theorem ended_of_looks (hturns : s.Turns step s') (hstopped : s.task.stopped = true)
    (hlooks : step.looks = true) : s'.task.phase = .ended := by
  cases hturns <;> simp_all [TaskStep.looks]

/-- Short of starting the callback, the worker stays on its way to it. -/
theorem nearsRun (hturns : s.Turns step s') (hnears : step = .setWoken ∨ s.task.NearsRun)
    (hstart : step ≠ .start) : s'.task.NearsRun := by
  cases hturns with
  | notified =>
    unfold PeriodicTask.NearsRun
    rw [TaskPhase.resumed_eq_iff _ rfl, TaskPhase.resumed_eq_iff _ rfl,
      TaskPhase.resumed_eq_iff _ rfl]
    exact hnears.resolve_left TaskStep.noConfusion
  | _ => simp_all [PeriodicTask.NearsRun]

/-- On its way to the callback, every step of the worker gets it nearer. -/
theorem distance_le (hturns : s.Turns step s') (hnears : s.task.NearsRun) (hstart : step ≠ .start)
    (hended : s'.task.phase ≠ .ended) :
    [step].countP TaskStep.isWorkers + s'.task.phase.distance ≤ s.task.phase.distance := by
  cases hturns with
  | notified => simpa [TaskStep.isWorkers] using TaskPhase.distance_resumed_le _
  | _ => simp_all [PeriodicTask.NearsRun, TaskStep.isWorkers, TaskPhase.distance]

/-- The worker blocks only if it finds no flag set, and no step but that of a caller leaves it
blocked. -/
theorem blocked (hturns : s.Turns step s') {deadline : Instant}
    (hblocked : s'.task.phase = .blocked deadline) :
    (s.task.phase = .blocked deadline ∧ step ≠ .notify) ∨
      (s.task.phase = .waiting deadline ∧ s.task.woken = false ∧ s.task.stopped = false) := by
  cases hturns with
  | notified => exact absurd hblocked (TaskPhase.resumed_ne_blocked _ _)
  | _ => simp_all

theorem owed_pos (hturns : s.Turns step s') {deadline : Instant}
    (howed : s.task.phase = .blocked deadline →
      s.task.woken = true ∨ s.task.stopped = true → 0 < s.owed)
    (hblocked : s'.task.phase = .blocked deadline)
    (hflag : s'.task.woken = true ∨ s'.task.stopped = true) : 0 < s'.owed := by
  cases hturns with
  | notified => exact absurd hblocked (TaskPhase.resumed_ne_blocked _ _)
  | _ => simp_all

/-- Only the end of a run sets a deadline. -/
theorem deadline (hturns : s.Turns step s') {deadline : Instant}
    (hdeadline : s'.task.phase.deadline? = some deadline) :
    (∃ now delay, step = .finish now (some delay) ∧ deadline = now + delay.nanoseconds) ∨
      (s.task.phase.deadline? = some deadline ∧ ∀ now delay, step ≠ .finish now delay) := by
  cases hturns with
  | notified => exact .inr ⟨TaskPhase.deadline?_resumed _ ▸ hdeadline, by simp⟩
  | _ => simp_all [TaskPhase.deadline?]

end Turns

/-! ## What a history comes to -/

namespace Reaches

theorem stopped_iff (hreaches : Reaches history s) :
    s.task.stopped = true ↔ .setStopped ∈ history := by
  induction hreaches with
  | nil => simp
  | concat _ hmoves ih =>
    rw [hmoves.turns.stopped_iff, ih, List.mem_append, List.mem_singleton, or_comm, eq_comm]

theorem held_iff (hreaches : Reaches history s) : s.task.held = false ↔ .letGo ∈ history := by
  induction hreaches with
  | nil => simp
  | concat _ hmoves ih =>
    rw [hmoves.turns.held_iff, ih, List.mem_append, List.mem_singleton, or_comm, eq_comm]

theorem woken_iff (hreaches : Reaches history s) (hended : s.task.phase ≠ .ended) :
    s.task.woken = true ↔ TaskStep.WokenSincePoll history := by
  induction hreaches with
  | nil => exact iff_of_false Bool.noConfusion not_standsIn_nil
  | concat _ hmoves ih =>
    have hwoken := ih fun h => hended (hmoves.turns.ended h)
    rw [hmoves.turns.woken_iff hended, hwoken, TaskStep.WokenSincePoll, TaskStep.WokenSincePoll,
      standsIn_concat]

/-- The flag of a wake stays set until the worker is on its way to the callback. -/
theorem nearsRun (hreaches : Reaches history s) (hbegun : TaskStep.WakeBegun history) :
    s.task.NearsRun := by
  induction hreaches with
  | nil => exact absurd hbegun not_standsIn_nil
  | concat _ hmoves ih =>
    rcases standsIn_concat.1 hbegun with hwake | ⟨hbegun, hstart⟩
    · exact hmoves.turns.nearsRun (.inl hwake) (by simp [hwake])
    · exact hmoves.turns.nearsRun (.inr (ih hbegun)) hstart

/-- A worker that is blocked although a flag is set will still be notified. -/
theorem owed_pos (hreaches : Reaches history s) {deadline : Instant}
    (hblocked : s.task.phase = .blocked deadline)
    (hflag : s.task.woken = true ∨ s.task.stopped = true) : 0 < s.owed := by
  induction hreaches with
  | nil => exact nomatch hblocked
  | concat _ hmoves ih => exact hmoves.turns.owed_pos ih hblocked hflag

/-- The worker waits for as long as the callback last asked for. -/
theorem waitsSince (hreaches : Reaches history s) {deadline : Instant}
    (hdeadline : s.task.phase.deadline? = some deadline) :
    ∃ since delay, TaskStep.WaitsSince history since delay ∧
      deadline = since + delay.nanoseconds := by
  induction hreaches with
  | nil => exact nomatch hdeadline
  | concat _ hmoves ih =>
    rcases hmoves.turns.deadline hdeadline with ⟨now, delay, hfinish, rfl⟩ | ⟨hbefore, hother⟩
    · exact ⟨now, delay, standsIn_concat.2 (.inl hfinish), rfl⟩
    · obtain ⟨since, delay, hsince, rfl⟩ := ih hbefore
      exact ⟨since, delay, standsIn_concat.2 (.inr ⟨hsince, hother⟩), rfl⟩

/-- A notification gets the worker going, and while the flag keeps it from blocking again it stays
so. -/
theorem ne_blocked_of_told (hreaches : Reaches history s) {flag : TaskStep}
    {kept : TaskStep → Prop}
    (hflag : ∀ history s, Reaches history s → StandsIn history (· = flag) kept →
      s.task.NearsRun ∨ s.task.stopped = true)
    (htold : TaskStep.Told history flag kept) (deadline : Instant) :
    s.task.phase ≠ .blocked deadline := by
  induction hreaches generalizing deadline with
  | nil => simp
  | concat hreaches hmoves ih =>
    intro hblocked
    obtain ⟨hstands, htold⟩ := TaskStep.told_concat htold
    rcases hmoves.turns.blocked hblocked with ⟨hbefore, hnotify⟩ | ⟨hphase, hwoken, hstopped⟩
    · exact ih (htold.resolve_left hnotify) deadline hbefore
    · have hkept := hflag _ _ hreaches hstands
      simp [PeriodicTask.NearsRun, hphase, hwoken, hstopped] at hkept

theorem ended_of_over (hreaches : Reaches history s) (hover : TaskStep.Over history) :
    s.task.phase = .ended := by
  induction hreaches with
  | nil => simp [TaskStep.Over] at hover
  | @concat history s s' step hreaches hmoves ih =>
    rcases TaskStep.over_concat hover with hbefore | ⟨now, rfl⟩ | ⟨hstopped, hlooks⟩
    · exact hmoves.turns.ended (ih hbefore)
    · cases hmoves.turns with
      | quits => rfl
    · exact hmoves.turns.ended_of_looks (hreaches.stopped_iff.2 hstopped) hlooks

theorem not_over_before_start (hreaches : Reaches history s) : ∀ before step behind,
    history = before ++ step :: behind → step = .start → ¬ TaskStep.Over before := by
  induction hreaches with
  | nil => simp
  | concat hreaches hmoves ih =>
    refine forall_split_concat.2 ⟨?_, ih⟩
    rintro rfl hover
    cases hmoves with
    | start hphase => exact nomatch hphase.symm.trans (hreaches.ended_of_over hover)

/-- Between the flag of a wake and the next start of the callback the worker comes nearer to it with
every step. -/
theorem runs_soon (hreaches : Reaches history s) : ∀ before flag behind,
    history = before ++ flag :: behind → flag = .setWoken → .start ∉ behind →
      s.task.phase ≠ .ended → behind.countP TaskStep.isWorkers + s.task.phase.distance ≤ 3 := by
  induction hreaches with
  | nil => simp
  | @concat history s s' step hreaches hmoves ih =>
    refine forall_split_concat.2 ⟨fun _ _ _ => by simpa using s'.task.phase.distance_le, ?_⟩
    intro before flag behind hhistory hflag hstart hended
    obtain ⟨hbehind, hstep⟩ : .start ∉ behind ∧ step ≠ .start := by
      simpa [eq_comm] using hstart
    have hsooner := ih before flag behind hhistory hflag hbehind fun h => hended (hmoves.turns.ended h)
    have hnears : s.task.NearsRun := hreaches.nearsRun
      ⟨before, flag, behind, hhistory, hflag, fun later hlater h => hbehind (h ▸ hlater)⟩
    have hnearer := hmoves.turns.distance_le hnears hstep hended
    rw [List.countP_append]
    omega

/-- How a wait that is looked at goes on, by the history. -/
theorem poll_iff (hreaches : Reaches history s) {deadline : Instant} (now : Instant)
    (hphase : s.task.phase = .waiting deadline) :
    ((s.task.poll now).phase = .ended ↔ .setStopped ∈ history) ∧
      ((s.task.poll now).phase = .checking ↔
        .setStopped ∉ history ∧ (TaskStep.WokenSincePoll history ∨ deadline ≤ now)) ∧
      ((s.task.poll now).phase = .blocked deadline ↔
        .setStopped ∉ history ∧ ¬ TaskStep.WokenSincePoll history ∧ now < deadline) := by
  rw [← hreaches.stopped_iff, ← hreaches.woken_iff (by simp [hphase])]
  rcases PeriodicTask.poll_cases now hphase with ⟨hstopped, hpoll⟩ | ⟨hstopped, hwoken, hpoll⟩ |
    ⟨hstopped, hwoken, hdeadline, hpoll⟩ | ⟨hstopped, hwoken, hdeadline, hpoll⟩
  · simp [hpoll, hstopped]
  · simp [hpoll, hstopped, hwoken]
  · simp [hpoll, hstopped, hwoken, hdeadline]
  · simp [hpoll, hstopped, hwoken, hdeadline]

theorem stop_again (hreaches : Reaches history s) (hmade : TaskStep.StopMade history) :
    s.task.setStopped = s.task ∧ s.task.notify = s.task ∧ s.task.letGo = s.task := by
  obtain ⟨before, behind, hhistory, hnotify, hletGo⟩ := hmade
  have hstopped : s.task.stopped = true := hreaches.stopped_iff.2 (by simp [hhistory])
  have hheld : s.task.held = false := hreaches.held_iff.2 (by simp [hhistory, hletGo])
  have hblocked (deadline : Instant) : s.task.phase ≠ .blocked deadline :=
    hreaches.ne_blocked_of_told
      (fun _ _ hreaches hstands => .inr (hreaches.stopped_iff.2 (by simpa using hstands.exists_mem)))
      ⟨before, behind, hhistory, hnotify, fun _ _ => trivial⟩ deadline
  refine ⟨?_, ?_, ?_⟩
  · rw [PeriodicTask.setStopped, ← hstopped]
  · rw [PeriodicTask.notify, PeriodicTask.resume, TaskPhase.resumed_of_ne_blocked hblocked]
  · rw [PeriodicTask.letGo, ← hheld]

/-- However callers and the worker take turns, no wake is lost, no wait is cut short without one, and
a task that has been stopped or is over stays so. -/
theorem heeds (hreaches : Reaches history s) : Heeds history s where
  awake := hreaches.ne_blocked_of_told fun _ _ hreaches hbegun => .inl (hreaches.nearsRun hbegun)
  not_lost hbegun := by
    have hnears := hreaches.nearsRun hbegun
    refine ⟨fun deadline hblocked => ?_, fun deadline now hphase => hnears.poll_ne_blocked hphase⟩
    have hwoken : s.task.woken = true := by simpa [PeriodicTask.NearsRun, hblocked] using hnears
    exact hreaches.owed_pos hblocked (.inl hwoken)
  runs_soon before behind hhistory hstart := by
    by_cases hended : s.task.phase = .ended
    · exact .inl hended
    · have hsoon := hreaches.runs_soon before _ behind hhistory rfl hstart hended
      exact .inr (by omega)
  wait_iff deadline now hphase := by
    have hdeadline : s.task.phase.deadline? = some deadline := by rw [hphase, TaskPhase.deadline?]
    obtain ⟨since, delay, hsince, rfl⟩ := hreaches.waitsSince hdeadline
    exact ⟨since, delay, hsince, hreaches.poll_iff now hphase⟩
  no_more :=
    ⟨fun before behind hhistory => hreaches.not_over_before_start before _ behind hhistory rfl,
      hreaches.ended_of_over⟩
  stop_again := hreaches.stop_again

/-- Two wakes while the callback runs cut one wait short. -/
theorem heeds_two_wakes :
    Reaches [.check, .start, .setWoken, .setWoken, .notify, .finish 0 (some ⟨5⟩), .poll 1]
        ⟨{ runs := 1 }, 1⟩ ∧
      Heeds [.check, .start, .setWoken, .setWoken, .notify, .finish 0 (some ⟨5⟩), .poll 1]
        ⟨{ runs := 1 }, 1⟩ := by
  have hreaches : Reaches
      [.check, .start, .setWoken, .setWoken, .notify, .finish 0 (some ⟨5⟩), .poll 1]
      ⟨{ runs := 1 }, 1⟩ :=
    .concat (.concat (.concat (.concat (.concat (.concat (.concat .nil (.check rfl)) (.start rfl))
      .setWoken) .setWoken) .notify) (.finish rfl)) (.poll rfl)
  exact ⟨hreaches, hreaches.heeds⟩

end Reaches

end TaskSystem

end PvNet
