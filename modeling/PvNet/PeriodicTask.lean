import PvNet.Number.Duration
set_option autoImplicit false

/-!
# Periodic tasks

A worker runs a callback, which says how long to wait until the next run or that the
task is over.  A wake ends the wait early, or the next one if none is going on; a
stop ends the task.  Time is a number of nanoseconds and comes from outside.

The worker and those who wake or stop it share two flags.  `setWoken`, `setStopped`,
`notify` and `letGo` are what a caller does without being interrupted, `check`,
`start`, `finish`, `poll` and `resume` what the worker does; `wake` and `stop` are
what a call amounts to when the worker does nothing meanwhile.
-/

namespace PvNet

/-- Nanoseconds since some fixed moment. -/
abbrev Instant : Type := Nat

/-- The moment after some time, unless it is too far away for the clock: from `2 ^ 63` seconds
on. -/
def Instant.after? (now : Instant) (d : Duration) : Option Instant :=
  if now + d.nanoseconds < UInt64.size / 2 * Duration.perSecond then some (now + d.nanoseconds)
  else none

/-- What the worker of a task is doing. -/
inductive TaskPhase where
  /-- About to look whether the task is stopped. -/
  | checking
  /-- About to start the callback. -/
  | starting
  /-- Running the callback. -/
  | running
  /-- About to look whether the wait is over. -/
  | waiting (deadline : Instant)
  /-- Blocked until it is notified or the deadline comes. -/
  | blocked (deadline : Instant)
  | ended
  deriving DecidableEq, Repr

/-- A blocked worker looks again whether the wait is over. -/
def TaskPhase.resumed : TaskPhase → TaskPhase
  | blocked deadline => waiting deadline
  | phase => phase

structure PeriodicTask where
  stopped : Bool := false
  /-- Whether a wake has not been noticed yet. -/
  woken : Bool := false
  phase : TaskPhase := .checking
  /-- How often the callback has been started. -/
  runs : Nat := 0
  /-- Whether nobody has let go of the worker. -/
  held : Bool := true
  deriving DecidableEq, Repr

namespace PeriodicTask

/-- Whether the worker is still held and has not ended. -/
def isRunning (t : PeriodicTask) : Bool := t.held && t.phase ≠ .ended

/-- The blocked worker gets going, for whatever reason. -/
def resume (t : PeriodicTask) : PeriodicTask := { t with phase := t.phase.resumed }

/-! ## Callers -/

def setWoken (t : PeriodicTask) : PeriodicTask := { t with woken := true }

def setStopped (t : PeriodicTask) : PeriodicTask := { t with stopped := true }

/-- Gets the worker going if it is blocked. -/
def notify (t : PeriodicTask) : PeriodicTask := t.resume

def letGo (t : PeriodicTask) : PeriodicTask := { t with held := false }

/-- Asks for a run before its time. -/
def wake (t : PeriodicTask) : PeriodicTask := t.setWoken.notify

/-- Asks the worker to end. -/
def stop (t : PeriodicTask) : PeriodicTask := t.setStopped.notify.letGo

/-! ## The worker -/

/-- The worker goes on to the callback unless the task is stopped. -/
def check (t : PeriodicTask) : PeriodicTask :=
  match t.phase with
  | .checking => { t with phase := if t.stopped then .ended else .starting }
  | _ => t

def start (t : PeriodicTask) : PeriodicTask :=
  match t.phase with
  | .starting => { t with phase := .running, runs := t.runs + 1 }
  | _ => t

/-- The callback returns the delay until the next run, or that the task is over.  A worker that
would have to wait too long for the clock ends. -/
def finish (t : PeriodicTask) (now : Instant) (delay : Option Duration) : PeriodicTask :=
  match t.phase with
  | .running => { t with phase := ((delay.bind now.after?).map .waiting).getD .ended }
  | _ => t

/-- The worker looks whether the wait is over, and blocks if it is not. -/
def poll (t : PeriodicTask) (now : Instant) : PeriodicTask :=
  match t.phase with
  | .waiting deadline =>
    if t.stopped then { t with phase := .ended }
    else if t.woken then { t with woken := false, phase := .checking }
    else if deadline ≤ now then { t with phase := .checking }
    else { t with phase := .blocked deadline }
  | _ => t

/-- Lets the worker go on, without time passing, until it is blocked or has ended; the callback
returns the given delays, one per run. -/
def settle (now : Instant) : List (Option Duration) → PeriodicTask → PeriodicTask
  | [], t => ((t.poll now).check).start
  | delay :: delays, t =>
    let t := ((t.poll now).check).start
    match t.phase with
    | .running => settle now delays (t.finish now delay)
    | _ => t

end PeriodicTask

end PvNet
