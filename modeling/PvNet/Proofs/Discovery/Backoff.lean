import Mathlib.Order.Monotone.Basic
import PvNet.Proofs.Discovery.Scheduling
set_option autoImplicit false

/-!
# Delays between searches

A search that is not answered is sent at growing delays.  Three limits meet there: the factor
of the base period stops doubling after 32 retries, a product beyond the longest duration
counts as the longest period, and retries are not counted beyond `SearchConfig.maxRetries`.
None of them makes a delay shorter than the one before (`SearchConfig.backoff_mono`,
`SearchConfig.backoff_min`).

`SearchManager.delays` lists what is scheduled for a channel whenever it is sent.  As long as
nothing starts, ends or hurries its search, these are the delays for one retry count after the
other; only a tick that the clock ends may count a retry without a send
(`SearchConfig.Counts`).
-/

namespace PvNet

/-! ## The delay after a number of retries -/

namespace Duration

variable {a b c : Duration}

theorem min_eq_right (h : ¬ a ≤ b) : a.min b = b := if_neg h

theorem min_self (a : Duration) : a.min a = a := if_pos (le_refl a)

end Duration

namespace SearchConfig

variable (c : SearchConfig)

/-- The factor of the base period; it cannot double any more once it would not fit into 32 bits. -/
def factor (retries : Nat) : Nat := if retries - 1 < 32 then 1 <<< (retries - 1) else 4294967295

/-- The delays for a number of retry counts, one after the other. -/
def backoffs (first count : Nat) : List Duration :=
  (List.range count).map fun k => c.backoff (first + k)

theorem backoffs_succ (first count : Nat) :
    c.backoffs first (count + 1) = c.backoff first :: c.backoffs (first + 1) count := by
  rw [backoffs, List.range_succ_eq_map, List.map_cons, List.map_map]
  refine congrArg (c.backoff first :: ·) (List.map_congr_left fun k _ => ?_)
  rw [Nat.add_assoc, Nat.add_comm 1 k]
  rfl

/-- The delays for one retry count more. -/
theorem backoffs_sublist_succ (first count : Nat) :
    (c.backoffs first count).Sublist (c.backoffs first (count + 1)) :=
  (List.range_sublist.2 (Nat.le_succ count)).map _

/-- Delays that were scheduled in a run of some actions are those for one retry count after the
other.  If a tick of the run failed, some counts may be left out. -/
structure Counts (first actions : Nat) (delays : List Duration) (failed : Bool) : Prop where
  skipping : delays.Sublist (c.backoffs first actions)
  exact : failed = false → delays = c.backoffs first delays.length

namespace Counts

variable {c} {first actions : Nat} {delays : List Duration} {failed : Bool}

theorem nil (first : Nat) : c.Counts first 0 [] false := ⟨List.nil_sublist _, fun _ => rfl⟩

theorem sent (h : c.Counts (first + 1) actions delays failed) :
    c.Counts first (actions + 1) (c.backoff first :: delays) failed where
  skipping := by
    rw [c.backoffs_succ]
    exact h.skipping.cons_cons _
  exact hdone := by
    rw [List.length_cons, c.backoffs_succ, ← h.exact hdone]

theorem waits (h : c.Counts first actions delays failed) :
    c.Counts first (actions + 1) delays failed where
  skipping := h.skipping.trans (c.backoffs_sublist_succ first actions)
  exact := h.exact

theorem lost (h : c.Counts (first + 1) actions delays failed) :
    c.Counts first (actions + 1) delays true where
  skipping := by
    rw [c.backoffs_succ]
    exact h.skipping.cons _
  exact hdone := nomatch hdone

end Counts

end SearchConfig

/-! ## The delays of a search -/

namespace SearchAction

end SearchAction

namespace SearchManager

variable {m : SearchManager} {cid : UInt32} {p : PendingSearch}

/-- The delay until the next send that an action schedules for a channel, if it sends it. -/
def delay? (m : SearchManager) (cid : UInt32) : SearchAction → Option Duration
  | .tick now =>
    if (m.tick now).1 ≠ .failed ∧ (m.due now).any (·.cid = cid) then
      ((m.tick now).2.2.pending.get? cid).map fun p => ⟨p.deadline - now⟩
    else none
  | _ => none

/-- The delays that some actions schedule for a channel, one for each time it is sent. -/
def delays (m : SearchManager) (cid : UInt32) : List SearchAction → List Duration
  | [] => []
  | action :: actions => (m.delay? cid action).toList ++ (action.run m).delays cid actions

/-- Nothing is pending in a manager that is canceled. -/
def Consistent (m : SearchManager) : Prop := m.canceled = true → m.pending = .empty

theorem Consistent.run (h : m.Consistent) (action : SearchAction) : (action.run m).Consistent := by
  intro hcanceled
  by_cases haction : action = .cancel
  · subst haction
    show m.cancel.pending = .empty
    unfold cancel
    split
    · rename_i hbefore
      exact h hbefore
    · rfl
  · rw [canceled_run action haction] at hcanceled
    rw [run_of_canceled hcanceled (h hcanceled)]
    exact h hcanceled

end SearchManager

end PvNet
