import PvNet.Table
set_option autoImplicit false

/-!
# Locks by key

A lock for every key, which exists as long as somebody holds it or waits for it.
The operations that callers interleave are `reference`, `take?`, `clear` and
`forget`; `acquire` and `release` are what they amount to for a caller that does not
wait and is not interrupted.
-/

namespace PvNet

structure LockEntry where
  /-- Which lock this is; a key gets another one after its lock has gone. -/
  lock : Nat
  /-- How many callers hold the lock or wait for it. -/
  references : Nat
  deriving DecidableEq, Repr

/-- The locks that are held or waited for. -/
structure LockTable (κ : Type) where
  entries : Table κ LockEntry
  /-- The locks that are held. -/
  held : List Nat
  /-- The number of the next new lock. -/
  next : Nat

namespace LockTable

variable {κ : Type} [DecidableEq κ]

/-- The table without locks. -/
def empty : LockTable κ := ⟨.empty, [], 0⟩

instance : Inhabited (LockTable κ) := ⟨empty⟩

/-- How many keys are held or waited for. -/
def size (t : LockTable κ) : Nat := t.entries.size

/-- Whether no key is held or waited for. -/
def isEmpty (t : LockTable κ) : Bool := t.size = 0

/-! ## Steps that are not interrupted -/

/-- Adds a reference to the lock of a key, which is created if need be. -/
def reference (t : LockTable κ) (k : κ) : Nat × LockTable κ :=
  match t.entries.get? k with
  | some e =>
    (e.lock, { t with entries := t.entries.put k { e with references := e.references + 1 } })
  | none => (t.next, { t with entries := t.entries.put k ⟨t.next, 1⟩, next := t.next + 1 })

/-- Takes a lock unless it is held. -/
def take? (t : LockTable κ) (lock : Nat) : Option (LockTable κ) :=
  if lock ∈ t.held then none else some { t with held := lock :: t.held }

/-- Marks a lock as free. -/
def clear (t : LockTable κ) (lock : Nat) : LockTable κ :=
  { t with held := t.held.filter (· ≠ lock) }

/-- Drops a reference to the lock of a key; the last one takes the lock with it. -/
def forget (t : LockTable κ) (k : κ) : LockTable κ :=
  match t.entries.get? k with
  | none => t
  | some e =>
    if e.references ≤ 1 then { t with entries := t.entries.erase k }
    else { t with entries := t.entries.put k { e with references := e.references - 1 } }

/-! ## Callers -/

/-- Takes the lock of a key if it is free at once. -/
def acquire (t : LockTable κ) (k : κ) : Bool × LockTable κ :=
  let (lock, t) := t.reference k
  match t.take? lock with
  | some t => (true, t)
  | none => (false, t.forget k)

/-- Frees the lock of a key. -/
def release (t : LockTable κ) (k : κ) : LockTable κ :=
  match t.entries.get? k with
  | none => t
  | some e => (t.clear e.lock).forget k

end LockTable

end PvNet
