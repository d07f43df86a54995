import Mathlib.Data.Set.Card
import PvNet.PeriodicTask
import PvNet.Proofs.Connection.Locking
import PvNet.Proofs.Connection.Registration
set_option autoImplicit false

/-!
# Locks under contention

Any number of callers take locks by key and give them back.  Each does so in several
sections, between which the others go on: it gets a reference to the lock, tests it until
it is free or a deadline has passed, looks it up again, frees it and drops the reference.
A caller whose deadline no clock can express ends with its reference.  `LockSystem.step`
lets one caller go on with one section, in any order.

What every section preserves is that an entry counts the callers that have a reference to
it and has their lock (`Counts`), and that a lock is marked as held exactly while one
caller holds it (`Marks`).  Hence the locks exclude, leave nothing behind and do not
interfere (`keyed_locks_exclude`).
-/

namespace PvNet

/-! ## Callers and their sections -/

/-- What a caller is doing between two sections.  Whoever wants several keys at a time counts as
several callers. -/
inductive LockPhase (κ : Type) where
  /-- It has nothing to do with any lock. -/
  | idle
  /-- It wants the lock and has not found it free yet. -/
  | waiting (key : κ) (lock : Nat) (deadline : Instant)
  /-- It has ended at a deadline that no clock can express, and never drops its reference. -/
  | lost (key : κ) (lock : Nat)
  /-- It has given up and still has its reference. -/
  | givenUp (key : κ) (lock : Nat)
  /-- It holds the lock. -/
  | holding (key : κ) (lock : Nat)
  /-- It holds the lock and is about to free the one that it has looked up. -/
  | freeing (key : κ) (lock : Nat)
  /-- It has freed the lock and still has its reference. -/
  | freed (key : κ) (lock : Nat)

namespace LockPhase

variable {κ : Type}

/-- The key to which a caller has a reference, with the lock. -/
def reference? : LockPhase κ → Option (κ × Nat)
  | idle => none
  | waiting key lock _ | lost key lock | givenUp key lock | holding key lock | freeing key lock
  | freed key lock => some (key, lock)

/-- The key that a caller holds, with the lock that it has taken and not freed yet. -/
def held? : LockPhase κ → Option (κ × Nat)
  | holding key lock | freeing key lock => some (key, lock)
  | idle | waiting _ _ _ | lost _ _ | givenUp _ _ | freed _ _ => none

/-- Whoever holds a lock has a reference to it. -/
theorem reference?_of_held? {phase : LockPhase κ} {r : κ × Nat} (h : phase.held? = some r) :
    phase.reference? = some r := by
  cases phase with
  | holding key lock | freeing key lock => exact h
  | idle | waiting | lost | givenUp | freed => cases h

end LockPhase

/-- What a caller does without being interrupted. -/
inductive LockSection (κ : Type) where
  /-- It gets a reference to the lock of a key, for which it is going to wait for some time. -/
  | ask (key : κ) (timeout : Duration) (now : Instant)
  /-- It takes the lock if that is free, and gives up if the deadline has passed. -/
  | test (now : Instant)
  /-- It looks up the lock that it holds. -/
  | find
  /-- It marks that lock as free. -/
  | clear
  /-- It drops its reference. -/
  | drop

namespace LockSection

variable {κ : Type} [DecidableEq κ]

/-- What becomes of a caller that has a reference: the deadline is reckoned after the entry. -/
def waitFor (key : κ) (lock : Nat) (timeout : Duration) (now : Instant) : LockPhase κ :=
  match now.after? timeout with
  | some deadline => .waiting key lock deadline
  | none => .lost key lock

/-- A section of a caller; it does nothing unless the caller has come to it. -/
def run (t : LockTable κ) : LockSection κ → LockPhase κ → LockPhase κ × LockTable κ
  | ask key timeout now, .idle =>
    (waitFor key (t.reference key).1 timeout now, (t.reference key).2)
  | test now, .waiting key lock deadline =>
    match t.take? lock with
    | some t => (.holding key lock, t)
    | none => (if deadline ≤ now then .givenUp key lock else .waiting key lock deadline, t)
  | find, .holding key _ =>
    match t.entries.get? key with
    | some e => (.freeing key e.lock, t)
    | none => (.idle, t)
  | clear, .freeing key lock => (.freed key lock, t.clear lock)
  | drop, .givenUp key _ => (.idle, t.forget key)
  | drop, .freed key _ => (.idle, t.forget key)
  | _, phase => (phase, t)

omit [DecidableEq κ] in
theorem reference?_waitFor (key : κ) (lock : Nat) (timeout : Duration) (now : Instant) :
    (waitFor key lock timeout now).reference? = some (key, lock) := by
  rw [waitFor]
  split
  · rfl
  · rfl

omit [DecidableEq κ] in
theorem held?_waitFor (key : κ) (lock : Nat) (timeout : Duration) (now : Instant) :
    (waitFor key lock timeout now).held? = none := by
  rw [waitFor]
  split
  · rfl
  · rfl

/-- No section gets a caller any further that has ended. -/
theorem run_lost (t : LockTable κ) (part : LockSection κ) (key : κ) (lock : Nat) :
    part.run t (.lost key lock) = (.lost key lock, t) := by
  cases part <;> rfl

end LockSection

/-- Callers and the locks that they share. -/
structure LockSystem (ι κ : Type) where
  table : LockTable κ
  phase : ι → LockPhase κ

/-- A caller goes on with a section. -/
structure LockStep (ι κ : Type) where
  caller : ι
  part : LockSection κ

namespace LockSystem

variable {ι κ : Type}

/-- Nobody has asked for any lock. -/
def start : LockSystem ι κ := ⟨.empty, fun _ => .idle⟩

/-- The callers that have a reference to a key. -/
def callers (s : LockSystem ι κ) (key : κ) : Set ι :=
  {i | ∃ lock, (s.phase i).reference? = some (key, lock)}

/-- A caller holds a key. -/
def Holds (s : LockSystem ι κ) (i : ι) (key : κ) : Prop := ∃ lock, (s.phase i).held? = some (key, lock)

variable [DecidableEq κ]

/-- What there is of a key: its entry, and whether the lock is marked as held. -/
def keyState? (s : LockSystem ι κ) (key : κ) : Option (LockEntry × Bool) :=
  (s.table.entries.get? key).map fun e => (e, e.lock ∈ s.table.held)

variable [DecidableEq ι]

def step (s : LockSystem ι κ) (next : LockStep ι κ) : LockSystem ι κ :=
  let (phase, table) := next.part.run s.table (s.phase next.caller)
  ⟨table, Function.update s.phase next.caller phase⟩

def runAll : List (LockStep ι κ) → LockSystem ι κ → LockSystem ι κ
  | [], s => s
  | next :: steps, s => runAll steps (s.step next)

end LockSystem

/-- Reading the callers' phases after one of them has moved. -/
theorem map_update {ι κ α : Type} [DecidableEq ι] (f : LockPhase κ → α) (phases : ι → LockPhase κ)
    (i : ι) (phase : LockPhase κ) :
    (fun j => f (Function.update phases i phase j)) =
      Function.update (fun j => f (phases j)) i (f phase) :=
  Function.comp_update f phases i phase

/-! ## Entries that count references -/

section

variable {ι κ : Type} {refs : ι → Option (κ × Nat)} {i : ι} {key : κ} {lock : Nat}

/-- The callers that refer to a key. -/
def referring (refs : ι → Option (κ × Nat)) (key : κ) : Set ι := {i | ∃ lock, refs i = some (key, lock)}

variable [DecidableEq ι]

theorem referring_update_some :
    referring (Function.update refs i (some (key, lock))) key = insert i (referring refs key) := by
  ext j
  show (∃ lock', Function.update refs i (some (key, lock)) j = some (key, lock')) ↔
    j = i ∨ ∃ lock', refs j = some (key, lock')
  by_cases hj : j = i
  · rw [hj, Function.update_self]
    exact iff_of_true ⟨lock, rfl⟩ (.inl rfl)
  · rw [Function.update_of_ne hj]
    exact (or_iff_right hj).symm

/-- A caller that refers to another key, or to none. -/
theorem referring_update_of_ne {r : Option (κ × Nat)} (h : ∀ lock, r ≠ some (key, lock)) :
    referring (Function.update refs i r) key = referring refs key \ {i} := by
  ext j
  show (∃ lock, Function.update refs i r j = some (key, lock)) ↔
    (∃ lock, refs j = some (key, lock)) ∧ j ≠ i
  by_cases hj : j = i
  · rw [hj, Function.update_self]
    exact iff_of_false (fun ⟨lock, hr⟩ => h lock hr) fun h' => h'.2 rfl
  · rw [Function.update_of_ne hj]
    exact (and_iff_left hj).symm

end

section

variable {ι κ : Type} [DecidableEq κ] {refs : ι → Option (κ × Nat)} {i : ι} {key : κ} {lock : Nat}
  {entries entries' : Table κ LockEntry}

/-- Every entry counts the callers that refer to its key, all of them refer to its lock, and
different keys have different locks. -/
structure Counts (entries : Table κ LockEntry) (refs : ι → Option (κ × Nat)) : Prop where
  refers : ∀ i key lock, refs i = some (key, lock) → ∃ e, entries.get? key = some e ∧ e.lock = lock
  finite : ∀ key, (referring refs key).Finite
  counted : ∀ key e, entries.get? key = some e → e.references = (referring refs key).ncard
  apart : ∀ key key' e e', entries.get? key = some e → entries.get? key' = some e' →
    e.lock = e'.lock → key = key'

namespace Counts

/-- A key without an entry has no callers. -/
theorem referring_eq_empty (h : Counts entries refs) (hnone : entries.get? key = none) :
    referring refs key = ∅ := by
  refine Set.eq_empty_iff_forall_notMem.2 ?_
  rintro i ⟨lock, hreference⟩
  obtain ⟨e, he, -⟩ := h.refers i key lock hreference
  rw [hnone] at he
  cases he

/-- The callers of a key refer to the lock of its entry. -/
theorem lock_eq (h : Counts entries refs) {e : LockEntry} (he : entries.get? key = some e)
    (hreference : refs i = some (key, lock)) : e.lock = lock := by
  obtain ⟨e', he', rfl⟩ := h.refers i key lock hreference
  rw [he] at he'
  cases he'
  rfl

variable [DecidableEq ι]

/-- A caller refers to a key or to none before and afterwards, and only the entry of that key
changes. -/
theorem changed (h : Counts entries refs) (key : κ) {r : Option (κ × Nat)}
    (hbefore : ∀ k lock, refs i = some (k, lock) → k = key)
    (hafter : ∀ k lock, r = some (k, lock) → k = key)
    (hothers : ∀ k, k ≠ key → entries'.get? k = entries.get? k)
    (hrefers : ∀ j lock, Function.update refs i r j = some (key, lock) →
      ∃ e, entries'.get? key = some e ∧ e.lock = lock)
    (hcounted : ∀ e, entries'.get? key = some e →
      e.references = (referring (Function.update refs i r) key).ncard)
    (hapart : ∀ e k e', entries'.get? key = some e → entries.get? k = some e' →
      e.lock = e'.lock → k = key) :
    Counts entries' (Function.update refs i r) := by
  have hkept : ∀ k, k ≠ key → referring (Function.update refs i r) k = referring refs k := by
    intro k hk
    rw [referring_update_of_ne fun lock hr => hk (hafter k lock hr), Set.sdiff_singleton_eq_self]
    rintro ⟨lock, hi⟩
    exact hk (hbefore k lock hi)
  refine ⟨fun j k lock hj => ?_, fun k => ?_, fun k e he => ?_, fun k k' e e' he he' hlock => ?_⟩
  · by_cases hk : k = key
    · subst hk
      exact hrefers j lock hj
    · rw [hothers k hk]
      by_cases hi : j = i
      · rw [hi, Function.update_self] at hj
        exact absurd (hafter k lock hj) hk
      · rw [Function.update_of_ne hi] at hj
        exact h.refers j k lock hj
  · by_cases hk : k = key
    · subst hk
      refine ((h.finite k).insert i).subset fun j hj => ?_
      obtain ⟨lock, hj⟩ := hj
      by_cases hi : j = i
      · exact .inl hi
      · rw [Function.update_of_ne hi] at hj
        exact .inr ⟨lock, hj⟩
    · rw [hkept k hk]
      exact h.finite k
  · by_cases hk : k = key
    · subst hk
      exact hcounted e he
    · rw [hothers k hk] at he
      rw [hkept k hk]
      exact h.counted k e he
  · by_cases hk : k = key
    · by_cases hk' : k' = key
      · exact hk.trans hk'.symm
      · subst hk
        rw [hothers k' hk'] at he'
        exact (hapart e k' e' he he' hlock).symm
    · rw [hothers k hk] at he
      by_cases hk' : k' = key
      · subst hk'
        exact hapart e' k e he' he hlock.symm
      · rw [hothers k' hk'] at he'
        exact h.apart k k' e e' he he' hlock

/-- A caller gets a reference: the entry counts it, or there is a new one with a lock of its own. -/
theorem asked (h : Counts entries refs) (hi : refs i = none) {e : LockEntry}
    (hcount : e.references = (referring refs key).ncard + 1)
    (hsame : ∀ old, entries.get? key = some old → old.lock = e.lock)
    (hown : ∀ k e', entries.get? k = some e' → e.lock = e'.lock → k = key) :
    Counts (entries.put key e) (Function.update refs i (some (key, e.lock))) := by
  have hentry : (entries.put key e).get? key = some e := by
    rw [Table.get?_put, if_pos rfl]
  have hnew : i ∉ referring refs key := by
    rintro ⟨lock, hsome⟩
    rw [hi] at hsome
    cases hsome
  refine h.changed key (fun k lock hsome => ?_) (fun k lock hsome => ?_) (fun k hk => ?_)
    (fun j lock hj => ?_) (fun e' he' => ?_) fun e₁ k e₂ h₁ h₂ hlock => ?_
  · rw [hi] at hsome
    cases hsome
  · cases hsome
    rfl
  · rw [Table.get?_put, if_neg (Ne.symm hk)]
  · by_cases hj' : j = i
    · rw [hj', Function.update_self] at hj
      cases hj
      exact ⟨e, hentry, rfl⟩
    · rw [Function.update_of_ne hj'] at hj
      obtain ⟨old, hold, rfl⟩ := h.refers j key lock hj
      exact ⟨e, hentry, (hsame old hold).symm⟩
  · rw [hentry] at he'
    cases he'
    rw [referring_update_some, Set.ncard_insert_of_notMem hnew (h.finite key), hcount]
  · rw [hentry] at h₁
    cases h₁
    exact hown k e₂ h₂ hlock

/-- A caller drops its reference: the entry does not count it any more, or is gone with the last. -/
theorem dropped (h : Counts entries refs) (hi : refs i = some (key, lock)) {e : LockEntry}
    (he : entries.get? key = some e)
    (hothers : ∀ k, k ≠ key → entries'.get? k = entries.get? k)
    (hentry : entries'.get? key =
      if e.references ≤ 1 then none else some { e with references := e.references - 1 }) :
    Counts entries' (Function.update refs i none) := by
  have hmem : i ∈ referring refs key := ⟨lock, hi⟩
  have hcount := h.counted key e he
  have hleft : referring (Function.update refs i none) key = referring refs key \ {i} :=
    referring_update_of_ne fun _ hnone => nomatch hnone
  have hcount' : (referring (Function.update refs i none) key).ncard = e.references - 1 := by
    rw [hleft, Set.ncard_sdiff_singleton_of_mem hmem, hcount]
  refine h.changed key (fun k lock' hsome => ?_) (fun k lock' hsome => (nomatch hsome))
    hothers (fun j lock' hj => ?_) (fun e' he' => ?_) fun e₁ k e₂ h₁ h₂ hlock => ?_
  · rw [hi] at hsome
    cases hsome
    rfl
  · have hj' : j ∈ referring (Function.update refs i none) key := ⟨lock', hj⟩
    have hmore : ¬ e.references ≤ 1 := by
      have hfinite : (referring (Function.update refs i none) key).Finite := by
        rw [hleft]
        exact (h.finite key).sdiff
      have hpos := (Set.ncard_pos hfinite).2 ⟨j, hj'⟩
      omega
    have hne : j ≠ i := by
      rintro rfl
      rw [Function.update_self] at hj
      cases hj
    rw [Function.update_of_ne hne] at hj
    exact ⟨_, hentry.trans (if_neg hmore), show e.lock = lock' from h.lock_eq he hj⟩
  · rw [hentry] at he'
    by_cases hlast : e.references ≤ 1
    · rw [if_pos hlast] at he'
      cases he'
    · rw [if_neg hlast] at he'
      cases he'
      exact hcount'.symm
  · rw [hentry] at h₁
    by_cases hlast : e.references ≤ 1
    · rw [if_pos hlast] at h₁
      cases h₁
    · rw [if_neg hlast] at h₁
      cases h₁
      exact h.apart k key e₂ e h₂ he hlock.symm

end Counts

end

/-! ## Locks that are marked as held -/

section

variable {ι κ : Type} {held : List Nat} {holds : ι → Option (κ × Nat)} {i : ι} {key : κ} {lock : Nat}

/-- A lock is marked as held exactly while a caller holds it, and no other one does. -/
structure Marks (held : List Nat) (holds : ι → Option (κ × Nat)) : Prop where
  mem_iff : ∀ lock, lock ∈ held ↔ ∃ i key, holds i = some (key, lock)
  holder : ∀ i j key key' lock, holds i = some (key, lock) → holds j = some (key', lock) → i = j

namespace Marks

variable [DecidableEq ι]

/-- A caller takes a lock that is free. -/
theorem taken (h : Marks held holds) (hi : holds i = none) (hfree : lock ∉ held) :
    Marks (lock :: held) (Function.update holds i (some (key, lock))) := by
  have hother : ∀ j key', Function.update holds i (some (key, lock)) j = some (key', lock) →
      j = i := by
    intro j key' hj
    by_contra hne
    rw [Function.update_of_ne hne] at hj
    exact hfree ((h.mem_iff lock).2 ⟨j, key', hj⟩)
  refine ⟨fun l => ?_, fun j j' k k' l hj hj' => ?_⟩
  · rw [List.mem_cons, h.mem_iff]
    constructor
    · rintro (rfl | ⟨j, k, hj⟩)
      · exact ⟨i, key, Function.update_self ..⟩
      · have hne : j ≠ i := by
          rintro rfl
          rw [hi] at hj
          cases hj
        exact ⟨j, k, (Function.update_of_ne hne ..).trans hj⟩
    · rintro ⟨j, k, hj⟩
      by_cases hne : j = i
      · rw [hne, Function.update_self] at hj
        cases hj
        exact .inl rfl
      · rw [Function.update_of_ne hne] at hj
        exact .inr ⟨j, k, hj⟩
  · by_cases hl : l = lock
    · subst hl
      exact (hother j k hj).trans (hother j' k' hj').symm
    · have hne : ∀ j k, Function.update holds i (some (key, lock)) j = some (k, l) → j ≠ i := by
        rintro j k hj rfl
        rw [Function.update_self] at hj
        cases hj
        exact hl rfl
      rw [Function.update_of_ne (hne j k hj)] at hj
      rw [Function.update_of_ne (hne j' k' hj')] at hj'
      exact h.holder j j' k k' l hj hj'

/-- A caller frees the lock that it holds. -/
theorem cleared (h : Marks held holds) (hi : holds i = some (key, lock)) :
    Marks (held.filter (· ≠ lock)) (Function.update holds i none) := by
  have hothers : ∀ j k l, Function.update holds i none j = some (k, l) ↔
      holds j = some (k, l) ∧ j ≠ i := by
    intro j k l
    by_cases hj : j = i
    · rw [hj, Function.update_self]
      exact iff_of_false (fun hnone => nomatch hnone) fun h => h.2 rfl
    · rw [Function.update_of_ne hj]
      exact (and_iff_left hj).symm
  refine ⟨fun l => ?_, fun j j' k k' l hj hj' => ?_⟩
  · rw [List.mem_filter, h.mem_iff, decide_eq_true_iff]
    constructor
    · rintro ⟨⟨j, k, hj⟩, hl⟩
      refine ⟨j, k, (hothers j k l).2 ⟨hj, ?_⟩⟩
      rintro rfl
      rw [hi] at hj
      cases hj
      exact hl rfl
    · rintro ⟨j, k, hj⟩
      obtain ⟨hj, hne⟩ := (hothers j k l).1 hj
      refine ⟨⟨j, k, hj⟩, ?_⟩
      rintro rfl
      exact hne (h.holder j i k key l hj hi)
  · exact h.holder j j' k k' l ((hothers j k l).1 hj).1 ((hothers j' k' l).1 hj').1

end Marks

end

/-! ## Sections that are interleaved -/

namespace LockSystem

variable {ι κ : Type} [DecidableEq κ] {s : LockSystem ι κ} {t : LockTable κ} {i : ι}
  {phase : LockPhase κ} {key : κ} {lock : Nat}

/-- What holds between any two sections. -/
structure Sound (s : LockSystem ι κ) : Prop where
  table : s.table.Sound
  counts : Counts s.table.entries fun i => (s.phase i).reference?
  marks : Marks s.table.held fun i => (s.phase i).held?

theorem sound_start : (start : LockSystem ι κ).Sound where
  table := LockTable.sound_empty
  counts := by
    refine ⟨fun _ _ _ h => (nomatch h), fun key => ?_, fun _ _ h => (nomatch h),
      fun _ _ _ _ h => (nomatch h)⟩
    exact Set.finite_empty.subset fun i ⟨_, h⟩ => (nomatch h)
  marks := by
    refine ⟨fun lock => iff_of_false (fun h => (nomatch h)) ?_, fun _ _ _ _ _ h => (nomatch h)⟩
    rintro ⟨i, key, h⟩
    cases h

/-- What a section comes to for a caller whose reference is to the lock of an entry. -/
inductive Moves (t : LockTable κ) (before : LockPhase κ) : LockPhase κ × LockTable κ → Prop where
  | kept (after : LockPhase κ) (hreference : after.reference? = before.reference?)
    (hheld : after.held? = before.held?) : Moves t before (after, t)
  | asked (key : κ) (after : LockPhase κ) (hidle : before = .idle)
    (hreference : after.reference? = some (key, (t.reference key).1)) (hheld : after.held? = none) :
    Moves t before (after, (t.reference key).2)
  | taken (key : κ) (lock : Nat) (hreference : before.reference? = some (key, lock))
    (hheld : before.held? = none) (hfree : lock ∉ t.held) :
    Moves t before (.holding key lock, { t with held := lock :: t.held })
  | cleared (key : κ) (lock : Nat) (hheld : before.held? = some (key, lock)) :
    Moves t before (.freed key lock, t.clear lock)
  | dropped (key : κ) (lock : Nat) (hreference : before.reference? = some (key, lock))
    (hheld : before.held? = none) : Moves t before (.idle, t.forget key)

theorem moves_run (hrefers : ∀ key lock, phase.reference? = some (key, lock) →
      ∃ e, t.entries.get? key = some e ∧ e.lock = lock) (part : LockSection κ) :
    Moves t phase (part.run t phase) := by
  cases part with
  | ask key timeout now =>
    cases phase with
    | idle =>
      exact .asked key _ rfl (LockSection.reference?_waitFor ..) (LockSection.held?_waitFor ..)
    | waiting | lost | givenUp | holding | freeing | freed => exact .kept _ rfl rfl
  | test now =>
    cases phase with
    | waiting key lock deadline =>
      by_cases hheld : lock ∈ t.held
      · have hrun : LockSection.run t (.test now) (.waiting key lock deadline) =
            (if deadline ≤ now then .givenUp key lock else .waiting key lock deadline, t) := by
          simp only [LockSection.run, LockTable.take?, if_pos hheld]
        rw [hrun]
        split
        · exact .kept _ rfl rfl
        · exact .kept _ rfl rfl
      · have hrun : LockSection.run t (.test now) (.waiting key lock deadline) =
            (.holding key lock, { t with held := lock :: t.held }) := by
          simp only [LockSection.run, LockTable.take?, if_neg hheld]
        rw [hrun]
        exact .taken key lock rfl rfl hheld
    | idle | lost | givenUp | holding | freeing | freed => exact .kept _ rfl rfl
  | find =>
    cases phase with
    | holding key lock =>
      obtain ⟨e, he, rfl⟩ := hrefers key lock rfl
      have hrun : LockSection.run t .find (.holding key e.lock) = (.freeing key e.lock, t) := by
        simp only [LockSection.run, he]
      rw [hrun]
      exact .kept _ rfl rfl
    | idle | waiting | lost | givenUp | freeing | freed => exact .kept _ rfl rfl
  | clear =>
    cases phase with
    | freeing key lock => exact .cleared key lock rfl
    | idle | waiting | lost | givenUp | holding | freed => exact .kept _ rfl rfl
  | drop =>
    cases phase with
    | givenUp key lock => exact .dropped key lock rfl rfl
    | freed key lock => exact .dropped key lock rfl rfl
    | idle | waiting | lost | holding | freeing => exact .kept _ rfl rfl

theorem Sound.moves (h : s.Sound) (i : ι) (part : LockSection κ) :
    Moves s.table (s.phase i) (part.run s.table (s.phase i)) :=
  moves_run (h.counts.refers i) part

/-- What getting a reference does to the table: the entry has one more, or it is new and has a lock
of its own. -/
theorem Sound.exists_reference (h : s.Sound) (key : κ) :
    ∃ e next, s.table.reference key = (e.lock, ⟨s.table.entries.put key e, s.table.held, next⟩) ∧
      s.table.next ≤ next ∧ e.lock < next ∧ e.references = (s.callers key).ncard + 1 ∧
      (∀ old, s.table.entries.get? key = some old → old.lock = e.lock) ∧
      ∀ k e', s.table.entries.get? k = some e' → e.lock = e'.lock → k = key := by
  cases hentry : s.table.entries.get? key with
  | none =>
    have hnobody : s.callers key = ∅ := h.counts.referring_eq_empty hentry
    refine ⟨⟨s.table.next, 1⟩, s.table.next + 1, LockTable.reference_of_none hentry,
      Nat.le_succ _, Nat.lt_succ_self _, ?_, fun old hold => (nomatch hold), ?_⟩
    · rw [hnobody, Set.ncard_empty]
    · intro k e' he' hlock
      exact absurd hlock.symm (Nat.ne_of_lt (h.table.entries_lt k e' he'))
  | some e =>
    have hcount : e.references = (s.callers key).ncard := h.counts.counted key e hentry
    refine ⟨{ e with references := e.references + 1 }, s.table.next,
      LockTable.reference_of_some hentry, Nat.le_refl _, h.table.entries_lt key e hentry, ?_, ?_, ?_⟩
    · rw [← hcount]
    · intro old hold
      cases hold
      rfl
    · intro k e' he' hlock
      exact h.counts.apart k key e' e he' hentry hlock.symm

/-- What dropping a reference does to the entries. -/
theorem get?_forget {e : LockEntry} (he : t.entries.get? key = some e) (k : κ) :
    (t.forget key).entries.get? k =
      if k = key then
        if e.references ≤ 1 then none else some { e with references := e.references - 1 }
      else t.entries.get? k := by
  by_cases hlast : e.references ≤ 1
  · rw [LockTable.forget_of_last he hlast, if_pos hlast]
    show (t.entries.erase key).get? k = _
    rw [Table.get?_erase]
    simp only [eq_comm]
  · rw [LockTable.forget_of_more he hlast, if_neg hlast]
    show (t.entries.put key _).get? k = _
    rw [Table.get?_put]
    simp only [eq_comm]

theorem held_forget (t : LockTable κ) (key : κ) : (t.forget key).held = t.held := by
  cases he : t.entries.get? key with
  | none => rw [LockTable.forget_of_none he]
  | some e =>
    by_cases hlast : e.references ≤ 1
    · rw [LockTable.forget_of_last he hlast]
    · rw [LockTable.forget_of_more he hlast]

/-! ## What is known between two sections -/

theorem Sound.entry_of_holds (h : s.Sound) (hholds : s.Holds i key) :
    ∃ e, s.table.entries.get? key = some e ∧ (s.phase i).held? = some (key, e.lock) := by
  obtain ⟨lock, hheld⟩ := hholds
  obtain ⟨e, he, rfl⟩ := h.counts.refers i key lock (LockPhase.reference?_of_held? hheld)
  exact ⟨e, he, hheld⟩

theorem Sound.eq_of_holds {j : ι} (h : s.Sound) (hi : s.Holds i key) (hj : s.Holds j key) : i = j := by
  obtain ⟨e, he, hi⟩ := h.entry_of_holds hi
  obtain ⟨e', he', hj⟩ := h.entry_of_holds hj
  rw [he] at he'
  cases he'
  exact h.marks.holder i j key key e.lock hi hj

theorem Sound.entry_iff (h : s.Sound) (key : κ) :
    (∃ e, s.table.entries.get? key = some e) ↔ (s.callers key).Nonempty := by
  constructor
  · rintro ⟨e, he⟩
    refine Set.nonempty_of_ncard_ne_zero ?_
    have hcount : e.references = (s.callers key).ncard := h.counts.counted key e he
    have hreferenced := h.table.referenced key e he
    omega
  · rintro ⟨i, lock, hreference⟩
    obtain ⟨e, he, -⟩ := h.counts.refers i key lock hreference
    exact ⟨e, he⟩

/-- A lock belongs to the key whose entry has it. -/
theorem Sound.mem_held_iff (h : s.Sound) {e : LockEntry} (he : s.table.entries.get? key = some e) :
    e.lock ∈ s.table.held ↔ ∃ i, s.Holds i key := by
  constructor
  · intro hmem
    obtain ⟨i, key', hheld⟩ := (h.marks.mem_iff e.lock).1 hmem
    obtain ⟨e', he', hlock⟩ := h.counts.refers i key' e.lock (LockPhase.reference?_of_held? hheld)
    have hkey : key = key' := h.counts.apart key key' e e' he he' hlock.symm
    subst hkey
    exact ⟨i, e.lock, hheld⟩
  · rintro ⟨i, hholds⟩
    obtain ⟨e', he', hheld⟩ := h.entry_of_holds hholds
    rw [he] at he'
    cases he'
    exact (h.marks.mem_iff e.lock).2 ⟨i, key, hheld⟩

theorem Sound.isEmpty_of_idle (h : s.Sound) (hidle : ∀ i, s.phase i = .idle) :
    s.table.isEmpty = true := by
  have hnone : ∀ key, s.table.entries.get? key = none := by
    intro key
    refine Option.eq_none_iff_forall_ne_some.2 fun e he => ?_
    obtain ⟨i, lock, hreference⟩ := (h.entry_iff key).1 ⟨e, he⟩
    rw [hidle i] at hreference
    cases hreference
  have hsize : s.table.size = 0 := by
    show s.table.entries.size = 0
    rw [Table.size_eq_ncard]
    simp only [hnone, reduceCtorEq, exists_false, Set.ofPred_false, Set.ncard_empty]
  exact decide_eq_true hsize

/-! ## Going on with a section -/

variable [DecidableEq ι]

theorem phase_step_self (next : LockStep ι κ) :
    (s.step next).phase next.caller = (next.part.run s.table (s.phase next.caller)).1 :=
  Function.update_self ..

theorem phase_step_of_ne (next : LockStep ι κ) {j : ι} (hj : j ≠ next.caller) :
    (s.step next).phase j = s.phase j :=
  Function.update_of_ne hj ..

/-- A caller keeps its reference. -/
theorem Sound.counts_kept (h : s.Sound) (hreference : phase.reference? = (s.phase i).reference?) :
    Counts s.table.entries fun j => (Function.update s.phase i phase j).reference? := by
  rw [map_update, hreference, Function.update_eq_self]
  exact h.counts

/-- A caller goes on holding what it holds. -/
theorem Sound.marks_kept (h : s.Sound) (hheld : phase.held? = (s.phase i).held?) :
    Marks s.table.held fun j => (Function.update s.phase i phase j).held? := by
  rw [map_update, hheld, Function.update_eq_self]
  exact h.marks

theorem Sound.moved (h : s.Sound) {r : LockPhase κ × LockTable κ}
    (hmoves : Moves s.table (s.phase i) r) :
    (⟨r.2, Function.update s.phase i r.1⟩ : LockSystem ι κ).Sound := by
  cases hmoves with
  | kept after hreference hheld =>
    exact ⟨h.table, h.counts_kept hreference, h.marks_kept hheld⟩
  | asked key after hidle hafter hheld =>
    obtain ⟨e, next, hreference, hnext, hlock, hcount, hsame, hown⟩ := h.exists_reference key
    rw [hreference] at hafter ⊢
    refine ⟨?_, ?_, ?_⟩
    · refine h.table.put hnext (by omega) hlock fun lock hheld => ?_
      exact Nat.lt_of_lt_of_le (h.table.held_lt lock hheld) hnext
    · show Counts (s.table.entries.put key e) fun j => (Function.update s.phase i _ j).reference?
      rw [map_update, hafter]
      exact h.counts.asked (congrArg LockPhase.reference? hidle) hcount hsame hown
    · refine h.marks_kept ?_
      rw [hidle]
      exact hheld
  | taken key lock hreference hheld hfree =>
    obtain ⟨e, he, rfl⟩ := h.counts.refers i key lock hreference
    refine ⟨⟨h.table.referenced, h.table.entries_lt, fun lock hlock => ?_⟩, ?_, ?_⟩
    · rcases List.mem_cons.1 hlock with rfl | hlock
      · exact h.table.entries_lt key e he
      · exact h.table.held_lt lock hlock
    · exact h.counts_kept hreference.symm
    · show Marks (e.lock :: s.table.held) fun j => (Function.update s.phase i _ j).held?
      rw [map_update]
      exact h.marks.taken hheld hfree
  | cleared key lock hheld =>
    refine ⟨h.table.clear lock, ?_, ?_⟩
    · exact h.counts_kept (LockPhase.reference?_of_held? hheld).symm
    · show Marks (s.table.held.filter (· ≠ lock)) fun j => (Function.update s.phase i _ j).held?
      rw [map_update]
      exact h.marks.cleared hheld
  | dropped key lock hreference hheld =>
    obtain ⟨e, he, -⟩ := h.counts.refers i key lock hreference
    refine ⟨h.table.forget key, ?_, ?_⟩
    · show Counts (s.table.forget key).entries fun j => (Function.update s.phase i _ j).reference?
      rw [map_update]
      refine h.counts.dropped hreference he (fun k hk => ?_) ?_
      · rw [get?_forget he, if_neg hk]
      · rw [get?_forget he, if_pos rfl]
    · show Marks (s.table.forget key).held fun j => (Function.update s.phase i _ j).held?
      rw [held_forget]
      exact h.marks_kept hheld.symm

theorem Sound.step (h : s.Sound) (next : LockStep ι κ) : (s.step next).Sound :=
  h.moved (h.moves next.caller next.part)

theorem Sound.runAll (h : s.Sound) (steps : List (LockStep ι κ)) :
    (LockSystem.runAll steps s).Sound := by
  induction steps generalizing s with
  | nil => exact h
  | cons next steps ih => exact ih (h.step next)

/-! ## Callers that nobody interrupts -/

/-- Taking a lock is asking for it, testing it at the deadline and dropping the reference if it is
held. -/
theorem runAll_acquire (hidle : s.phase i = .idle) {timeout : Duration}
    {asked deadline now : Instant} (hdeadline : asked.after? timeout = some deadline)
    (hpassed : deadline ≤ now) :
    runAll [⟨i, .ask key timeout asked⟩, ⟨i, .test now⟩, ⟨i, .drop⟩] s =
      ⟨(s.table.acquire key).2, Function.update s.phase i
        (if (s.table.acquire key).1 then .holding key (s.table.reference key).1 else .idle)⟩ := by
  cases htake : (s.table.reference key).2.take? (s.table.reference key).1 with
  | some taken =>
    have hacquire : s.table.acquire key = (true, taken) := by
      simp only [LockTable.acquire, htake]
    simp only [runAll, step, hidle, LockSection.run, LockSection.waitFor, hdeadline,
      Function.update_self, Function.update_idem, htake, hacquire, if_true]
  | none =>
    have hacquire : s.table.acquire key = (false, (s.table.reference key).2.forget key) := by
      simp only [LockTable.acquire, htake]
    simp only [runAll, step, hidle, LockSection.run, LockSection.waitFor, hdeadline,
      Function.update_self, Function.update_idem, htake, hacquire, if_pos hpassed,
      Bool.false_eq_true, if_false]

/-- Giving a lock back is looking it up, freeing it and dropping the reference. -/
theorem Sound.runAll_release (h : s.Sound) (hholding : s.phase i = .holding key lock) :
    LockSystem.runAll [⟨i, .find⟩, ⟨i, .clear⟩, ⟨i, .drop⟩] s =
      ⟨s.table.release key, Function.update s.phase i .idle⟩ := by
  have hreference : (s.phase i).reference? = some (key, lock) := by
    rw [hholding]
    rfl
  obtain ⟨e, he, rfl⟩ := h.counts.refers i key lock hreference
  simp only [LockSystem.runAll, LockSystem.step, hholding, he, LockSection.run,
    Function.update_self, Function.update_idem, LockTable.release_of_some he]

/-! ## Callers that end with their reference -/

theorem phase_runAll_of_lost (hlost : s.phase i = .lost key lock) (steps : List (LockStep ι κ)) :
    (runAll steps s).phase i = .lost key lock := by
  induction steps generalizing s with
  | nil => exact hlost
  | cons next steps ih =>
    refine ih ?_
    by_cases hi : i = next.caller
    · subst hi
      rw [phase_step_self, hlost, LockSection.run_lost]
    · exact (phase_step_of_ne next hi).trans hlost

/-- The entry of a key whose caller has ended at its deadline stays, with the same lock. -/
theorem Sound.entry_of_lost (h : s.Sound) (hlost : s.phase i = .lost key lock)
    (steps : List (LockStep ι κ)) :
    ∃ e, (LockSystem.runAll steps s).table.entries.get? key = some e ∧ e.lock = lock := by
  refine (h.runAll steps).counts.refers i key lock ?_
  rw [phase_runAll_of_lost hlost steps]
  rfl

/-! ## The outcome -/

/-- What can be relied on between any two sections. -/
structure Exclusive (s : LockSystem ι κ) : Prop where
  /-- At most one caller holds a key. -/
  holder : ∀ key i j, s.Holds i key → s.Holds j key → i = j
  /-- Whoever has a reference to a key has the lock of its entry. -/
  shared : ∀ key i lock, (s.phase i).reference? = some (key, lock) →
    ∃ e, s.table.entries.get? key = some e ∧ e.lock = lock
  /-- There is an entry exactly while somebody has a reference to the key. -/
  entry_iff : ∀ key, (∃ e, s.table.entries.get? key = some e) ↔ (s.callers key).Nonempty
  /-- An entry counts the callers that have a reference to its key. -/
  counted : ∀ key e, s.table.entries.get? key = some e →
    (s.callers key).Finite ∧ e.references = (s.callers key).ncard
  /-- The lock of a key is marked as held exactly while somebody holds the key. -/
  marked : ∀ key e, s.table.entries.get? key = some e → (e.lock ∈ s.table.held ↔ ∃ i, s.Holds i key)
  /-- A caller that refers to other keys, or to none, before and after a section leaves this one as
  it is, and whatever it does the other callers stay where they are. -/
  separate : ∀ next : LockStep ι κ,
    (∀ key, next.caller ∉ s.callers key → next.caller ∉ (s.step next).callers key →
      (s.step next).keyState? key = s.keyState? key ∧ (s.step next).callers key = s.callers key) ∧
    ∀ j, j ≠ next.caller → (s.step next).phase j = s.phase j
  /-- A caller that has ended with its reference keeps the entry for good. -/
  lasting : ∀ key i lock, s.phase i = .lost key lock → ∀ steps,
    ∃ e, (runAll steps s).table.entries.get? key = some e ∧ e.lock = lock
  /-- Nothing is left when nobody holds a lock, waits for one, is giving one up or back or has ended
  with a reference. -/
  vacant : (∀ i, s.phase i = .idle) → s.table.isEmpty = true

theorem callers_step (next : LockStep ι κ) (hbefore : next.caller ∉ s.callers key)
    (hafter : next.caller ∉ (s.step next).callers key) :
    (s.step next).callers key = s.callers key := by
  ext j
  by_cases hj : j = next.caller
  · rw [hj]
    exact iff_of_false hafter hbefore
  · have hphase : (s.step next).phase j = s.phase j := phase_step_of_ne next hj
    show (∃ lock, ((s.step next).phase j).reference? = some (key, lock)) ↔
      ∃ lock, (s.phase j).reference? = some (key, lock)
    rw [hphase]

/-- Neither the entry of a key nor the mark of its lock depends on callers of other keys. -/
theorem Sound.keyState?_moved (h : s.Sound) {r : LockPhase κ × LockTable κ}
    (hmoves : Moves s.table (s.phase i) r)
    (hbefore : ∀ lock, (s.phase i).reference? ≠ some (key, lock))
    (hafter : ∀ lock, r.1.reference? ≠ some (key, lock)) :
    (⟨r.2, Function.update s.phase i r.1⟩ : LockSystem ι κ).keyState? key = s.keyState? key := by
  have hkey : ∀ {k lock}, (s.phase i).reference? = some (k, lock) → k ≠ key := by
    rintro k lock hreference rfl
    exact hbefore lock hreference
  -- The lock of another key is not the lock of this one.
  have hlock : ∀ {k lock e}, (s.phase i).reference? = some (k, lock) →
      s.table.entries.get? key = some e → e.lock ≠ lock := by
    intro k lock e hreference he heq
    obtain ⟨e', he', rfl⟩ := h.counts.refers i k lock hreference
    exact hkey hreference (h.counts.apart k key e' e he' he heq.symm)
  cases hmoves with
  | kept after hreference hheld => rfl
  | asked k after hidle hreference hheld =>
    have hne : k ≠ key := by
      rintro rfl
      exact hafter _ hreference
    obtain ⟨e, next, hreference, -⟩ := h.exists_reference k
    show ((s.table.reference k).2.entries.get? key).map _ = _
    rw [hreference, Table.get?_put, if_neg hne]
    rfl
  | taken k lock hreference hheld hfree =>
    refine Option.map_congr fun e he => ?_
    have hne : e.lock ≠ lock := hlock hreference he
    simp only [List.mem_cons, hne, false_or]
  | cleared k lock hheld =>
    refine Option.map_congr fun e he => ?_
    have hne : e.lock ≠ lock := hlock (LockPhase.reference?_of_held? hheld) he
    simp only [LockTable.clear, List.mem_filter, hne, decide_true, and_true, ne_eq, not_false_eq_true]
  | dropped k lock hreference hheld =>
    obtain ⟨e, he, -⟩ := h.counts.refers i k lock hreference
    show ((s.table.forget k).entries.get? key).map _ = _
    rw [get?_forget he, if_neg (hkey hreference).symm, held_forget]
    rfl

theorem Sound.exclusive (h : s.Sound) : s.Exclusive where
  holder _ _ _ := h.eq_of_holds
  shared key i lock := h.counts.refers i key lock
  entry_iff := h.entry_iff
  counted key e he := ⟨h.counts.finite key, h.counts.counted key e he⟩
  marked _ _ := h.mem_held_iff
  separate next := by
    refine ⟨fun key hbefore hafter => ⟨?_, callers_step next hbefore hafter⟩,
      fun j => phase_step_of_ne next⟩
    refine h.keyState?_moved (h.moves next.caller next.part) (fun lock hreference => ?_)
      fun lock hreference => ?_
    · exact hbefore ⟨lock, hreference⟩
    · refine hafter ⟨lock, ?_⟩
      rw [phase_step_self]
      exact hreference
  lasting _ _ _ hlost steps := h.entry_of_lost hlost steps
  vacant := h.isEmpty_of_idle

/-- In every interleaving of any callers, at most one holds a key, all that want it share one lock,
an entry exists and counts as long as there are such callers, no key disturbs another, and in the
end nothing is left. -/
theorem keyed_locks_exclude (steps : List (LockStep ι κ)) :
    (runAll steps (start : LockSystem ι κ)).Exclusive :=
  (sound_start.runAll steps).exclusive

-- A waiter takes the lock before the holder has dropped its reference, and keeps the entry alive.
example :
    (runAll [⟨false, .ask () ⟨5⟩ 0⟩, ⟨false, .test 0⟩, ⟨true, .ask () ⟨5⟩ 0⟩, ⟨false, .find⟩,
      ⟨false, .clear⟩, ⟨true, .test 1⟩, ⟨false, .drop⟩]
      (start : LockSystem Bool Unit)).keyState? () = some (⟨0, 1⟩, true) := by decide

end LockSystem

end PvNet
