import PvNet.LockTable
set_option autoImplicit false

/-!
# Taking a lock and giving it back

Whoever takes the lock of a key and gives it back, or finds it held by somebody else, leaves
the same locks held and waited for as before (`Sound.same_of_settled`).
-/

namespace PvNet

namespace LockTable

variable {κ : Type} [DecidableEq κ] {l l' : LockTable κ} {k : κ} {e : LockEntry}

/-- Every lock has been numbered, and whatever has an entry is held or waited for by somebody. -/
structure Sound (l : LockTable κ) : Prop where
  referenced : ∀ k e, l.entries.get? k = some e → 1 ≤ e.references
  entries_lt : ∀ k e, l.entries.get? k = some e → e.lock < l.next
  held_lt : ∀ lock ∈ l.held, lock < l.next

/-- The same locks are held and waited for, by as many callers. -/
structure Same (l l' : LockTable κ) : Prop where
  entries : ∀ k, l'.entries.get? k = l.entries.get? k
  held : l'.held = l.held

/-- What becomes of the locks when a caller that wanted one of them is done. -/
inductive Settled (l : LockTable κ) (k : κ) : LockTable κ → Prop where
  | refused {l' : LockTable κ} (h : l.acquire k = (false, l')) : Settled l k l'
  | released {l' : LockTable κ} (h : l.acquire k = (true, l')) : Settled l k (l'.release k)

theorem sound_empty : (empty : LockTable κ).Sound where
  referenced _ _ h := nomatch h
  entries_lt _ _ h := nomatch h
  held_lt _ h := nomatch h

/-! ## Taking a lock -/

theorem Sound.next_not_mem_held (h : l.Sound) : l.next ∉ l.held := fun hmem =>
  Nat.lt_irrefl _ (h.held_lt _ hmem)

theorem reference_of_none (hnone : l.entries.get? k = none) :
    l.reference k = (l.next, ⟨l.entries.put k ⟨l.next, 1⟩, l.held, l.next + 1⟩) := by
  simp only [reference, hnone]

theorem reference_of_some (he : l.entries.get? k = some e) :
    l.reference k =
      (e.lock, { l with
        entries := l.entries.put k { e with references := e.references + 1 } }) := by
  simp only [reference, he]

/-- The lock of a key that nobody wants is made and taken. -/
theorem acquire_of_none (hnone : l.entries.get? k = none) (hnext : l.next ∉ l.held) :
    l.acquire k =
      (true, ⟨l.entries.put k ⟨l.next, 1⟩, l.next :: l.held, l.next + 1⟩) := by
  simp only [acquire, reference, hnone, take?, if_neg hnext]

theorem acquire_of_free (he : l.entries.get? k = some e) (hfree : e.lock ∉ l.held) :
    l.acquire k =
      (true,
        ⟨l.entries.put k { e with references := e.references + 1 }, e.lock :: l.held, l.next⟩) := by
  simp only [acquire, reference, he, take?, if_neg hfree]

/-- Finding a lock held takes the reference back. -/
theorem acquire_of_held (he : l.entries.get? k = some e) (hheld : e.lock ∈ l.held)
    (hreferenced : 1 ≤ e.references) :
    l.acquire k =
      (false,
        { l with
          entries := (l.entries.put k { e with references := e.references + 1 }).put k e }) := by
  have hput : (l.entries.put k { e with references := e.references + 1 }).get? k =
      some { e with references := e.references + 1 } := by
    rw [Table.get?_put, if_pos rfl]
  have hmore : ¬ e.references + 1 ≤ 1 := by omega
  simp only [acquire, reference, he, take?, if_pos hheld, forget, hput, if_neg hmore,
    Nat.add_sub_cancel]

/-- What taking a lock comes to. -/
theorem Sound.acquire_cases (h : l.Sound) (k : κ) :
    (l.entries.get? k = none ∧
      l.acquire k = (true, ⟨l.entries.put k ⟨l.next, 1⟩, l.next :: l.held, l.next + 1⟩)) ∨
    (∃ e, l.entries.get? k = some e ∧ e.lock ∉ l.held ∧
      l.acquire k =
        (true,
          ⟨l.entries.put k { e with references := e.references + 1 }, e.lock :: l.held,
            l.next⟩)) ∨
    (∃ e, l.entries.get? k = some e ∧
      l.acquire k =
        (false,
          { l with
            entries := (l.entries.put k { e with references := e.references + 1 }).put k e })) := by
  cases he : l.entries.get? k with
  | none => exact .inl ⟨rfl, acquire_of_none he h.next_not_mem_held⟩
  | some e =>
    by_cases hheld : e.lock ∈ l.held
    · exact .inr (.inr ⟨e, rfl, acquire_of_held he hheld (h.referenced k e he)⟩)
    · exact .inr (.inl ⟨e, rfl, hheld, acquire_of_free he hheld⟩)

theorem Sound.put (h : l.Sound) {held : List Nat} {next : Nat} (hnext : l.next ≤ next)
    (hreferenced : 1 ≤ e.references) (hlock : e.lock < next) (hheld : ∀ lock ∈ held, lock < next) :
    (⟨l.entries.put k e, held, next⟩ : LockTable κ).Sound := by
  refine ⟨fun k' e' he' => ?_, fun k' e' he' => ?_, hheld⟩
  · rw [Table.get?_put] at he'
    by_cases hk : k = k'
    · rw [if_pos hk] at he'
      cases he'
      exact hreferenced
    · rw [if_neg hk] at he'
      exact h.referenced k' e' he'
  · rw [Table.get?_put] at he'
    by_cases hk : k = k'
    · rw [if_pos hk] at he'
      cases he'
      exact hlock
    · rw [if_neg hk] at he'
      exact Nat.lt_of_lt_of_le (h.entries_lt k' e' he') hnext

theorem Sound.acquire (h : l.Sound) (k : κ) : (l.acquire k).2.Sound := by
  rcases h.acquire_cases k with ⟨-, hacquire⟩ | ⟨e, he, -, hacquire⟩ | ⟨e, he, hacquire⟩
  · rw [hacquire]
    refine h.put (Nat.le_succ _) (Nat.le_refl _) (Nat.lt_succ_self _) fun lock hlock => ?_
    rcases List.mem_cons.1 hlock with rfl | hlock
    · exact Nat.lt_succ_self _
    · exact Nat.lt_succ_of_lt (h.held_lt lock hlock)
  · rw [hacquire]
    have hlt := h.entries_lt k e he
    refine h.put (Nat.le_refl _) (Nat.le_add_left _ _) hlt fun lock hlock => ?_
    rcases List.mem_cons.1 hlock with rfl | hlock
    · exact hlt
    · exact h.held_lt lock hlock
  · rw [hacquire]
    have hlt := h.entries_lt k e he
    have hreferenced := h.referenced k e he
    have hmore : Sound { l with
        entries := l.entries.put k { e with references := e.references + 1 } } :=
      h.put (Nat.le_refl _) (Nat.le_add_left _ _) hlt h.held_lt
    exact hmore.put (Nat.le_refl _) hreferenced hlt h.held_lt

/-! ## Giving it back -/

theorem forget_of_none (hnone : l.entries.get? k = none) : l.forget k = l := by
  simp only [forget, hnone]

/-- The last reference takes the lock with it. -/
theorem forget_of_last (he : l.entries.get? k = some e) (hlast : e.references ≤ 1) :
    l.forget k = { l with entries := l.entries.erase k } := by
  simp only [forget, he, if_pos hlast]

theorem forget_of_more (he : l.entries.get? k = some e) (hmore : ¬ e.references ≤ 1) :
    l.forget k =
      { l with entries := l.entries.put k { e with references := e.references - 1 } } := by
  simp only [forget, he, if_neg hmore]

theorem Sound.clear (h : l.Sound) (lock : Nat) : (l.clear lock).Sound :=
  ⟨h.referenced, h.entries_lt, fun lock hlock => h.held_lt lock (List.mem_filter.1 hlock).1⟩

theorem Sound.forget (h : l.Sound) (k : κ) : (l.forget k).Sound := by
  cases he : l.entries.get? k with
  | none =>
    rw [forget_of_none he]
    exact h
  | some e =>
    by_cases hlast : e.references ≤ 1
    · rw [forget_of_last he hlast]
      have herased : ∀ k' e', (l.entries.erase k).get? k' = some e' →
          l.entries.get? k' = some e' := by
        intro k' e' he'
        rw [Table.get?_erase] at he'
        by_cases hk : k = k'
        · rw [if_pos hk] at he'
          cases he'
        · rwa [if_neg hk] at he'
      exact ⟨fun k' e' he' => h.referenced k' e' (herased k' e' he'),
        fun k' e' he' => h.entries_lt k' e' (herased k' e' he'), h.held_lt⟩
    · rw [forget_of_more he hlast]
      exact h.put (Nat.le_refl _) (show 1 ≤ e.references - 1 by omega) (h.entries_lt k e he)
        h.held_lt

theorem release_of_none (hnone : l.entries.get? k = none) : l.release k = l := by
  simp only [release, hnone]

theorem release_of_some (he : l.entries.get? k = some e) :
    l.release k = (l.clear e.lock).forget k := by
  simp only [release, he]

theorem release_of_last (he : l.entries.get? k = some e) (hlast : e.references ≤ 1) :
    l.release k = ⟨l.entries.erase k, l.held.filter (· ≠ e.lock), l.next⟩ :=
  (release_of_some he).trans (forget_of_last (l := l.clear e.lock) he hlast)

theorem release_of_more (he : l.entries.get? k = some e) (hmore : ¬ e.references ≤ 1) :
    l.release k =
      ⟨l.entries.put k { e with references := e.references - 1 }, l.held.filter (· ≠ e.lock),
        l.next⟩ :=
  (release_of_some he).trans (forget_of_more (l := l.clear e.lock) he hmore)

theorem Sound.release (h : l.Sound) (k : κ) : (l.release k).Sound := by
  cases he : l.entries.get? k with
  | none =>
    rw [release_of_none he]
    exact h
  | some e =>
    rw [release_of_some he]
    exact (h.clear e.lock).forget k

theorem filter_cons_self {lock : Nat} {held : List Nat} (h : lock ∉ held) :
    (lock :: held).filter (· ≠ lock) = held := by
  rw [List.filter_cons_of_neg (by simp), List.filter_eq_self]
  intro other hother
  have hne : other ≠ lock := fun heq => h (heq ▸ hother)
  exact decide_eq_true hne

/-- Taking a lock and giving it back, or not getting it, leaves everything as it was. -/
theorem Sound.same_of_settled (h : l.Sound) (hsettled : l.Settled k l') : l.Same l' := by
  cases hsettled with
  | refused hrefused =>
    rcases h.acquire_cases k with ⟨-, hacquire⟩ | ⟨e, -, -, hacquire⟩ | ⟨e, he, hacquire⟩
    · rw [hacquire] at hrefused
      cases hrefused
    · rw [hacquire] at hrefused
      cases hrefused
    · rw [hacquire] at hrefused
      cases hrefused
      refine ⟨fun k' => ?_, rfl⟩
      rw [Table.get?_put, Table.get?_put]
      by_cases hk : k = k'
      · rw [if_pos hk, ← hk, he]
      · rw [if_neg hk, if_neg hk]
  | @released taken htaken =>
    rcases h.acquire_cases k with ⟨hnone, hacquire⟩ | ⟨e, he, hfree, hacquire⟩ | ⟨e, -, hacquire⟩
    · rw [hacquire] at htaken
      cases htaken
      have hentry : (l.entries.put k ⟨l.next, 1⟩).get? k = some ⟨l.next, 1⟩ := by
        rw [Table.get?_put, if_pos rfl]
      rw [release_of_last hentry (Nat.le_refl _)]
      refine ⟨fun k' => ?_, filter_cons_self h.next_not_mem_held⟩
      rw [Table.get?_erase, Table.get?_put]
      by_cases hk : k = k'
      · rw [if_pos hk, ← hk, hnone]
      · rw [if_neg hk, if_neg hk]
    · rw [hacquire] at htaken
      cases htaken
      have hreferenced := h.referenced k e he
      have hentry : (l.entries.put k { e with references := e.references + 1 }).get? k =
          some { e with references := e.references + 1 } := by
        rw [Table.get?_put, if_pos rfl]
      rw [release_of_more hentry (show ¬ e.references + 1 ≤ 1 by omega)]
      refine ⟨fun k' => ?_, filter_cons_self hfree⟩
      rw [Table.get?_put, Table.get?_put]
      by_cases hk : k = k'
      · rw [if_pos hk, ← hk, he]
        rfl
      · rw [if_neg hk, if_neg hk]
    · rw [hacquire] at htaken
      cases htaken

theorem Sound.settled (h : l.Sound) (hsettled : l.Settled k l') : l'.Sound := by
  have hacquired := h.acquire k
  cases hsettled with
  | refused hrefused =>
    rw [hrefused] at hacquired
    exact hacquired
  | released hreleased =>
    rw [hreleased] at hacquired
    exact hacquired.release k

end LockTable

end PvNet
