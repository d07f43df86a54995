set_option autoImplicit false

/-!
# Tables

A finite map as a list of pairs with distinct keys, in the order in which the keys
were first put.  `get?` is the view of a table; one lemma per operation says what the
operation does to it.
-/

namespace PvNet

/-- A finite map from keys to values. -/
structure Table (κ α : Type) where
  entries : List (κ × α)
  distinct : (entries.map (·.1)).Nodup

namespace Table

variable {κ α β : Type} [DecidableEq κ]

/-- The table without entries. -/
def empty : Table κ α := ⟨[], by simp⟩

instance : Inhabited (Table κ α) := ⟨empty⟩

def keys (t : Table κ α) : List κ := t.entries.map (·.1)

/-- The values, in the order of the keys. -/
def values (t : Table κ α) : List α := t.entries.map (·.2)

/-- The number of keys. -/
def size (t : Table κ α) : Nat := t.entries.length

/-- Whether there is no key. -/
def isEmpty (t : Table κ α) : Bool := t.entries.isEmpty

/-- The value of a key in a list of pairs. -/
def find? (k : κ) : List (κ × α) → Option α
  | [] => none
  | (k', a) :: es => if k' = k then some a else find? k es

/-- The value of a key. -/
def get? (t : Table κ α) (k : κ) : Option α := find? k t.entries

/-- A list of pairs with a new value for a key. -/
def putEntry (k : κ) (a : α) : List (κ × α) → List (κ × α)
  | [] => [(k, a)]
  | (k', a') :: es => if k' = k then (k, a) :: es else (k', a') :: putEntry k a es

theorem mem_keys_putEntry (k : κ) (a : α) (es : List (κ × α)) (k' : κ) :
    k' ∈ (putEntry k a es).map (·.1) ↔ k' = k ∨ k' ∈ es.map (·.1) := by
  induction es with
  | nil => simp [putEntry]
  | cons e es ih =>
    obtain ⟨k₁, a₁⟩ := e
    simp only [putEntry]
    split
    · rename_i h
      subst h
      simp
    · simp only [List.map_cons, List.mem_cons, ih]
      constructor <;> (intro h; rcases h with h | h | h <;> simp [h])

theorem nodup_putEntry (k : κ) (a : α) (es : List (κ × α)) (h : (es.map (·.1)).Nodup) :
    ((putEntry k a es).map (·.1)).Nodup := by
  induction es with
  | nil => simp [putEntry]
  | cons e es ih =>
    obtain ⟨k₁, a₁⟩ := e
    simp only [List.map_cons, List.nodup_cons] at h
    simp only [putEntry]
    split
    · rename_i hk
      subst hk
      simpa only [List.map_cons, List.nodup_cons] using h
    · rename_i hk
      simp only [List.map_cons, List.nodup_cons, mem_keys_putEntry]
      exact ⟨by rintro (h' | h'); exact hk h'; exact h.1 h', ih h.2⟩

/-- The table with a value for a key, in place of an earlier one. -/
def put (t : Table κ α) (k : κ) (a : α) : Table κ α :=
  ⟨putEntry k a t.entries, nodup_putEntry k a t.entries t.distinct⟩

/-- The table of those entries that satisfy a condition. -/
def filter (t : Table κ α) (p : κ → α → Bool) : Table κ α where
  entries := t.entries.filter fun e => p e.1 e.2
  distinct := List.Sublist.nodup (List.Sublist.map _ List.filter_sublist) t.distinct

/-- The table without a key. -/
def erase (t : Table κ α) (k : κ) : Table κ α := t.filter fun k' _ => k' ≠ k

/-- The table with every value changed. -/
def mapValues (t : Table κ α) (f : κ → α → β) : Table κ β where
  entries := t.entries.map fun e => (e.1, f e.1 e.2)
  distinct := by
    have h : ((t.entries.map fun e => (e.1, f e.1 e.2)).map (·.1)) = t.entries.map (·.1) := by
      simp
    rw [h]
    exact t.distinct

/-- A list of pairs whose values are changed one after the other, up to the first change that
fails.  Says whether none does. -/
def changeEntries (f : κ → α → α × Bool) : List (κ × α) → List (κ × α) × Bool
  | [] => ([], true)
  | (k, a) :: es =>
    match f k a with
    | (b, true) => ((k, b) :: (changeEntries f es).1, (changeEntries f es).2)
    | (b, false) => ((k, b) :: es, false)

section

omit [DecidableEq κ]

variable {f : κ → α → α × Bool} {k : κ} {a : α}

theorem changeEntries_cons_of_done (h : (f k a).2 = true) (es : List (κ × α)) :
    changeEntries f ((k, a) :: es) =
      ((k, (f k a).1) :: (changeEntries f es).1, (changeEntries f es).2) := by
  have hf : f k a = ((f k a).1, true) := by rw [← h]
  rw [changeEntries, hf]

theorem changeEntries_cons_of_failed (h : (f k a).2 = false) (es : List (κ × α)) :
    changeEntries f ((k, a) :: es) = ((k, (f k a).1) :: es, false) := by
  have hf : f k a = ((f k a).1, false) := by rw [← h]
  rw [changeEntries, hf]

theorem keys_changeEntries (f : κ → α → α × Bool) (es : List (κ × α)) :
    (changeEntries f es).1.map (·.1) = es.map (·.1) := by
  induction es with
  | nil => rfl
  | cons e es ih =>
    obtain ⟨k, a⟩ := e
    cases h : (f k a).2 with
    | true => rw [changeEntries_cons_of_done h, List.map_cons, ih, List.map_cons]
    | false => rw [changeEntries_cons_of_failed h, List.map_cons, List.map_cons]

end

/-- The table with its values changed one after the other, up to the first change that fails, and
whether none does. -/
def changeValues (t : Table κ α) (f : κ → α → α × Bool) : Table κ α × Bool :=
  (⟨(changeEntries f t.entries).1, by rw [keys_changeEntries]; exact t.distinct⟩,
    (changeEntries f t.entries).2)

/-! ## Views -/

@[simp] theorem get?_empty (k : κ) : (empty : Table κ α).get? k = none := rfl

theorem find?_putEntry (k : κ) (a : α) (es : List (κ × α)) (k' : κ) :
    find? k' (putEntry k a es) = if k = k' then some a else find? k' es := by
  induction es with
  | nil => simp [putEntry, find?]
  | cons e es ih =>
    obtain ⟨k₁, a₁⟩ := e
    simp only [putEntry]
    split
    · rename_i h
      subst h
      simp only [find?]
      split <;> rfl
    · rename_i h
      simp only [find?, ih]
      split
      · rename_i h₁
        subst h₁
        rw [if_neg fun h₂ => h h₂.symm]
      · rfl

@[simp] theorem get?_put (t : Table κ α) (k : κ) (a : α) (k' : κ) :
    (t.put k a).get? k' = if k = k' then some a else t.get? k' :=
  find?_putEntry k a t.entries k'

theorem find?_of_mem {es : List (κ × α)} (h : (es.map (·.1)).Nodup) {k : κ} {a : α}
    (hmem : (k, a) ∈ es) : find? k es = some a := by
  induction es with
  | nil => cases hmem
  | cons e es ih =>
    obtain ⟨k', a'⟩ := e
    rw [List.map_cons, List.nodup_cons] at h
    rcases List.mem_cons.1 hmem with heq | hmem
    · obtain ⟨rfl, rfl⟩ := Prod.mk.inj heq
      exact if_pos rfl
    · have hne : k' ≠ k := fun heq => h.1 (List.mem_map.2 ⟨(k, a), hmem, heq.symm⟩)
      rw [find?, if_neg hne, ih h.2 hmem]

/-- Every entry of a table is found under its key. -/
theorem get?_of_mem {t : Table κ α} {k : κ} {a : α} (h : (k, a) ∈ t.entries) :
    t.get? k = some a := find?_of_mem t.distinct h

section

variable {t : Table κ α} {k : κ} {a : α}

theorem mem_of_find? {es : List (κ × α)} (h : find? k es = some a) : (k, a) ∈ es := by
  induction es with
  | nil => cases h
  | cons e es ih =>
    obtain ⟨k', a'⟩ := e
    by_cases hk : k' = k
    · rw [find?, if_pos hk] at h
      cases h
      rw [hk]
      exact List.mem_cons_self
    · rw [find?, if_neg hk] at h
      exact List.mem_cons_of_mem _ (ih h)

theorem mem_entries_iff : (k, a) ∈ t.entries ↔ t.get? k = some a :=
  ⟨get?_of_mem, mem_of_find?⟩

theorem mem_keys_iff : k ∈ t.keys ↔ ∃ a, t.get? k = some a := by
  constructor
  · intro h
    obtain ⟨⟨k', a⟩, hmem, rfl⟩ := List.mem_map.1 h
    exact ⟨a, get?_of_mem hmem⟩
  · rintro ⟨a, h⟩
    exact List.mem_map.2 ⟨(k, a), mem_of_find? h, rfl⟩

theorem mem_values_iff : a ∈ t.values ↔ ∃ k, t.get? k = some a := by
  constructor
  · intro h
    obtain ⟨⟨k, a'⟩, hmem, rfl⟩ := List.mem_map.1 h
    exact ⟨k, get?_of_mem hmem⟩
  · rintro ⟨k, h⟩
    exact List.mem_map.2 ⟨(k, a), mem_of_find? h, rfl⟩

end

theorem find?_filter (p : κ → α → Bool) (es : List (κ × α)) (h : (es.map (·.1)).Nodup) (k : κ) :
    find? k (es.filter fun e => p e.1 e.2) = (find? k es).filter (p k) := by
  induction es with
  | nil => rfl
  | cons e es ih =>
    obtain ⟨k₁, a₁⟩ := e
    simp only [List.map_cons, List.nodup_cons] at h
    have hout : ∀ fs : List (κ × α), (∀ e ∈ fs, e ∈ es) → find? k₁ fs = none := by
      intro fs hfs
      induction fs with
      | nil => rfl
      | cons f fs ihf =>
        have hne : f.1 ≠ k₁ := by
          intro heq
          exact h.1 (heq ▸ List.mem_map_of_mem (hfs f (by simp)))
        simp only [find?, if_neg hne]
        exact ihf fun e he => hfs e (by simp [he])
    simp only [List.filter_cons]
    by_cases hk : k₁ = k
    · subst hk
      by_cases hp : p k₁ a₁
      · simp [hp, find?, Option.filter]
      · have hnone := hout (es.filter fun e => p e.1 e.2) fun e he => (List.mem_filter.1 he).1
        simp [hp, find?, Option.filter, hnone]
    · by_cases hp : p k₁ a₁
      · simp [hp, find?, hk, ih h.2]
      · simp [hp, find?, hk, ih h.2]

@[simp] theorem get?_filter (t : Table κ α) (p : κ → α → Bool) (k : κ) :
    (t.filter p).get? k = (t.get? k).filter (p k) :=
  find?_filter p t.entries t.distinct k

@[simp] theorem get?_erase (t : Table κ α) (k k' : κ) :
    (t.erase k).get? k' = if k = k' then none else t.get? k' := by
  simp only [erase, get?_filter]
  split
  · rename_i h
    subst h
    cases t.get? k <;> simp
  · rename_i h
    have h' : ¬k' = k := fun h₁ => h h₁.symm
    cases t.get? k' <;> simp [h']

@[simp] theorem get?_mapValues (t : Table κ α) (f : κ → α → β) (k : κ) :
    (t.mapValues f).get? k = (t.get? k).map (f k) := by
  simp only [get?, mapValues]
  induction t.entries with
  | nil => rfl
  | cons e es ih =>
    obtain ⟨k₁, a₁⟩ := e
    simp only [List.map_cons, find?]
    split
    · rename_i h
      subst h
      rfl
    · exact ih

/-! ### Changes that may fail -/

omit [DecidableEq κ] in
theorem changeEntries_cases (f : κ → α → α × Bool) (es : List (κ × α)) :
    ((∀ e ∈ es, (f e.1 e.2).2 = true) ∧
      changeEntries f es = (es.map fun e => (e.1, (f e.1 e.2).1), true)) ∨
    ∃ done k a left, es = done ++ (k, a) :: left ∧ (∀ e ∈ done, (f e.1 e.2).2 = true) ∧
      (f k a).2 = false ∧
      changeEntries f es =
        (done.map (fun e => (e.1, (f e.1 e.2).1)) ++ (k, (f k a).1) :: left, false) := by
  induction es with
  | nil => exact .inl ⟨fun _ he => (nomatch he), rfl⟩
  | cons e es ih =>
    obtain ⟨k, a⟩ := e
    cases h : (f k a).2 with
    | false =>
      exact .inr ⟨[], k, a, es, rfl, fun _ he => (nomatch he), h, changeEntries_cons_of_failed h es⟩
    | true =>
      have hcons := changeEntries_cons_of_done h es
      rcases ih with ⟨hall, heq⟩ | ⟨done, k', a', left, rfl, hdone, hfailed, heq⟩
      · refine .inl ⟨List.forall_mem_cons.2 ⟨h, hall⟩, ?_⟩
        rw [hcons, heq]
        rfl
      · refine .inr ⟨(k, a) :: done, k', a', left, rfl, List.forall_mem_cons.2 ⟨h, hdone⟩, hfailed,
          ?_⟩
        rw [hcons, heq]
        rfl

/-- What comes of changes that may fail.  Either all go through, or one fails: then the other
values are changed or not, and no other change has failed. -/
theorem changeValues_cases (t : Table κ α) (f : κ → α → α × Bool) :
    ((∀ k a, t.get? k = some a → (f k a).2 = true) ∧
      t.changeValues f = (t.mapValues fun k a => (f k a).1, true)) ∨
    (t.changeValues f).2 = false ∧ ∃ k a, t.get? k = some a ∧ (f k a).2 = false ∧
      (t.changeValues f).1.get? k = some (f k a).1 ∧
      ∀ k', k' ≠ k → (t.changeValues f).1.get? k' = t.get? k' ∨
        ∃ a', t.get? k' = some a' ∧ (f k' a').2 = true ∧
          (t.changeValues f).1.get? k' = some (f k' a').1 := by
  rcases changeEntries_cases f t.entries with
    ⟨hall, heq⟩ | ⟨done, k, a, left, hentries, hdone, hfailed, heq⟩
  · refine .inl ⟨fun k a hget => hall (k, a) (mem_entries_iff.2 hget), ?_⟩
    simp only [changeValues, mapValues, heq]
  · have hafter : (t.changeValues f).1.entries =
        done.map (fun e => (e.1, (f e.1 e.2).1)) ++ (k, (f k a).1) :: left := congrArg (·.1) heq
    have hchanged : ∀ {k' b}, (k', b) ∈ done.map (fun e => (e.1, (f e.1 e.2).1)) ++
        (k, (f k a).1) :: left → (t.changeValues f).1.get? k' = some b := by
      intro k' b hmem
      exact get?_of_mem (hafter ▸ hmem)
    refine .inr ⟨congrArg (·.2) heq, k, a, ?_, hfailed, ?_, fun k' hne => ?_⟩
    · exact get?_of_mem (by rw [hentries]; exact List.mem_append_right _ List.mem_cons_self)
    · exact hchanged (List.mem_append_right _ List.mem_cons_self)
    cases hget : t.get? k' with
    | none =>
      refine .inl (Option.eq_none_iff_forall_ne_some.2 fun b hb => ?_)
      have hkeys : (t.changeValues f).1.keys = t.keys := keys_changeEntries f t.entries
      obtain ⟨a', ha'⟩ := mem_keys_iff.1 (hkeys ▸ mem_keys_iff.2 ⟨b, hb⟩)
      rw [hget] at ha'
      cases ha'
    | some a' =>
      have hmem : (k', a') ∈ done ++ (k, a) :: left := hentries ▸ mem_entries_iff.2 hget
      rcases List.mem_append.1 hmem with hmem | hmem
      · refine .inr ⟨a', rfl, hdone _ hmem, hchanged (List.mem_append_left _ ?_)⟩
        exact List.mem_map.2 ⟨_, hmem, rfl⟩
      · rcases List.mem_cons.1 hmem with heq' | hmem
        · exact absurd (congrArg (·.1) heq') hne
        · exact .inl (hchanged (List.mem_append_right _ (List.mem_cons_of_mem _ hmem)))

/-- What no change affects stays as it is, also if one fails. -/
theorem map_get?_changeValues {t : Table κ α} {f : κ → α → α × Bool} {g : α → β}
    (hf : ∀ k a, g (f k a).1 = g a) (k : κ) :
    ((t.changeValues f).1.get? k).map g = (t.get? k).map g := by
  have hchanged : ∀ {k' a}, t.get? k' = some a → (t.changeValues f).1.get? k' = some (f k' a).1 →
      ((t.changeValues f).1.get? k').map g = (t.get? k').map g := by
    intro k' a hget hafter
    rw [hafter, hget, Option.map_some, Option.map_some, hf]
  rcases changeValues_cases t f with ⟨-, heq⟩ | ⟨-, k₀, a₀, hget, -, hafter, hothers⟩
  · rw [heq, get?_mapValues, Option.map_map]
    exact congrArg (fun h => Option.map h _) (funext (hf k))
  · by_cases hk : k = k₀
    · subst hk
      exact hchanged hget hafter
    · rcases hothers k hk with hsame | ⟨a, hget, -, hafter⟩
      · rw [hsame]
      · exact hchanged hget hafter

end Table

end PvNet
