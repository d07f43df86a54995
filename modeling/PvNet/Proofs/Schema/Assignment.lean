import PvNet.Proofs.Schema.SentNumbers
set_option autoImplicit false

/-!
# The life of a number

A sender writes descriptors and now and then forgets all numbers.  Its table changes in
the middle of a write: a structure is numbered before its members are written, and they
may be numbered in turn, until the table is full.  `Field.Writes` follows a write down to
each descriptor that is written inside of it, and `SentTypes.Meets` are the tables that a
sender has while it goes through its steps, those in the middle of a write included.

All of them come from the first one by numbering one structure after the other and by
forgetting everything.  So the numbers in use are always the first ones, each for one
descriptor, and until they are forgotten a descriptor keeps its number: wherever it is
written again, it is written as a reference.  What is left of a write are writes of further
members, so this includes the rest of the write that gave the number.
-/

namespace PvNet

/-- What a sender of descriptors does: it writes one or its absence, or forgets its numbers. -/
inductive DescriptorStep where
  | write (o : ByteOrder) (f : Option Field)
  | clear

/-- What becomes of a sender's table. -/
def SentTypes.step (t : SentTypes) : DescriptorStep → SentTypes
  | .write o f => (Field.encode? o f t).2
  | .clear => t.clear

/-! ## Writes inside of writes -/

/-- While a descriptor is written from one table, another one is written from another table: the
descriptor itself, or something inside of the element or a member of one that is not yet numbered. -/
inductive Field.Writes (o : ByteOrder) : Field → SentTypes → Field → SentTypes → Prop where
  | self {f : Field} {t : SentTypes} : f.Writes o t f t
  | element {s : Structure} {f : Field} {t u : SentTypes}
      (hnew : t.number? (.structArray s) = none)
      (h : (Field.struct s).Writes o (t.introduce o (.structArray s)).2.2 f u) :
      (Field.structArray s).Writes o t f u
  | member {id name : String} {front back : List (String × Field)} {m f : Field} {t u : SentTypes}
      (hnew : t.number? (.struct ⟨id, front ++ (name, m) :: back⟩) = none)
      (h : m.Writes o (Structure.encodeMembers o front
        (t.introduce o (.struct ⟨id, front ++ (name, m) :: back⟩)).2.2).2 f u) :
      (Field.struct ⟨id, front ++ (name, m) :: back⟩).Writes o t f u

/-- The tables that a sender has while it takes steps, one after the other. -/
inductive SentTypes.Meets : SentTypes → List DescriptorStep → SentTypes → Prop where
  | now {t : SentTypes} {steps : List DescriptorStep} : t.Meets steps t
  | within {o : ByteOrder} {g f : Field} {t u : SentTypes} {steps : List DescriptorStep}
      (h : g.Writes o t f u) : t.Meets (.write o (some g) :: steps) u
  | later {t u : SentTypes} {step : DescriptorStep} {steps : List DescriptorStep}
      (h : (t.step step).Meets steps u) : t.Meets (step :: steps) u

/-! ## Numbering one structure after the other -/

/-- A sender's table comes from another one by numbering structures and arrays of them. -/
inductive SentTypes.Gains (t : SentTypes) : SentTypes → Prop where
  | refl : Gains t t
  | added {u : SentTypes} {f : Field} (h : Gains t u) (hkind : f.isNumbered = true)
      (hnew : u.number? f = none) (hroom : u.isFull = false) : Gains t (u.added f)

namespace SentTypes

variable {t u v : SentTypes} {f : Field}

theorem Gains.trans (h : t.Gains u) (h' : u.Gains v) : t.Gains v := by
  induction h' with
  | refl => exact h
  | added _ hkind hnew hroom ih => exact .added ih hkind hnew hroom

theorem Gains.extends (h : t.Gains u) : t.Extends u := by
  induction h with
  | refl => exact .refl t
  | added _ _ hnew _ ih => exact ih.trans (extends_added hnew)

variable (o : ByteOrder)

theorem gains_introduce (hkind : f.isNumbered = true) (hnew : t.number? f = none) :
    t.Gains (t.introduce o f).2.2 := by
  cases hfull : t.isFull with
  | false =>
    rw [introduce_of_new o hnew hfull]
    exact .added .refl hkind hnew hfull
  | true =>
    rw [introduce_of_full o hnew hfull]
    exact .refl

/-- What is not yet numbered is written in full, whether or not it gets a number. -/
theorem introducing_of_new (hnew : t.number? f = none) (body : SentTypes → Bytes × SentTypes) :
    t.introducing o f body =
      ((t.introduce o f).1 ++ f.typeCode :: (body (t.introduce o f).2.2).1,
        (body (t.introduce o f).2.2).2) := by
  unfold introducing
  cases hfull : t.isFull with
  | false => rw [introduce_of_new o hnew hfull]
  | true => rw [introduce_of_full o hnew hfull]

theorem introducing_of_known {n : UInt16} (h : t.number? f = some n)
    (body : SentTypes → Bytes × SentTypes) :
    t.introducing o f body = (referenceCode :: Wire.word16 o n, t) := by
  rw [introducing, introduce_of_known o h]

theorem gains_introducing (hkind : f.isNumbered = true) {body : SentTypes → Bytes × SentTypes}
    (hbody : ∀ u : SentTypes, u.Gains (body u).2) : t.Gains (t.introducing o f body).2 := by
  cases hnumber : t.number? f with
  | some n =>
    rw [introducing_of_known o hnumber]
    exact .refl
  | none =>
    rw [introducing_of_new o hnumber]
    exact (gains_introduce o hkind hnumber).trans (hbody _)

end SentTypes

mutual

theorem Field.gains_encode (o : ByteOrder) :
    ∀ (f : Field) (t : SentTypes), t.Gains (f.encode o t).2
  | .scalar _, _ | .scalarArray _, _ => .refl
  | .struct s, t => s.gains_encode o t
  | .structArray s, _ => SentTypes.gains_introducing o rfl fun u => s.gains_encode o u

theorem Structure.gains_encode (o : ByteOrder) :
    ∀ (s : Structure) (t : SentTypes), t.Gains (s.encode o t).2
  | ⟨id, ms⟩, t => by
    rw [Structure.encode_eq]
    exact SentTypes.gains_introducing o rfl fun u => Structure.gains_encodeMembers o ms u

theorem Structure.gains_encodeMembers (o : ByteOrder) :
    ∀ (ms : List (String × Field)) (t : SentTypes), t.Gains (Structure.encodeMembers o ms t).2
  | [], _ => .refl
  | (_, f) :: ms, t =>
    (Field.gains_encode o f t).trans (Structure.gains_encodeMembers o ms (f.encode o t).2)

end

theorem Field.gains_encode? (o : ByteOrder) (f : Option Field) (t : SentTypes) :
    t.Gains (Field.encode? o f t).2 := by
  cases f with
  | none => exact .refl
  | some f => exact f.gains_encode o t

theorem Structure.encodeMembers_append (o : ByteOrder) (ms ns : List (String × Field))
    (t : SentTypes) :
    Structure.encodeMembers o (ms ++ ns) t =
      ((Structure.encodeMembers o ms t).1 ++
          (Structure.encodeMembers o ns (Structure.encodeMembers o ms t).2).1,
        (Structure.encodeMembers o ns (Structure.encodeMembers o ms t).2).2) := by
  induction ms generalizing t with
  | nil => rfl
  | cons m ms ih =>
    rw [List.cons_append, Structure.encodeMembers_cons, Structure.encodeMembers_cons, ih]
    simp only [List.append_assoc]

theorem Structure.infix_encodeMembers (o : ByteOrder) (front back : List (String × Field))
    (name : String) (m : Field) (t : SentTypes) :
    (m.encode o (Structure.encodeMembers o front t).2).1 <:+:
      (Structure.encodeMembers o (front ++ (name, m) :: back) t).1 := by
  rw [Structure.encodeMembers_append, Structure.encodeMembers_cons]
  exact (List.infix_append _ _ _).trans (List.suffix_append _ _).isInfix

namespace Field.Writes

variable {o : ByteOrder} {g f : Field} {t u : SentTypes}

theorem gains (h : g.Writes o t f u) : t.Gains u := by
  induction h with
  | self => exact .refl
  | element hnew _ ih => exact (SentTypes.gains_introduce o rfl hnew).trans ih
  | member hnew _ ih =>
    exact (SentTypes.gains_introduce o rfl hnew).trans
      ((Structure.gains_encodeMembers o _ _).trans ih)

/-- What is written inside of a write stands in its octets. -/
theorem infix_octets (h : g.Writes o t f u) : (f.encode o u).1 <:+: (g.encode o t).1 := by
  induction h with
  | self => exact List.infix_rfl
  | element hnew _ ih =>
    rw [Field.encode_structArray_eq, SentTypes.introducing_of_new o hnew]
    exact ih.trans ((List.suffix_cons _ _).trans (List.suffix_append _ _)).isInfix
  | @member id name front back m f t u hnew _ ih =>
    have hmembers := Structure.infix_encodeMembers o front back name m
      (t.introduce o (.struct ⟨id, front ++ (name, m) :: back⟩)).2.2
    show _ <:+: ((Structure.mk id (front ++ (name, m) :: back)).encode o t).1
    rw [Structure.encode_eq, SentTypes.introducing_of_new o hnew]
    refine ih.trans (hmembers.trans (List.IsSuffix.isInfix ?_))
    exact (List.suffix_append _ _).trans ((List.suffix_cons _ _).trans (List.suffix_append _ _))

end Field.Writes

/-! ## The numbers in use -/

namespace SentTypes

variable {t u : SentTypes} {capacity : Nat}

/-- The numbers in use are the first ones, at most as many as there is room for; each stands for one
structure or array of structures. -/
structure Assigned (capacity : Nat) (t : SentTypes) : Prop where
  number_iff : ∀ n : UInt16, (∃ f, t.number? f = some n) ↔ 1 ≤ n.toNat ∧ n.toNat ≤ t.size
  injective : ∀ f g n, t.number? f = some n → t.number? g = some n → f = g
  once : (t.entries.map (·.1)).Nodup
  size_le : t.size ≤ capacity ∧ t.size ≤ 65535
  kind : ∀ f n, t.number? f = some n → ∃ s, f = .struct s ∨ f = .structArray s

/-- What every table of a sender satisfies. -/
structure Sound (capacity : Nat) (t : SentTypes) : Prop where
  numbered : t.Numbered
  capacity_eq : t.capacity = min capacity 65535
  once : (t.entries.map (·.1)).Nodup
  kinds : ∀ e ∈ t.entries, e.1.isNumbered = true

theorem sound_withCapacity (capacity : Nat) : (withCapacity capacity).Sound capacity :=
  ⟨numbered_withCapacity capacity, rfl, List.nodup_nil, fun _ he => nomatch he⟩

theorem Sound.clear (h : t.Sound capacity) : t.clear.Sound capacity :=
  ⟨h.numbered.clear, h.capacity_eq, List.nodup_nil, fun _ he => nomatch he⟩

theorem not_mem_of_number? {f : Field} (h : t.number? f = none) : f ∉ t.entries.map (·.1) := by
  rw [number?, Option.map_eq_none_iff, List.find?_eq_none] at h
  rw [List.mem_map]
  rintro ⟨e, he, rfl⟩
  exact h e he (decide_eq_true rfl)

theorem Sound.gains (h : t.Sound capacity) (hgains : t.Gains u) : u.Sound capacity := by
  induction hgains with
  | refl => exact h
  | added _ hkind hnew hroom ih =>
    exact ⟨ih.numbered.added hroom _, ih.capacity_eq,
      List.nodup_cons.2 ⟨not_mem_of_number? hnew, ih.once⟩,
      List.forall_mem_cons.2 ⟨hkind, ih.kinds⟩⟩

theorem number?_of_mem {f : Field} {n : UInt16} (honce : (t.entries.map (·.1)).Nodup)
    (h : (f, n) ∈ t.entries) : t.number? f = some n := by
  cases hnumber : t.number? f with
  | none => exact absurd (List.mem_map_of_mem h) (not_mem_of_number? hnumber)
  | some m =>
    have heq := List.inj_on_of_nodup_map honce (mem_of_number? hnumber) h rfl
    rw [(Prod.mk.inj heq).2]

theorem Sound.assigned (h : t.Sound capacity) : t.Assigned capacity where
  number_iff n := by
    have hmem : (∃ e ∈ t.entries, e.2.toNat = n.toNat) ↔ 1 ≤ n.toNat ∧ n.toNat ≤ t.size := by
      rw [← List.mem_map, h.numbered.numbers, List.mem_reverse, List.mem_range'_1]
      omega
    rw [← hmem]
    constructor
    · rintro ⟨f, hf⟩
      exact ⟨_, mem_of_number? hf, rfl⟩
    · rintro ⟨⟨f, m⟩, he, hm⟩
      obtain rfl := UInt16.toNat_inj.1 hm
      exact ⟨f, number?_of_mem h.once he⟩
  injective _ _ _ := h.numbered.number_injective
  once := h.once
  size_le := by
    have hsize := h.numbered.size_le
    rw [h.capacity_eq] at hsize
    omega
  kind f n hf := by
    have hkind := h.kinds _ (mem_of_number? hf)
    cases f with
    | struct s => exact ⟨s, .inl rfl⟩
    | structArray s => exact ⟨s, .inr rfl⟩
    | _ => cases hkind

/-- A descriptor with a number is written as a reference. -/
theorem encode_of_number? (h : t.Sound capacity) {f : Field} {n : UInt16}
    (hf : t.number? f = some n) (o : ByteOrder) :
    f.encode o t = (referenceCode :: Wire.word16 o n, t) := by
  obtain ⟨⟨id, ms⟩, rfl | rfl⟩ := h.assigned.kind f n hf
  · exact (Structure.encode_eq o id ms t).trans (introducing_of_known o hf _)
  · exact (Field.encode_structArray_eq o _ t).trans (introducing_of_known o hf _)

variable {steps : List DescriptorStep}

theorem Meets.sound (hmeets : t.Meets steps u) (h : t.Sound capacity) : u.Sound capacity := by
  induction hmeets with
  | now => exact h
  | within hwrites => exact h.gains hwrites.gains
  | @later t u step steps _ ih =>
    refine ih ?_
    cases step with
    | write o f => exact h.gains (Field.gains_encode? o f t)
    | clear => exact h.clear

/-- Until the numbers are forgotten, the table only gains. -/
theorem Meets.gains (hmeets : t.Meets steps u) (hkeep : .clear ∉ steps) : t.Gains u := by
  induction hmeets with
  | now => exact .refl
  | within hwrites => exact hwrites.gains
  | @later t u step steps _ ih =>
    rw [List.mem_cons, not_or] at hkeep
    cases step with
    | write o f => exact (Field.gains_encode? o f t).trans (ih hkeep.2)
    | clear => exact absurd rfl hkeep.1

/-- At all times the numbers in use are the first ones, each for one structure or array of
structures.  What has a number when its turn comes, alone or inside of another write, is written as
three octets that refer to it, and it has this number alone until all numbers are forgotten. -/
theorem numbers_stand (capacity : Nat) (history : List DescriptorStep) (t : SentTypes)
    (hmeets : (withCapacity capacity).Meets history t) :
    t.Assigned capacity ∧
      (∀ (o : ByteOrder) (g f : Field) (v : SentTypes) (n : UInt16), g.Writes o t f v →
        v.number? f = some n →
        f.encode o v = (referenceCode :: Wire.word16 o n, v) ∧
        referenceCode :: Wire.word16 o n <:+: (g.encode o t).1) ∧
      ∀ f n, t.number? f = some n → ∀ later, .clear ∉ later → ∀ u, t.Meets later u →
        u.number? f = some n ∧ (∀ g, u.number? g = some n → g = f) ∧
        ∀ o, f.encode o u = (referenceCode :: Wire.word16 o n, u) := by
  have hsound := hmeets.sound (sound_withCapacity capacity)
  refine ⟨hsound.assigned, ?_, ?_⟩
  · intro o g f v n hwrites hnumber
    have hencode := encode_of_number? (hsound.gains hwrites.gains) hnumber o
    have hinfix := hwrites.infix_octets
    rw [hencode] at hinfix
    exact ⟨hencode, hinfix⟩
  · intro f n hf later hkeep u hlater
    have hgains := hlater.gains hkeep
    have hu := hsound.gains hgains
    have hnumber := hgains.extends f n hf
    exact ⟨hnumber, fun g hg => hu.assigned.injective g f n hg hnumber,
      encode_of_number? hu hnumber⟩

/-- A time stamp. -/
def stamp : Structure := ⟨"time_t", [("seconds", .scalar .long)]⟩

/-- A value with a time stamp. -/
def stamped : Field := .struct ⟨"stamped", [("value", .scalar .int), ("time", .struct stamp)]⟩

/-- Writing a stamped value fills a table for two: the stamp is number 2, and an array of stamps, which
gets no number, refers to it. -/
theorem stamp_stays_second :
    ∃ t : SentTypes, (withCapacity 2).Meets [.write .big (some stamped)] t ∧
      t.number? (.struct stamp) = some 2 ∧ t.isFull = true ∧
      (∀ g, t.number? g = some 2 → g = .struct stamp) ∧
      [referenceCode, 2, 0] <:+: ((Field.structArray stamp).encode .little t).1 := by
  have hmeets : (withCapacity 2).Meets [.write .big (some stamped)]
      (stamped.encode .big (withCapacity 2)).2 := .later .now
  have hnumber : (stamped.encode .big (withCapacity 2)).2.number? (.struct stamp) = some 2 := by
    decide
  have hnew : (stamped.encode .big (withCapacity 2)).2.number? (.structArray stamp) = none := by
    decide
  obtain ⟨-, hinside, hlater⟩ := numbers_stand 2 _ _ hmeets
  obtain ⟨-, halone, -⟩ := hlater _ _ hnumber [] List.not_mem_nil _ .now
  have hwrites : (Field.structArray stamp).Writes .little _ (.struct stamp) _ := .element hnew .self
  exact ⟨_, hmeets, hnumber, by decide, halone, (hinside _ _ _ _ 2 hwrites (by decide)).2⟩

end SentTypes

end PvNet
