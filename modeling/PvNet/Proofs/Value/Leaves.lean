import PvNet.Proofs.Value.Suitability
import PvNet.Value.Partial
set_option autoImplicit false

/-!
# Leaves of a value

A structure value is walked in pre-order, every structure and every leaf taking the
next number.  The numbers are counted here on the value itself; that the same numbers
come out of the sizes in the descriptor is a theorem.  A leaf is a scalar, an array of
scalars or an array of structures.

Two values of one descriptor have their leaves at the same places, and the leaves
determine the value, so an update can be described leaf by leaf.
-/

namespace PvNet

/-- A leaf of a value with its place in the structure. -/
structure Leaf where
  offset : Nat
  /-- The offsets of the structures around it, the innermost one first. -/
  enclosing : List Nat
  value : Value

namespace Leaf

/-- Where a leaf is. -/
def place (leaf : Leaf) : Nat × List Nat := (leaf.offset, leaf.enclosing)

/-- Whether the offset of a leaf or of a structure around it is in a set. -/
def isSelected (changed : BitSet) (leaf : Leaf) : Bool :=
  (leaf.offset :: leaf.enclosing).any (· ∈ changed)

/-- The new leaf if it is selected, else the old one. -/
def merge (changed : BitSet) (new old : Leaf) : Leaf :=
  if new.isSelected changed then new else old

end Leaf

/-! ## Counting -/

mutual

/-- The leaves of a member that is counted from `n` on, and the next number. -/
def Field.leavesFrom (above : List Nat) (n : Nat) : Field → Value → List Leaf × Nat
  | .struct s, .struct members => s.leavesFrom above n members
  | _, v => ([⟨n, above, v⟩], n + 1)
termination_by structural f => f

/-- The leaves of a structure that is itself number `n`, and the next number. -/
def Structure.leavesFrom (above : List Nat) (n : Nat) :
    Structure → List Value → List Leaf × Nat
  | ⟨_, ms⟩, members => Structure.memberLeavesFrom (n :: above) (n + 1) ms members
termination_by structural s => s

/-- The leaves of members that are counted from `n` on, and the next number. -/
def Structure.memberLeavesFrom (above : List Nat) (n : Nat) :
    List (String × Field) → List Value → List Leaf × Nat
  | (_, f) :: ms, v :: vs =>
    let here := f.leavesFrom above n v
    let behind := Structure.memberLeavesFrom above here.2 ms vs
    (here.1 ++ behind.1, behind.2)
  | _, _ => ([], n)
termination_by structural ms => ms

end

/-- The leaves of a structure value in pre-order, the structure itself being number 0. -/
def Structure.leaves (s : Structure) (members : List Value) : List Leaf :=
  (s.leavesFrom [] 0 members).1

mutual

/-- Counting on a value takes as many numbers as the descriptor has offsets. -/
theorem Field.leavesFrom_next (above : List Nat) (n : Nat) :
    ∀ (f : Field) (v : Value), f.admits v = true →
      (f.leavesFrom above n v).2 = n + f.offsetCount
  | .struct s, v, h => by
    obtain ⟨members, rfl, hmembers⟩ := Field.exists_of_admits_struct h
    exact Structure.leavesFrom_next above n s members hmembers
  | .scalar _, _, _ | .scalarArray _, _, _ | .structArray _, _, _ => rfl

theorem Structure.leavesFrom_next (above : List Nat) (n : Nat) :
    ∀ (s : Structure) (members : List Value), s.admits members = true →
      (s.leavesFrom above n members).2 = n + s.offsetCount
  | ⟨_, ms⟩, members, h => by
    rw [Structure.leavesFrom, Structure.offsetCount,
      Structure.memberLeavesFrom_next (n :: above) (n + 1) ms members h]
    omega

theorem Structure.memberLeavesFrom_next (above : List Nat) (n : Nat) :
    ∀ (ms : List (String × Field)) (vs : List Value), Structure.admitsMembers ms vs = true →
      (Structure.memberLeavesFrom above n ms vs).2 = n + Structure.memberOffsets ms
  | [], _, _ => rfl
  | (_, f) :: ms, vs, h => by
    obtain ⟨v, vs, rfl, hv, hvs⟩ := Structure.exists_of_admitsMembers h
    have hhere := Field.leavesFrom_next above n f v hv
    have hbehind := Structure.memberLeavesFrom_next above (n + f.offsetCount) ms vs hvs
    simp only [Structure.memberLeavesFrom, Structure.memberOffsets, hhere, hbehind]
    omega

end

/-- The leaves of the first member stand in front, those of the others start behind its offsets. -/
theorem Structure.memberLeavesFrom_cons (above : List Nat) (n : Nat) (name : String) {f : Field}
    (ms : List (String × Field)) {v : Value} (vs : List Value) (h : f.admits v = true) :
    (Structure.memberLeavesFrom above n ((name, f) :: ms) (v :: vs)).1 =
      (f.leavesFrom above n v).1 ++
        (Structure.memberLeavesFrom above (n + f.offsetCount) ms vs).1 := by
  simp only [Structure.memberLeavesFrom, Field.leavesFrom_next above n f v h]

/-! ## Places -/

mutual

/-- The places of the leaves depend on the descriptor alone. -/
theorem Field.place_leavesFrom (above : List Nat) (n : Nat) :
    ∀ (f : Field) (a b : Value), f.admits a = true → f.admits b = true →
      (f.leavesFrom above n a).1.map Leaf.place = (f.leavesFrom above n b).1.map Leaf.place
  | .struct s, a, b, ha, hb => by
    obtain ⟨as, rfl, has⟩ := Field.exists_of_admits_struct ha
    obtain ⟨bs, rfl, hbs⟩ := Field.exists_of_admits_struct hb
    exact Structure.place_leavesFrom above n s as bs has hbs
  | .scalar _, _, _, _, _ | .scalarArray _, _, _, _, _ | .structArray _, _, _, _, _ => rfl

theorem Structure.place_leavesFrom (above : List Nat) (n : Nat) :
    ∀ (s : Structure) (as bs : List Value), s.admits as = true → s.admits bs = true →
      (s.leavesFrom above n as).1.map Leaf.place = (s.leavesFrom above n bs).1.map Leaf.place
  | ⟨_, ms⟩, as, bs, ha, hb => Structure.place_memberLeavesFrom (n :: above) (n + 1) ms as bs ha hb

theorem Structure.place_memberLeavesFrom (above : List Nat) (n : Nat) :
    ∀ (ms : List (String × Field)) (as bs : List Value),
      Structure.admitsMembers ms as = true → Structure.admitsMembers ms bs = true →
      (Structure.memberLeavesFrom above n ms as).1.map Leaf.place =
        (Structure.memberLeavesFrom above n ms bs).1.map Leaf.place
  | [], _, _, _, _ => rfl
  | (name, f) :: ms, as, bs, ha, hb => by
    obtain ⟨a, as, rfl, ha, has⟩ := Structure.exists_of_admitsMembers ha
    obtain ⟨b, bs, rfl, hb, hbs⟩ := Structure.exists_of_admitsMembers hb
    have hhere := Field.place_leavesFrom above n f a b ha hb
    have hbehind := Structure.place_memberLeavesFrom above (n + f.offsetCount) ms as bs has hbs
    rw [Structure.memberLeavesFrom_cons above n name ms as ha,
      Structure.memberLeavesFrom_cons above n name ms bs hb, List.map_append, List.map_append,
      hhere, hbehind]

end

theorem Field.length_leavesFrom (above : List Nat) (n : Nat) (f : Field) (a b : Value)
    (ha : f.admits a = true) (hb : f.admits b = true) :
    (f.leavesFrom above n a).1.length = (f.leavesFrom above n b).1.length := by
  simpa using congrArg List.length (Field.place_leavesFrom above n f a b ha hb)

mutual

/-- A suitable value is determined by its leaves. -/
theorem Field.eq_of_leavesFrom (above : List Nat) (n : Nat) :
    ∀ (f : Field) (a b : Value), f.admits a = true → f.admits b = true →
      (f.leavesFrom above n a).1 = (f.leavesFrom above n b).1 → a = b
  | .struct s, a, b, ha, hb, h => by
    obtain ⟨as, rfl, has⟩ := Field.exists_of_admits_struct ha
    obtain ⟨bs, rfl, hbs⟩ := Field.exists_of_admits_struct hb
    rw [Structure.eq_of_leavesFrom above n s as bs has hbs h]
  | .scalar _, _, _, _, _, h | .scalarArray _, _, _, _, _, h | .structArray _, _, _, _, _, h =>
    congrArg Leaf.value (List.cons.inj h).1

theorem Structure.eq_of_leavesFrom (above : List Nat) (n : Nat) :
    ∀ (s : Structure) (as bs : List Value), s.admits as = true → s.admits bs = true →
      (s.leavesFrom above n as).1 = (s.leavesFrom above n bs).1 → as = bs
  | ⟨_, ms⟩, as, bs, ha, hb, h =>
    Structure.eq_of_memberLeavesFrom (n :: above) (n + 1) ms as bs ha hb h

theorem Structure.eq_of_memberLeavesFrom (above : List Nat) (n : Nat) :
    ∀ (ms : List (String × Field)) (as bs : List Value),
      Structure.admitsMembers ms as = true → Structure.admitsMembers ms bs = true →
      (Structure.memberLeavesFrom above n ms as).1 =
        (Structure.memberLeavesFrom above n ms bs).1 → as = bs
  | [], as, bs, ha, hb, _ => by
    rw [Structure.eq_nil_of_admitsMembers ha, Structure.eq_nil_of_admitsMembers hb]
  | (name, f) :: ms, as, bs, ha, hb, h => by
    obtain ⟨a, as, rfl, ha, has⟩ := Structure.exists_of_admitsMembers ha
    obtain ⟨b, bs, rfl, hb, hbs⟩ := Structure.exists_of_admitsMembers hb
    rw [Structure.memberLeavesFrom_cons above n name ms as ha,
      Structure.memberLeavesFrom_cons above n name ms bs hb] at h
    -- The leaves of the first member are as many on both sides, so the lists split alike.
    obtain ⟨hhere, hbehind⟩ := List.append_inj h (Field.length_leavesFrom above n f a b ha hb)
    rw [Field.eq_of_leavesFrom above n f a b ha hb hhere,
      Structure.eq_of_memberLeavesFrom above (n + f.offsetCount) ms as bs has hbs hbehind]

end

theorem Structure.eq_of_leaves (s : Structure) {as bs : List Value} (ha : s.admits as = true)
    (hb : s.admits bs = true) (h : s.leaves as = s.leaves bs) : as = bs :=
  Structure.eq_of_leavesFrom [] 0 s as bs ha hb h

mutual

/-- The structures around a member are around all of its leaves. -/
theorem Field.mem_enclosing {i : Nat} {leaf : Leaf} (above : List Nat) (n : Nat) (hi : i ∈ above) :
    ∀ (f : Field) (v : Value), leaf ∈ (f.leavesFrom above n v).1 → i ∈ leaf.enclosing
  | .struct s, v, h => by
    cases v with
    | struct members =>
      exact Structure.mem_enclosing above n (List.mem_cons_of_mem n hi) s members h
    | _ =>
      obtain rfl := List.mem_singleton.1 h
      exact hi
  | .scalar _, _, h | .scalarArray _, _, h | .structArray _, _, h => by
    obtain rfl := List.mem_singleton.1 h
    exact hi

/-- A structure and those around it are around all of its leaves. -/
theorem Structure.mem_enclosing {i : Nat} {leaf : Leaf} (above : List Nat) (n : Nat)
    (hi : i ∈ n :: above) :
    ∀ (s : Structure) (members : List Value),
      leaf ∈ (s.leavesFrom above n members).1 → i ∈ leaf.enclosing
  | ⟨_, ms⟩, members, h => Structure.mem_member_enclosing (n :: above) (n + 1) hi ms members h

theorem Structure.mem_member_enclosing {i : Nat} {leaf : Leaf} (above : List Nat) (n : Nat)
    (hi : i ∈ above) :
    ∀ (ms : List (String × Field)) (vs : List Value),
      leaf ∈ (Structure.memberLeavesFrom above n ms vs).1 → i ∈ leaf.enclosing
  | [], _, h => by simp [Structure.memberLeavesFrom] at h
  | _ :: _, [], h => by simp [Structure.memberLeavesFrom] at h
  | (_, f) :: ms, v :: vs, h => by
    rcases List.mem_append.1 h with hhere | hbehind
    · exact Field.mem_enclosing above n hi f v hhere
    · exact Structure.mem_member_enclosing above _ hi ms vs hbehind

end

/-! ## Merging -/

mutual

/-- The old value of a member at `offset` with the changed parts taken from the new one. -/
def Field.merge (changed : BitSet) (offset : Nat) : Field → Value → Value → Value
  | .struct s, .struct new, .struct old =>
    if offset ∈ changed then .struct new else .struct (s.mergeBelow changed offset new old)
  | _, new, old => if offset ∈ changed then new else old
termination_by structural f => f

/-- The old values in a structure at offset `base`, which is itself not changed, with the changed
parts taken from the new ones. -/
def Structure.mergeBelow (changed : BitSet) (base : Nat) :
    Structure → List Value → List Value → List Value
  | ⟨_, ms⟩, new, old => Structure.mergeMembers changed (base + 1) ms new old
termination_by structural s => s

/-- The old values of members, the first of which is at `offset`, with the changed parts taken from
the new ones. -/
def Structure.mergeMembers (changed : BitSet) (offset : Nat) :
    List (String × Field) → List Value → List Value → List Value
  | (_, f) :: ms, new :: news, old :: olds =>
    f.merge changed offset new old ::
      Structure.mergeMembers changed (offset + f.offsetCount) ms news olds
  | _, _, olds => olds
termination_by structural ms => ms

end

/-- The old value of a structure with the changed parts taken from the new one. -/
def Structure.merge (changed : BitSet) (s : Structure) (new old : List Value) : List Value :=
  if 0 ∈ changed then new else s.mergeBelow changed 0 new old

mutual

theorem Field.admits_merge (changed : BitSet) (offset : Nat) :
    ∀ (f : Field) (new old : Value), f.admits new = true → f.admits old = true →
      f.admits (f.merge changed offset new old) = true
  | .struct s, new, old, hnew, hold => by
    obtain ⟨news, rfl, hnews⟩ := Field.exists_of_admits_struct hnew
    obtain ⟨olds, rfl, holds⟩ := Field.exists_of_admits_struct hold
    rw [Field.merge]
    split
    · exact hnew
    · exact Structure.admits_mergeBelow changed offset s news olds hnews holds
  | .scalar _, new, old, hnew, hold | .scalarArray _, new, old, hnew, hold
  | .structArray _, new, old, hnew, hold => by
    rw [Field.merge]
    · split
      · exact hnew
      · exact hold
    · exact fun _ _ _ h => nomatch h

theorem Structure.admits_mergeBelow (changed : BitSet) (base : Nat) :
    ∀ (s : Structure) (news olds : List Value), s.admits news = true → s.admits olds = true →
      s.admits (s.mergeBelow changed base news olds) = true
  | ⟨_, ms⟩, news, olds, hnew, hold =>
    Structure.admitsMembers_mergeMembers changed (base + 1) ms news olds hnew hold

theorem Structure.admitsMembers_mergeMembers (changed : BitSet) (offset : Nat) :
    ∀ (ms : List (String × Field)) (news olds : List Value),
      Structure.admitsMembers ms news = true → Structure.admitsMembers ms olds = true →
      Structure.admitsMembers ms (Structure.mergeMembers changed offset ms news olds) = true
  | [], _, _, _, hold => hold
  | (_, f) :: ms, news, olds, hnew, hold => by
    obtain ⟨new, news, rfl, hnew, hnews⟩ := Structure.exists_of_admitsMembers hnew
    obtain ⟨old, olds, rfl, hold, holds⟩ := Structure.exists_of_admitsMembers hold
    rw [Structure.mergeMembers, Structure.admitsMembers, Bool.and_eq_true]
    exact ⟨Field.admits_merge changed offset f new old hnew hold,
      Structure.admitsMembers_mergeMembers changed _ ms news olds hnews holds⟩

end

/-- Where all new leaves are selected, merging leaf by leaf takes all of them. -/
theorem Leaf.zipWith_merge_of_selected (changed : BitSet) :
    ∀ (news olds : List Leaf), news.length = olds.length →
      (∀ leaf ∈ news, leaf.isSelected changed = true) →
      List.zipWith (Leaf.merge changed) news olds = news
  | [], _, _, _ => rfl
  | _ :: _, [], hlen, _ => by simp at hlen
  | new :: news, old :: olds, hlen, hsel => by
    have hhead : Leaf.merge changed new old = new := if_pos (hsel new List.mem_cons_self)
    have htail := Leaf.zipWith_merge_of_selected changed news olds (Nat.succ.inj hlen)
      fun leaf hleaf => hsel leaf (List.mem_cons_of_mem new hleaf)
    rw [List.zipWith_cons_cons, hhead, htail]

/-- A leaf outside of every changed structure is selected by its own offset only. -/
theorem Leaf.merge_of_not_enclosed {changed : BitSet} {above : List Nat}
    (h : ∀ i ∈ above, i ∉ changed) (n : Nat) (new old : Value) :
    Leaf.merge changed ⟨n, above, new⟩ ⟨n, above, old⟩ =
      ⟨n, above, if n ∈ changed then new else old⟩ := by
  have habove : above.any (· ∈ changed) = false := by simpa using h
  simp only [Leaf.merge, Leaf.isSelected, List.any_cons, habove, Bool.or_false, decide_eq_true_eq]
  split <;> rfl

/-- Where a structure is changed, merging leaf by leaf takes all of its leaves. -/
theorem Structure.zipWith_merge_of_changed {changed : BitSet} {n : Nat} (h : n ∈ changed)
    (above : List Nat) (s : Structure) (news olds : List Value) (hnew : s.admits news = true)
    (hold : s.admits olds = true) :
    List.zipWith (Leaf.merge changed) (s.leavesFrom above n news).1 (s.leavesFrom above n olds).1 =
      (s.leavesFrom above n news).1 := by
  refine Leaf.zipWith_merge_of_selected changed _ _ ?_ fun leaf hleaf => ?_
  · simpa using congrArg List.length (Structure.place_leavesFrom above n s news olds hnew hold)
  · have hmem := Structure.mem_enclosing above n List.mem_cons_self s news hleaf
    exact List.any_eq_true.2 ⟨n, List.mem_cons_of_mem _ hmem, decide_eq_true h⟩

mutual

/-- Merging values merges their leaves, provided that no structure around them is changed. -/
theorem Field.leavesFrom_merge {changed : BitSet} {above : List Nat}
    (habove : ∀ i ∈ above, i ∉ changed) (n : Nat) :
    ∀ (f : Field) (new old : Value), f.admits new = true → f.admits old = true →
      (f.leavesFrom above n (f.merge changed n new old)).1 =
        List.zipWith (Leaf.merge changed) (f.leavesFrom above n new).1 (f.leavesFrom above n old).1
  | .struct s, new, old, hnew, hold => by
    obtain ⟨news, rfl, hnews⟩ := Field.exists_of_admits_struct hnew
    obtain ⟨olds, rfl, holds⟩ := Field.exists_of_admits_struct hold
    rw [Field.merge]
    split
    · rename_i hn
      exact (Structure.zipWith_merge_of_changed hn above s news olds hnews holds).symm
    · rename_i hn
      exact Structure.leavesFrom_mergeBelow habove hn s news olds hnews holds
  | .scalar _, new, old, _, _ | .scalarArray _, new, old, _, _ | .structArray _, new, old, _, _ =>
    congrArg (fun leaf => [leaf]) (Leaf.merge_of_not_enclosed habove n new old).symm

theorem Structure.leavesFrom_mergeBelow {changed : BitSet} {above : List Nat}
    (habove : ∀ i ∈ above, i ∉ changed) {n : Nat} (hn : n ∉ changed) :
    ∀ (s : Structure) (news olds : List Value), s.admits news = true → s.admits olds = true →
      (s.leavesFrom above n (s.mergeBelow changed n news olds)).1 =
        List.zipWith (Leaf.merge changed) (s.leavesFrom above n news).1
          (s.leavesFrom above n olds).1
  | ⟨_, ms⟩, news, olds, hnew, hold =>
    Structure.memberLeavesFrom_mergeMembers (List.forall_mem_cons.2 ⟨hn, habove⟩) (n + 1) ms news
      olds hnew hold

theorem Structure.memberLeavesFrom_mergeMembers {changed : BitSet} {above : List Nat}
    (habove : ∀ i ∈ above, i ∉ changed) (n : Nat) :
    ∀ (ms : List (String × Field)) (news olds : List Value),
      Structure.admitsMembers ms news = true → Structure.admitsMembers ms olds = true →
      (Structure.memberLeavesFrom above n ms
          (Structure.mergeMembers changed n ms news olds)).1 =
        List.zipWith (Leaf.merge changed) (Structure.memberLeavesFrom above n ms news).1
          (Structure.memberLeavesFrom above n ms olds).1
  | [], _, _, _, _ => rfl
  | (name, f) :: ms, news, olds, hnew, hold => by
    obtain ⟨new, news, rfl, hnew, hnews⟩ := Structure.exists_of_admitsMembers hnew
    obtain ⟨old, olds, rfl, hold, holds⟩ := Structure.exists_of_admitsMembers hold
    have hmerge := Field.admits_merge changed n f new old hnew hold
    have hhere := Field.leavesFrom_merge habove n f new old hnew hold
    have hbehind := Structure.memberLeavesFrom_mergeMembers habove (n + f.offsetCount) ms news olds
      hnews holds
    rw [Structure.mergeMembers, Structure.memberLeavesFrom_cons above n name ms _ hmerge,
      Structure.memberLeavesFrom_cons above n name ms news hnew,
      Structure.memberLeavesFrom_cons above n name ms olds hold,
      List.zipWith_append (Field.length_leavesFrom above n f new old hnew hold), hhere, hbehind]

end

theorem Structure.admits_merge (changed : BitSet) (s : Structure) (new old : List Value)
    (hnew : s.admits new = true) (hold : s.admits old = true) :
    s.admits (s.merge changed new old) = true := by
  unfold Structure.merge
  split
  · exact hnew
  · exact Structure.admits_mergeBelow changed 0 s new old hnew hold

theorem Structure.leaves_merge (changed : BitSet) (s : Structure) (new old : List Value)
    (hnew : s.admits new = true) (hold : s.admits old = true) :
    s.leaves (s.merge changed new old) =
      List.zipWith (Leaf.merge changed) (s.leaves new) (s.leaves old) := by
  unfold Structure.merge
  split
  · rename_i h
    exact (Structure.zipWith_merge_of_changed h [] s new old hnew hold).symm
  · rename_i h
    exact Structure.leavesFrom_mergeBelow (by simp) h s new old hnew hold

end PvNet
