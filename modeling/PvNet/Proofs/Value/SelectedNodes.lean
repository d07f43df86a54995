import PvNet.Proofs.Schema.Offsets
import PvNet.Proofs.Value.PartialUpdate
set_option autoImplicit false

/-!
# Offsets select nodes

Writing the changed parts of a suitable value writes, in the order of the walk, the
nodes whose offsets are set, unless a structure around them is written as a whole.
So the numbers that writing counts are those of the walk, and a single set offset
writes the one node that has it.

Together with the lookup of paths: what a path comes to is the offset of the member
that it leads to, and this offset selects that member and nothing else.
-/

namespace PvNet

/-- The value at the end of a route. -/
def Value.along? : List Nat → Value → Option Value
  | [], v => some v
  | i :: route, .struct members => members[i]?.bind (along? route)
  | _ :: _, _ => none

theorem Value.along?_concat (i : Nat) :
    ∀ (route : List Nat) (v : Value) {members : List Value},
      v.along? route = some (.struct members) → v.along? (route ++ [i]) = members[i]?
  | [], v, members, h => by
    obtain rfl := Option.some.inj h
    exact Option.bind_fun_some members[i]?
  | j :: route, v, members, h => by
    cases v with
    | struct vs =>
      obtain ⟨w, hw, hmembers⟩ := Option.bind_eq_some_iff.1 h
      rw [List.cons_append, Value.along?, hw, Option.bind_some]
      exact Value.along?_concat i route w hmembers
    | _ => cases h

namespace Node

/-- Writes the part of a value that stands at a node. -/
def write (o : ByteOrder) (v : Value) (p : Node) : Emission :=
  match v.along? p.route with
  | some w => p.field.encodeValue o w
  | none => .empty

/-- Whether a node itself is set, and no structure around it. -/
def isWritten (changed : BitSet) (p : Node) : Bool :=
  p.offset ∈ changed && p.enclosing.all (· ∉ changed)

/-- Outside of the structures that are set, a node is written if it is set itself. -/
theorem isWritten_of_enclosing {changed : BitSet} {enclosing : List Nat}
    (h : ∀ i ∈ enclosing, i ∉ changed) (f : Field) (route : List Nat) (offset : Nat) :
    isWritten changed ⟨f, route, offset, enclosing⟩ = decide (offset ∈ changed) := by
  have hall : enclosing.all (· ∉ changed) = true := by simpa using h
  rw [isWritten, hall, Bool.and_true]

theorem write_of_along? {root v : Value} {p : Node} (h : root.along? p.route = some v)
    (o : ByteOrder) : p.write o root = p.field.encodeValue o v := by
  rw [write, h]

end Node

mutual

/-- The structures around a field are around all of its nodes. -/
theorem Field.mem_enclosing_of_mem {i : Nat} {enclosing : List Nat} (hi : i ∈ enclosing)
    (route : List Nat) (offset : Nat) {p : Node} :
    ∀ f : Field, p ∈ f.nodesFrom enclosing route offset → i ∈ p.enclosing
  | .struct ⟨id, ms⟩, h => by
    rw [Field.nodesFrom, List.mem_cons] at h
    rcases h with rfl | h
    · exact hi
    · exact Structure.mem_enclosing_of_mem_members (List.mem_cons_of_mem offset hi) route
        (offset + 1) 0 ms h
  | .scalar _, h | .scalarArray _, h | .structArray _, h => by
    obtain rfl := List.mem_singleton.1 h
    exact hi

theorem Structure.mem_enclosing_of_mem_members {i : Nat} {enclosing : List Nat}
    (hi : i ∈ enclosing) (route : List Nat) (offset j : Nat) {p : Node} :
    ∀ ms : List (String × Field), p ∈ Structure.memberNodes enclosing route offset j ms →
      i ∈ p.enclosing
  | [], h => nomatch h
  | (_, f) :: ms, h => by
    rcases List.mem_append.1 h with hhere | hbehind
    · exact Field.mem_enclosing_of_mem hi (route ++ [j]) offset f hhere
    · exact Structure.mem_enclosing_of_mem_members hi route (offset + f.offsetCount) (j + 1) ms
        hbehind

end

/-- Below a structure that is set nothing is written for itself. -/
theorem Structure.filter_nodesBelow_of_mem {changed : BitSet} {offset : Nat} (h : offset ∈ changed)
    (enclosing route : List Nat) (s : Structure) :
    (s.nodesBelow (offset :: enclosing) route offset).filter (·.isWritten changed) = [] := by
  obtain ⟨id, ms⟩ := s
  refine List.filter_eq_nil_iff.2 fun p hp => ?_
  have hmem := Structure.mem_enclosing_of_mem_members List.mem_cons_self route (offset + 1) 0 ms hp
  simp only [Node.isWritten, Bool.and_eq_true, List.all_eq_true, decide_eq_true_eq, not_and]
  exact fun _ hall => hall offset hmem h

mutual

/-- Where no structure around a field is set, writing its changed parts writes the nodes that are
set one after the other. -/
theorem Field.encodeChanges_eq_ofList (o : ByteOrder) {changed : BitSet} (root : Value)
    {enclosing : List Nat} (henclosing : ∀ i ∈ enclosing, i ∉ changed) (route : List Nat)
    (offset : Nat) :
    ∀ (f : Field) (v : Value), f.admits v = true → root.along? route = some v →
      f.encodeChanges o changed offset v =
        .ofList (Node.write o root)
          ((f.nodesFrom enclosing route offset).filter (·.isWritten changed))
  | .struct s, v, hv, halong => by
    obtain ⟨members, rfl, hmembers⟩ := Field.exists_of_admits_struct hv
    rw [Field.nodesFrom, List.filter_cons, Node.isWritten_of_enclosing henclosing]
    by_cases hoffset : offset ∈ changed
    · rw [if_pos (decide_eq_true hoffset), Structure.filter_nodesBelow_of_mem hoffset,
        Emission.ofList_cons, Emission.ofList_nil, Emission.append_empty,
        Node.write_of_along? halong, Field.encodeChanges_of_mem o hoffset]
    · rw [if_neg (by simpa using hoffset), Field.encodeChanges, if_neg hoffset]
      exact Structure.encodeChangesBelow_eq_ofList o root
        (List.forall_mem_cons.2 ⟨hoffset, henclosing⟩) route offset s members hmembers halong
  | .scalar t, v, _, halong | .scalarArray t, v, _, halong | .structArray t, v, _, halong => by
    rw [Field.nodesFrom, List.filter_cons, Node.isWritten_of_enclosing henclosing, List.filter_nil]
    · by_cases hoffset : offset ∈ changed
      · rw [if_pos (decide_eq_true hoffset), Emission.ofList_cons, Emission.ofList_nil,
          Emission.append_empty, Node.write_of_along? halong, Field.encodeChanges_of_mem o hoffset]
      · simp [Field.encodeChanges, hoffset]
    · exact fun _ h => nomatch h

theorem Structure.encodeChangesBelow_eq_ofList (o : ByteOrder) {changed : BitSet} (root : Value)
    {enclosing : List Nat} (henclosing : ∀ i ∈ enclosing, i ∉ changed) (route : List Nat)
    (base : Nat) :
    ∀ (s : Structure) (members : List Value), s.admits members = true →
      root.along? route = some (.struct members) →
      s.encodeChangesBelow o changed base members =
        .ofList (Node.write o root)
          ((s.nodesBelow enclosing route base).filter (·.isWritten changed))
  | ⟨id, ms⟩, members, hmembers, halong => by
    rw [Structure.encodeChangesBelow, if_pos (Structure.length_eq_of_admitsMembers hmembers)]
    refine Structure.encodeMemberChanges_eq_ofList o root henclosing route (base + 1) 0 ms members
      hmembers fun j => ?_
    rw [Nat.zero_add]
    exact Value.along?_concat j route root halong

theorem Structure.encodeMemberChanges_eq_ofList (o : ByteOrder) {changed : BitSet} (root : Value)
    {enclosing : List Nat} (henclosing : ∀ i ∈ enclosing, i ∉ changed) (route : List Nat)
    (offset i : Nat) :
    ∀ (ms : List (String × Field)) (vs : List Value), Structure.admitsMembers ms vs = true →
      (∀ j, root.along? (route ++ [i + j]) = vs[j]?) →
      Structure.encodeMemberChanges o changed offset ms vs =
        .ofList (Node.write o root)
          ((Structure.memberNodes enclosing route offset i ms).filter (·.isWritten changed))
  | [], _, _, _ => rfl
  | (_, f) :: ms, vs, hvs, halong => by
    obtain ⟨v, vs, rfl, hv, hvs⟩ := Structure.exists_of_admitsMembers hvs
    have hhere := Field.encodeChanges_eq_ofList o root henclosing (route ++ [i]) offset f v hv
      (halong 0)
    have hbehind := Structure.encodeMemberChanges_eq_ofList o root henclosing route
      (offset + f.offsetCount) (i + 1) ms vs hvs fun j => by
        rw [Nat.add_assoc, Nat.add_comm 1, halong, List.getElem?_cons_succ]
    rw [Structure.encodeMemberChanges, Structure.memberNodes, List.filter_append,
      Emission.ofList_append, hhere, hbehind]

end

/-- Writing the changed parts of a structure writes the nodes that are set, in the order of the walk;
those inside of a structure that is set are written with it. -/
theorem Structure.encodeChanges_eq_ofList (o : ByteOrder) (changed : BitSet) (s : Structure)
    {members : List Value} (h : s.admits members = true) :
    s.encodeChanges o changed members =
      .ofList (Node.write o (.struct members)) (s.nodes.filter (·.isWritten changed)) :=
  Field.encodeChanges_eq_ofList o (.struct members) (by simp) [] 0 (.struct s) (.struct members) h
    rfl

/-! ## Single offsets -/

/-- A list of suitable values has a suitable one for each member. -/
theorem Structure.exists_getElem?_of_admitsMembers :
    ∀ (ms : List (String × Field)) (vs : List Value) (i : Nat) {m : String × Field},
      Structure.admitsMembers ms vs = true → ms[i]? = some m →
      ∃ v, vs[i]? = some v ∧ m.2.admits v = true
  | [], _, _, _, _, hm => nomatch hm
  | (_, f) :: ms, vs, i, m, h, hm => by
    obtain ⟨v, vs, rfl, hv, hvs⟩ := Structure.exists_of_admitsMembers h
    cases i with
    | zero =>
      obtain rfl := Option.some.inj hm
      exact ⟨v, rfl, hv⟩
    | succ i => exact Structure.exists_getElem?_of_admitsMembers ms vs i hvs hm

/-- A suitable value has a suitable part at every node. -/
theorem Field.exists_along?_of_node? {p : Node} :
    ∀ (tail : List Nat) (f : Field) (v : Value) (enclosing route : List Nat) (offset : Nat),
      f.admits v = true → f.node? enclosing route offset tail = some p →
      ∃ w, v.along? tail = some w ∧ p.field.admits w = true
  | [], f, v, enclosing, route, offset, hv, h => by
    obtain rfl := Option.some.inj h
    exact ⟨v, rfl, hv⟩
  | i :: tail, f, v, enclosing, route, offset, hv, h => by
    obtain ⟨s, m, rfl, hm, hp⟩ := Field.exists_of_node?_cons h
    obtain ⟨members, rfl, hmembers⟩ := Field.exists_of_admits_struct hv
    obtain ⟨id, ms⟩ := s
    obtain ⟨w, hw, hadmits⟩ := Structure.exists_getElem?_of_admitsMembers ms members i hmembers hm
    rw [Value.along?, hw, Option.bind_some]
    exact Field.exists_along?_of_node? tail m.2 w _ _ _ hadmits hp

/-- The structures around a node have smaller offsets. -/
theorem Field.lt_of_mem_enclosing {p : Node} {i : Nat} :
    ∀ (tail : List Nat) (f : Field) (enclosing route : List Nat) (offset : Nat),
      (∀ j ∈ enclosing, j < offset) → f.node? enclosing route offset tail = some p →
      i ∈ p.enclosing → i < p.offset
  | [], f, enclosing, route, offset, h, hp, hi => by
    obtain rfl := Option.some.inj hp
    exact h i hi
  | j :: tail, f, enclosing, route, offset, h, hp, hi => by
    obtain ⟨s, m, rfl, -, hp⟩ := Field.exists_of_node?_cons hp
    refine Field.lt_of_mem_enclosing tail m.2 _ _ _ (List.forall_mem_cons.2 ⟨?_, ?_⟩) hp hi
    · omega
    · intro k hk
      have hlt := h k hk
      omega

namespace Structure

variable {s : Structure} {p : Node}

/-- A single offset that is set selects the node that has it. -/
theorem filter_nodes_singleton (hp : p ∈ s.nodes) :
    s.nodes.filter (·.isWritten (.ofList [p.offset])) = [p] := by
  have hnodup : s.nodes.Nodup := .of_map (·.offset) (s.offsets_nodes ▸ List.nodup_range)
  have hsame : ∀ q ∈ s.nodes, q.isWritten (.ofList [p.offset]) = decide (q = p) := by
    intro q hq
    have hchanged : ∀ i, i ∈ BitSet.ofList [p.offset] ↔ i = p.offset := by
      simp [BitSet.ofList, BitSet.empty]
    by_cases hqp : q = p
    · subst hqp
      have houtside : ∀ i ∈ q.enclosing, i ≠ q.offset := fun i hi =>
        Nat.ne_of_lt (Field.lt_of_mem_enclosing q.route (.struct s) [] [] 0 (by simp)
          (node?_eq_some_iff.2 ⟨hq, rfl⟩) hi)
      simpa [Node.isWritten, hchanged] using houtside
    · have hoffset : q.offset ≠ p.offset := fun h => hqp (eq_of_offset_eq hq hp h)
      simp [Node.isWritten, hchanged, hoffset, hqp]
  rw [List.filter_congr hsame, List.filter_eq, List.count_eq_one_of_mem hnodup hp]
  rfl

/-- A single offset that is set writes the part of a value at the node that has it. -/
theorem encodeChanges_singleton (hp : p ∈ s.nodes) (o : ByteOrder) {members : List Value}
    (h : s.admits members = true) :
    ∃ v, (Value.struct members).along? p.route = some v ∧
      s.encodeChanges o (.ofList [p.offset]) members = p.field.encodeValue o v := by
  obtain ⟨v, hv, -⟩ := Field.exists_along?_of_node? p.route (.struct s) (.struct members) [] [] 0 h
    (node?_eq_some_iff.2 ⟨hp, rfl⟩)
  refine ⟨v, hv, ?_⟩
  rw [encodeChanges_eq_ofList o _ s h, filter_nodes_singleton hp, Emission.ofList_cons,
    Emission.ofList_nil, Emission.append_empty, Node.write_of_along? hv]

/-- Lookup, counting and walking give the members of a structure the same offsets. -/
structure OffsetsAgree (s : Structure) : Prop where
  /-- The walk numbers the nodes one after the other, as many as there are offsets. -/
  numbered : s.nodes.map (·.offset) = List.range s.offsetCount
  /-- It comes to every node once. -/
  once : ∀ p ∈ s.nodes, ∀ q ∈ s.nodes, p.route = q.route → p = q
  /-- Every offset behind that of the structure is that of one member. -/
  member : ∀ k, 0 < k → k < s.offsetCount → ∃! p, p ∈ s.nodes ∧ p.route ≠ [] ∧ p.offset = k
  /-- Writing goes the same walk. -/
  walked : ∀ (o : ByteOrder) (changed : BitSet) (members : List Value), s.admits members = true →
    s.encodeChanges o changed members =
      .ofList (Node.write o (.struct members)) (s.nodes.filter (·.isWritten changed))
  /-- Every offset alone writes the node that has it. -/
  alone : ∀ p ∈ s.nodes, ∀ (o : ByteOrder) (members : List Value), s.admits members = true →
    ∃ v, (Value.struct members).along? p.route = some v ∧
      s.encodeChanges o (.ofList [p.offset]) members = p.field.encodeValue o v
  /-- What a path comes to is the offset of the member that it leads to, and alone it writes that
  member. -/
  found : ∀ (path : String) (k : Nat), s.offsetOf? path = some k →
    0 < k ∧ k < s.offsetCount ∧
    ∃ p ∈ s.nodes, p.offset = k ∧ (Field.struct s).Leads (path.splitOn ".") p.route p.field ∧
      ∀ (o : ByteOrder) (members : List Value), s.admits members = true →
        ∃ v, (Value.struct members).along? p.route = some v ∧
          s.encodeChanges o (.ofList [k]) members = p.field.encodeValue o v
  /-- Paths to different members come to different offsets. -/
  apart : ∀ (path path' : String) (route route' : List Nat) (f f' : Field),
    (Field.struct s).Leads (path.splitOn ".") route f →
    (Field.struct s).Leads (path'.splitOn ".") route' f' → route ≠ route' →
    s.offsetOf? path ≠ s.offsetOf? path'
  /-- A path comes to nothing exactly if it breaks off. -/
  missing : ∀ path : String, s.offsetOf? path = none ↔ s.Breaks (path.splitOn ".")

/-- Only the structure itself has offset 0. -/
theorem offset_pos_iff (hp : p ∈ s.nodes) : 0 < p.offset ↔ p.route ≠ [] := by
  have hstart : s.node? [] = some ⟨.struct s, [], 0, []⟩ := rfl
  have hroot := (node?_eq_some_iff.1 hstart).1
  rw [Nat.pos_iff_ne_zero, not_iff_not]
  constructor
  · intro h
    rw [eq_of_offset_eq hp hroot h]
  · intro h
    have hnode : s.node? [] = some p := node?_eq_some_iff.2 ⟨hp, h⟩
    rw [← Option.some.inj hnode]

/-- In every structure the offsets of the members mean the same to everyone. -/
theorem offsets_agree (s : Structure) : s.OffsetsAgree := by
  constructor
  case numbered => exact s.offsets_nodes
  case once => exact fun p hp q hq => eq_of_route_eq hp hq
  case member =>
    intro k hpos hlt
    obtain ⟨p, hp, rfl⟩ := exists_node_iff.2 hlt
    exact ⟨p, ⟨hp, (offset_pos_iff hp).1 hpos, rfl⟩, fun q hq => eq_of_offset_eq hq.1 hp hq.2.2⟩
  case walked => exact fun o changed members h => encodeChanges_eq_ofList o changed s h
  case alone => exact fun p hp o members h => encodeChanges_singleton hp o h
  case found =>
    intro path k h
    obtain ⟨p, hp, rfl, hleads⟩ := offsetOf?_eq_some_iff.1 h
    refine ⟨(offset_pos_iff hp).2 ?_, exists_node_iff.1 ⟨p, hp, rfl⟩, p, hp, rfl, hleads,
      fun o members hadmits => encodeChanges_singleton hp o hadmits⟩
    intro hroute
    rw [hroute] at hleads
    cases hnames : path.splitOn "." with
    | nil => exact splitOn_ne_nil path "." hnames
    | cons => rw [hnames] at hleads; cases hleads
  case apart =>
    intro path path' route route' f f' hleads hleads' hne hsame
    obtain ⟨p, hp, rfl, -, hoffset⟩ := exists_offsetOf?_of_leads hleads
    obtain ⟨q, hq, rfl, -, hoffset'⟩ := exists_offsetOf?_of_leads hleads'
    rw [hoffset, hoffset', Option.some.injEq] at hsame
    exact hne (congrArg Node.route (eq_of_offset_eq hp hq hsame))
  case missing => exact fun path => offsetOf?_eq_none_iff

/-- Names twice and empty, a structure without members and an array of structures. -/
def tangled : Structure :=
  ⟨"", [("a", .scalar .int), ("", .struct ⟨"", []⟩), ("a", .struct ⟨"", [("b", .scalar .byte)]⟩),
    ("list", .structArray ⟨"", [("c", .scalar .int)]⟩),
    ("last", .struct ⟨"", [("d", .scalar .int)]⟩)]⟩

example : [["a"], [""], ["a", "b"], ["list"], ["list", "c"], ["last", "d"]].map
    (tangled.offsetAlong 0) = [some 1, some 2, none, some 5, none, some 7] := by decide

end Structure

end PvNet
