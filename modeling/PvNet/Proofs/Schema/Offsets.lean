import Mathlib.Data.List.Nodup
import PvNet.Schema.Field
set_option autoImplicit false

/-!
# Offsets of members

A structure is a tree: its nodes are the structure itself, its members, their
members and so on; nothing hangs below an array of structures.  A node is known by
its route, the positions of the members that lead to it, since names need not be
unique.  The walk in pre-order gives every node an offset; the offsets of the whole
walk are the numbers below `offsetCount`, each once.

Looking up a dotted path is a computation of its own, which skips the offsets of the
members in front of the one that it looks for.  It comes to the offset that the walk
gives to the node at the end of the path, `Field.Leads`, and comes to nothing exactly
if the path breaks off, `Structure.Breaks`.
-/

namespace PvNet

/-- A node of a structure, as a walk in pre-order comes to it. -/
structure Node where
  field : Field
  /-- The positions of the members that lead to it, the outermost one first. -/
  route : List Nat
  offset : Nat
  /-- The offsets of the structures around it, the innermost one first. -/
  enclosing : List Nat
  deriving DecidableEq

/-! ## The walk -/

mutual

/-- The nodes of a field at `offset`, the field itself in front. -/
def Field.nodesFrom (enclosing route : List Nat) (offset : Nat) : Field → List Node
  | .struct s =>
    ⟨.struct s, route, offset, enclosing⟩ :: s.nodesBelow (offset :: enclosing) route offset
  | f => [⟨f, route, offset, enclosing⟩]
termination_by structural f => f

/-- The nodes below a structure at offset `base`. -/
def Structure.nodesBelow (enclosing route : List Nat) (base : Nat) : Structure → List Node
  | ⟨_, ms⟩ => Structure.memberNodes enclosing route (base + 1) 0 ms
termination_by structural s => s

/-- The nodes of members, the first of which is at `offset` and has the position `i`. -/
def Structure.memberNodes (enclosing route : List Nat) (offset i : Nat) :
    List (String × Field) → List Node
  | [] => []
  | (_, f) :: ms =>
    f.nodesFrom enclosing (route ++ [i]) offset ++
      Structure.memberNodes enclosing route (offset + f.offsetCount) (i + 1) ms
termination_by structural ms => ms

end

/-- The nodes of a structure in pre-order, the structure itself in front. -/
def Structure.nodes (s : Structure) : List Node := (Field.struct s).nodesFrom [] [] 0

theorem Field.nodesFrom_eq (enclosing route : List Nat) (offset : Nat) (f : Field) :
    f.nodesFrom enclosing route offset =
      ⟨f, route, offset, enclosing⟩ :: (f.nodesFrom enclosing route offset).tail := by
  cases f <;> simp [Field.nodesFrom]

mutual

theorem Field.offsets_nodesFrom (enclosing route : List Nat) (offset : Nat) :
    ∀ f : Field,
      (f.nodesFrom enclosing route offset).map (·.offset) = List.range' offset f.offsetCount
  | .struct ⟨id, ms⟩ => by
    rw [Field.nodesFrom, Structure.nodesBelow, List.map_cons,
      Structure.offsets_memberNodes (offset :: enclosing) route (offset + 1) 0 ms,
      Field.offsetCount, Structure.offsetCount, Nat.add_comm 1, List.range'_succ]
  | .scalar _ | .scalarArray _ | .structArray _ => rfl

theorem Structure.offsets_memberNodes (enclosing route : List Nat) (offset i : Nat) :
    ∀ ms : List (String × Field),
      (Structure.memberNodes enclosing route offset i ms).map (·.offset) =
        List.range' offset (Structure.memberOffsets ms)
  | [] => rfl
  | (_, f) :: ms => by
    rw [Structure.memberNodes, List.map_append,
      Field.offsets_nodesFrom enclosing (route ++ [i]) offset f,
      Structure.offsets_memberNodes enclosing route (offset + f.offsetCount) (i + 1) ms,
      List.range'_append_1, Structure.memberOffsets]

end

/-- The walk numbers the nodes one after the other. -/
theorem Structure.offsets_nodes (s : Structure) :
    s.nodes.map (·.offset) = List.range s.offsetCount := by
  rw [Structure.nodes, Field.offsets_nodesFrom, List.range_eq_range', Field.offsetCount]

/-- A node is known by its offset. -/
theorem Structure.eq_of_offset_eq {s : Structure} {p q : Node} (hp : p ∈ s.nodes)
    (hq : q ∈ s.nodes) (h : p.offset = q.offset) : p = q := by
  have hnodup : (s.nodes.map (·.offset)).Nodup := s.offsets_nodes ▸ List.nodup_range
  exact List.inj_on_of_nodup_map hnodup hp hq h

theorem Structure.exists_node_iff {s : Structure} {k : Nat} :
    (∃ p ∈ s.nodes, p.offset = k) ↔ k < s.offsetCount := by
  rw [← List.mem_range, ← s.offsets_nodes, List.mem_map]

/-! ## Routes -/

namespace Field

theorem eq_struct_of_asStruct? {f : Field} {s : Structure} (h : f.asStruct? = some s) :
    f = .struct s := by
  cases f with
  | struct t => exact congrArg Field.struct (Option.some.inj h)
  | _ => cases h

/-- The node at the end of a route from a field at `offset`. -/
def node? (enclosing route : List Nat) (offset : Nat) : List Nat → Field → Option Node
  | [], f => some ⟨f, route, offset, enclosing⟩
  | i :: tail, f => do
    let s ← f.asStruct?
    let m ← s.members[i]?
    node? (offset :: enclosing) (route ++ [i])
      (offset + 1 + Structure.memberOffsets (s.members.take i)) tail m.2

end Field

/-- The node at the end of a route. -/
def Structure.node? (s : Structure) (route : List Nat) : Option Node :=
  (Field.struct s).node? [] [] 0 route

theorem Field.node?_cons_of_getElem? {s : Structure} {i : Nat} {m : String × Field}
    (h : s.members[i]? = some m) (enclosing route tail : List Nat) (offset : Nat) :
    (Field.struct s).node? enclosing route offset (i :: tail) =
      m.2.node? (offset :: enclosing) (route ++ [i])
        (offset + 1 + Structure.memberOffsets (s.members.take i)) tail := by
  simp [Field.node?, Field.asStruct?, h]

/-- Only a structure has something below it. -/
theorem Field.exists_of_node?_cons {f : Field} {p : Node} {enclosing route tail : List Nat}
    {offset i : Nat} (h : f.node? enclosing route offset (i :: tail) = some p) :
    ∃ s m, f = .struct s ∧ s.members[i]? = some m ∧
      m.2.node? (offset :: enclosing) (route ++ [i])
        (offset + 1 + Structure.memberOffsets (s.members.take i)) tail = some p := by
  rw [Field.node?] at h
  simp only [Option.bind_eq_bind, Option.bind_eq_some_iff] at h
  obtain ⟨s, hs, m, hm, hp⟩ := h
  exact ⟨s, m, Field.eq_struct_of_asStruct? hs, hm, hp⟩

mutual

/-- The walk comes to nothing but the ends of routes. -/
theorem Field.exists_node?_of_mem (enclosing route : List Nat) (offset : Nat) {p : Node} :
    ∀ f : Field, p ∈ f.nodesFrom enclosing route offset →
      ∃ tail, p.route = route ++ tail ∧ f.node? enclosing route offset tail = some p
  | .struct ⟨id, ms⟩, h => by
    rw [Field.nodesFrom, List.mem_cons] at h
    rcases h with rfl | h
    · exact ⟨[], (List.append_nil route).symm, rfl⟩
    obtain ⟨j, m, tail, hm, hroute, hnode⟩ :=
      Structure.exists_node?_of_mem_members (offset :: enclosing) route (offset + 1) 0 ms h
    rw [Nat.zero_add] at hroute hnode
    refine ⟨j :: tail, hroute, ?_⟩
    rwa [Field.node?_cons_of_getElem? (s := ⟨id, ms⟩) hm]
  | .scalar _, h | .scalarArray _, h | .structArray _, h => by
    obtain rfl := List.mem_singleton.1 h
    exact ⟨[], (List.append_nil route).symm, rfl⟩

theorem Structure.exists_node?_of_mem_members (enclosing route : List Nat) (offset i : Nat)
    {p : Node} :
    ∀ ms : List (String × Field), p ∈ Structure.memberNodes enclosing route offset i ms →
      ∃ j m tail, ms[j]? = some m ∧ p.route = route ++ (i + j) :: tail ∧
        m.2.node? enclosing (route ++ [i + j]) (offset + Structure.memberOffsets (ms.take j)) tail =
          some p
  | [], h => nomatch h
  | (name, f) :: ms, h => by
    rw [Structure.memberNodes, List.mem_append] at h
    rcases h with hhere | hbehind
    · obtain ⟨tail, hroute, hnode⟩ :=
        Field.exists_node?_of_mem enclosing (route ++ [i]) offset f hhere
      exact ⟨0, (name, f), tail, rfl, by simpa using hroute, hnode⟩
    · obtain ⟨j, m, tail, hm, hroute, hnode⟩ := Structure.exists_node?_of_mem_members enclosing
        route (offset + f.offsetCount) (i + 1) ms hbehind
      refine ⟨j + 1, m, tail, hm, ?_, ?_⟩
      · rw [hroute, Nat.add_assoc, Nat.add_comm 1]
      · rw [List.take_succ_cons, Structure.memberOffsets, ← Nat.add_assoc offset,
          ← Nat.add_assoc i, Nat.add_right_comm i, hnode]

end

/-- The walk through a member is part of the walk. -/
theorem Structure.subset_memberNodes (enclosing route : List Nat) :
    ∀ (ms : List (String × Field)) (offset i j : Nat) {m : String × Field}, ms[j]? = some m →
      m.2.nodesFrom enclosing (route ++ [i + j]) (offset + Structure.memberOffsets (ms.take j)) ⊆
        Structure.memberNodes enclosing route offset i ms
  | [], _, _, _, _, h => nomatch h
  | (name, f) :: ms, offset, i, 0, m, h => by
    obtain rfl := Option.some.inj h
    exact List.subset_append_left _ _
  | (name, f) :: ms, offset, i, j + 1, m, h => by
    have hbehind := Structure.subset_memberNodes enclosing route ms (offset + f.offsetCount) (i + 1)
      j (m := m) h
    rw [List.take_succ_cons, Structure.memberOffsets, Structure.memberNodes, ← Nat.add_assoc offset,
      ← Nat.add_assoc i, Nat.add_right_comm i]
    exact List.subset_append_of_subset_right _ hbehind

/-- The walk comes to the end of every route. -/
theorem Field.mem_of_node? {p : Node} :
    ∀ (tail : List Nat) (f : Field) (enclosing route : List Nat) (offset : Nat),
      f.node? enclosing route offset tail = some p →
      p ∈ f.nodesFrom enclosing route offset ∧ p.route = route ++ tail
  | [], f, enclosing, route, offset, h => by
    obtain rfl := Option.some.inj h
    rw [Field.nodesFrom_eq]
    exact ⟨List.mem_cons_self, (List.append_nil route).symm⟩
  | i :: tail, f, enclosing, route, offset, h => by
    obtain ⟨⟨id, ms⟩, m, rfl, hm, hp⟩ := Field.exists_of_node?_cons h
    have hsub := Structure.subset_memberNodes (offset :: enclosing) route ms (offset + 1) 0 i hm
    rw [Nat.zero_add] at hsub
    obtain ⟨hmem, hroute⟩ := Field.mem_of_node? tail m.2 _ _ _ hp
    exact ⟨List.mem_cons_of_mem _ (hsub hmem), by simpa using hroute⟩

/-- Every member stands in the walk once, at the end of its route. -/
theorem Structure.node?_eq_some_iff {s : Structure} {route : List Nat} {p : Node} :
    s.node? route = some p ↔ p ∈ s.nodes ∧ p.route = route := by
  constructor
  · exact Field.mem_of_node? route (.struct s) [] [] 0
  · rintro ⟨hmem, rfl⟩
    obtain ⟨tail, hroute, hnode⟩ := Field.exists_node?_of_mem [] [] 0 (.struct s) hmem
    rwa [hroute]

/-- A node is known by its route. -/
theorem Structure.eq_of_route_eq {s : Structure} {p q : Node} (hp : p ∈ s.nodes) (hq : q ∈ s.nodes)
    (h : p.route = q.route) : p = q := by
  have hpnode : s.node? q.route = some p := Structure.node?_eq_some_iff.2 ⟨hp, h⟩
  have hqnode : s.node? q.route = some q := Structure.node?_eq_some_iff.2 ⟨hq, rfl⟩
  exact Option.some.inj (hpnode.symm.trans hqnode)

/-! ## Paths -/

/-- Following names from one field leads to another one along a route: each name stands for the
first member that has it. -/
inductive Field.Leads : Field → List String → List Nat → Field → Prop where
  | here {f : Field} : f.Leads [] [] f
  | member {s : Structure} {name : String} {i : Nat} {f g : Field} {names : List String}
      {route : List Nat} (hindex : s.indexOf? name = some i)
      (hmember : s.members[i]? = some (name, f)) (hbelow : f.Leads names route g) :
      (Field.struct s).Leads (name :: names) (i :: route) g

/-- Following names breaks off: one of them is not the name of a member of the structure reached so
far, or one in front of the last is that of a member that is no structure. -/
def Structure.Breaks (s : Structure) (names : List String) : Prop :=
  ∃ front part back route t, names = front ++ part :: back ∧
    (Field.struct s).Leads front route (.struct t) ∧
    ((∀ m ∈ t.members, m.1 ≠ part) ∨
      back ≠ [] ∧ ∃ f, t.find? part = some f ∧ f.asStruct? = none)

namespace Structure

theorem locate?_eq (name : String) :
    ∀ (ms : List (String × Field)) (offset : Nat), locate? name offset ms =
      (ms.findIdx? fun m => m.1 = name).bind fun i =>
        ms[i]?.map fun m => (offset + memberOffsets (ms.take i), m.2)
  | [], _ => rfl
  | (n, f) :: ms, offset => by
    rw [locate?, List.findIdx?_cons]
    by_cases hn : n = name
    · simp [hn, memberOffsets]
    · rw [if_neg hn, locate?_eq name ms]
      cases ms.findIdx? fun m => m.1 = name with
      | none => simp [hn]
      | some i => simp [hn, memberOffsets, Nat.add_assoc]

/-- The first member with a name is found at the offset behind those of the members in front. -/
theorem locate?_of_indexOf? {s : Structure} {name : String} {i : Nat} {f : Field}
    (hindex : s.indexOf? name = some i) (hmember : s.members[i]? = some (name, f)) (offset : Nat) :
    locate? name offset s.members = some (offset + memberOffsets (s.members.take i), f) := by
  rw [indexOf?] at hindex
  rw [locate?_eq, hindex, Option.bind_some, hmember, Option.map_some]

/-- A name is that of no member, or the first member that has it is found at the offset behind those
of the members in front. -/
theorem find_cases (s : Structure) (name : String) :
    (∀ m ∈ s.members, m.1 ≠ name) ∧ (∀ offset, locate? name offset s.members = none) ∨
      ∃ i f, s.indexOf? name = some i ∧ s.members[i]? = some (name, f) ∧ s.find? name = some f ∧
        ∀ offset, locate? name offset s.members =
          some (offset + memberOffsets (s.members.take i), f) := by
  cases hindex : s.indexOf? name with
  | none =>
    rw [indexOf?] at hindex
    refine .inl ⟨fun m hm => ?_, fun offset => ?_⟩
    · simpa using List.findIdx?_eq_none_iff.1 hindex m hm
    · rw [locate?_eq, hindex, Option.bind_none]
  | some i =>
    have hfirst : (s.members.findIdx? fun m => m.1 = name) = some i := hindex
    obtain ⟨hi, hname, -⟩ := List.findIdx?_eq_some_iff_getElem.1 hfirst
    have hmember : s.members[i]? = some (name, s.members[i].2) := by
      rw [List.getElem?_eq_getElem hi, ← of_decide_eq_true hname]
    refine .inr ⟨i, _, rfl, hmember, ?_, fun offset => ?_⟩
    · rw [find?, List.find?_eq_bind_findIdx?_getElem?, hfirst, Option.bind_some, hmember]
      rfl
    · exact locate?_of_indexOf? hindex hmember offset

theorem offsetAlong_cons {s t : Structure} {name : String} {base k : Nat} {names : List String}
    (h : locate? name (base + 1) s.members = some (k, .struct t)) (hnames : names ≠ []) :
    s.offsetAlong base (name :: names) = t.offsetAlong k names := by
  cases names with
  | nil => exact absurd rfl hnames
  | cons name' names => simp [offsetAlong, h, Field.asStruct?]

end Structure

/-- Whatever leads on starts from a structure. -/
theorem Field.Leads.exists_struct {f g : Field} {names : List String} {route : List Nat}
    (h : f.Leads names route g) (hnames : names ≠ []) : ∃ s, f = .struct s := by
  cases h with
  | here => exact absurd rfl hnames
  | member => exact ⟨_, rfl⟩

/-- The lookup comes to the offset of the node at the end of the path. -/
theorem Field.Leads.exists_node? {f g : Field} {names : List String} {route : List Nat}
    (h : f.Leads names route g) :
    ∀ (enclosing above : List Nat) (offset : Nat),
      ∃ p, f.node? enclosing above offset route = some p ∧ p.field = g ∧
        ∀ s, f = .struct s → names ≠ [] → s.offsetAlong offset names = some p.offset := by
  induction h with
  | here => exact fun enclosing above offset => ⟨_, rfl, rfl, fun _ _ h => absurd rfl h⟩
  | @member s name i f g names route hindex hmember hbelow ih =>
    intro enclosing above offset
    have hlocate := Structure.locate?_of_indexOf? hindex hmember (offset + 1)
    obtain ⟨p, hp, hfield, hoffset⟩ := ih (offset :: enclosing) (above ++ [i])
      (offset + 1 + Structure.memberOffsets (s.members.take i))
    refine ⟨p, ?_, hfield, ?_⟩
    · rwa [Field.node?_cons_of_getElem? hmember]
    · rintro _ ⟨⟩ -
      by_cases hnames : names = []
      · subst hnames
        cases hbelow
        obtain rfl := Option.some.inj hp
        rw [Structure.offsetAlong, hlocate, Option.map_some]
      · obtain ⟨t, rfl⟩ := hbelow.exists_struct hnames
        rw [Structure.offsetAlong_cons hlocate hnames, hoffset t rfl hnames]

/-- The lookup goes on where a part of the path leads to. -/
theorem Field.Leads.offsetAlong_eq_none {f : Field} {t : Structure} {front rest : List String}
    {route : List Nat} (h : f.Leads front route (.struct t)) (hrest : rest ≠ [])
    (hnone : ∀ offset, t.offsetAlong offset rest = none) :
    ∀ s, f = .struct s → ∀ offset, s.offsetAlong offset (front ++ rest) = none := by
  generalize hg : Field.struct t = g at h
  induction h with
  | here =>
    rintro s rfl
    obtain rfl := Field.struct.inj hg
    exact hnone
  | @member s name i f g names route hindex hmember hbelow ih =>
    rintro _ ⟨⟩ offset
    have hlocate := Structure.locate?_of_indexOf? hindex hmember (offset + 1)
    have hstruct : ∃ u, f = .struct u := by
      cases hbelow with
      | here => exact ⟨t, hg.symm⟩
      | member => exact ⟨_, rfl⟩
    obtain ⟨u, rfl⟩ := hstruct
    rw [List.cons_append, Structure.offsetAlong_cons hlocate (by simp [hrest])]
    exact ih hg u rfl _

namespace Structure

theorem offsetAlong_of_breaks {s : Structure} {names : List String} (h : s.Breaks names)
    (base : Nat) : s.offsetAlong base names = none := by
  obtain ⟨front, part, back, route, t, rfl, hleads, hbreaks⟩ := h
  refine hleads.offsetAlong_eq_none (List.cons_ne_nil _ _) (fun offset => ?_) s rfl base
  rcases t.find_cases part with ⟨hmissing, hnone⟩ | ⟨i, f, hindex, hmember, hfind, hlocate⟩
  · cases back <;> simp [offsetAlong, hnone]
  · rcases hbreaks with hmissing | ⟨hback, g, hg, hleaf⟩
    · exact absurd rfl (hmissing _ (List.mem_of_getElem? hmember))
    · rw [hfind] at hg
      obtain rfl := Option.some.inj hg
      cases back with
      | nil => exact absurd rfl hback
      | cons name names => simp [offsetAlong, hlocate, hleaf]

/-- Names that do not break off lead to a member. -/
theorem leads_or_breaks (names : List String) :
    ∀ s : Structure, names ≠ [] →
      (∃ route g, (Field.struct s).Leads names route g) ∨ s.Breaks names := by
  induction names with
  | nil => exact fun s h => absurd rfl h
  | cons name names ih =>
    intro s _
    rcases s.find_cases name with ⟨hmissing, -⟩ | ⟨i, f, hindex, hmember, hfind, -⟩
    · exact .inr ⟨[], name, names, [], s, rfl, .here, .inl hmissing⟩
    by_cases hnames : names = []
    · subst hnames
      exact .inl ⟨[i], f, .member hindex hmember .here⟩
    cases hf : f.asStruct? with
    | none => exact .inr ⟨[], name, names, [], s, rfl, .here, .inr ⟨hnames, f, hfind, hf⟩⟩
    | some t =>
      obtain rfl := Field.eq_struct_of_asStruct? hf
      rcases ih t hnames with ⟨route, g, hleads⟩ | ⟨front, part, back, route, u, rfl, hleads, h⟩
      · exact .inl ⟨i :: route, g, .member hindex hmember hleads⟩
      · exact .inr ⟨name :: front, part, back, i :: route, u, rfl,
          .member hindex hmember hleads, h⟩

/-! ## Dotted paths -/

theorem splitOnAux_ne_nil (text separator : String) (b i j : String.Pos.Raw) (parts : List String) :
    text.splitOnAux separator b i j parts ≠ [] := by
  fun_induction String.splitOnAux text separator b i j parts with
  | case1 => simp
  | case2 | case3 | case4 => assumption

/-- Every path has a part, if only an empty one. -/
theorem splitOn_ne_nil (text separator : String) : text.splitOn separator ≠ [] := by
  unfold String.splitOn
  split
  · simp
  · exact splitOnAux_ne_nil text separator 0 0 0 []

/-- A path that leads to a node comes to the offset that the walk gives to it. -/
theorem exists_offsetOf?_of_leads {s : Structure} {path : String} {route : List Nat} {f : Field}
    (h : (Field.struct s).Leads (path.splitOn ".") route f) :
    ∃ p ∈ s.nodes, p.route = route ∧ p.field = f ∧ s.offsetOf? path = some p.offset := by
  obtain ⟨p, hnode, hfield, hoffset⟩ := h.exists_node? [] [] 0
  obtain ⟨hmem, hroute⟩ := node?_eq_some_iff.1 hnode
  exact ⟨p, hmem, hroute, hfield, hoffset s rfl (splitOn_ne_nil path ".")⟩

/-- A path comes to an offset exactly if it leads to the node that the walk numbers so. -/
theorem offsetOf?_eq_some_iff {s : Structure} {path : String} {k : Nat} :
    s.offsetOf? path = some k ↔
      ∃ p ∈ s.nodes, p.offset = k ∧
        (Field.struct s).Leads (path.splitOn ".") p.route p.field := by
  constructor
  · intro h
    rcases leads_or_breaks _ s (splitOn_ne_nil path ".") with ⟨route, g, hleads⟩ | hbreaks
    · obtain ⟨p, hmem, rfl, rfl, hoffset⟩ := exists_offsetOf?_of_leads hleads
      exact ⟨p, hmem, Option.some.inj (hoffset.symm.trans h), hleads⟩
    · rw [offsetOf?, offsetAlong_of_breaks hbreaks] at h
      cases h
  · rintro ⟨p, hmem, rfl, hleads⟩
    obtain ⟨q, hq, hroute, -, hoffset⟩ := exists_offsetOf?_of_leads hleads
    rwa [eq_of_route_eq hq hmem hroute] at hoffset

theorem offsetOf?_eq_none_iff {s : Structure} {path : String} :
    s.offsetOf? path = none ↔ s.Breaks (path.splitOn ".") := by
  constructor
  · intro h
    rcases leads_or_breaks _ s (splitOn_ne_nil path ".") with ⟨route, g, hleads⟩ | hbreaks
    · obtain ⟨p, -, -, -, hoffset⟩ := exists_offsetOf?_of_leads hleads
      exact nomatch h.symm.trans hoffset
    · exact hbreaks
  · exact fun h => offsetAlong_of_breaks h 0

end Structure

end PvNet
