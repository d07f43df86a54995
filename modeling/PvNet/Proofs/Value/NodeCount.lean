import PvNet.Proofs.Schema.Misplaced
import PvNet.Proofs.Schema.Spelling
import PvNet.Proofs.Value.DescribedStream
import PvNet.Proofs.Wire.Consumption
set_option autoImplicit false

/-!
# The size of decoded values

Every scalar, every array and every element of an array takes up an octet of its own,
so a decoded value has no more of them than it has octets.  A structure that is not an
element takes up nothing: its members follow at once.  The number of structures is
bounded by the octets only as far as the descriptor is spelled out (`Field.Spelled`) and
each of its structures occurs once in the value, or else through their members, of which
the deepest is `maxLevels` below the top.

References and structures without members escape both bounds.  A chain of definitions,
each with the one before it as both of its members, doubles the value with every link.
-/

namespace PvNet

/-! ## Counting -/

mutual

/-- The nodes of a value.  A scalar, an array and an element of an array count one each; a structure
that is an element is the same node as the element, and any other counts `weight`. -/
def Value.nodes (weight : Nat) : Value → Nat
  | .scalar _ => 1
  | .scalarArray items => 1 + items.length
  | .struct members => weight + Value.memberNodes weight members
  | .structArray elements => 1 + Value.elementsNodes weight elements
termination_by structural v => v

/-- The nodes of the members of a structure. -/
def Value.memberNodes (weight : Nat) : List Value → Nat
  | [] => 0
  | v :: vs => v.nodes weight + Value.memberNodes weight vs
termination_by structural vs => vs

/-- The nodes of the elements of an array of structures. -/
def Value.elementsNodes (weight : Nat) : List (Option (List Value)) → Nat
  | [] => 0
  | e :: es => Value.elementNodes weight e + Value.elementsNodes weight es
termination_by structural es => es

/-- The nodes of an element of an array of structures. -/
def Value.elementNodes (weight : Nat) : Option (List Value) → Nat
  | none => 1
  | some members => 1 + Value.memberNodes weight members
termination_by structural e => e

end

/-- The nodes of a value that are not structures, or are elements. -/
abbrev Value.ownNodes (v : Value) : Nat := v.nodes 0

/-- All nodes of a value. -/
abbrev Value.allNodes (v : Value) : Nat := v.nodes 1

theorem Value.elementsNodes_eq_total (weight : Nat) (es : List (Option (List Value))) :
    Value.elementsNodes weight es = total (Value.elementNodes weight) es := by
  induction es with
  | nil => rfl
  | cons e es ih => rw [Value.elementsNodes, total_cons, ih]

mutual

/-- The structures in a descriptor, those in the elements of arrays left out. -/
def Field.structures : Field → Nat
  | .struct s => s.structures
  | .scalar _ | .scalarArray _ | .structArray _ => 0
termination_by structural f => f

/-- A structure and those in it. -/
def Structure.structures : Structure → Nat
  | ⟨_, ms⟩ => 1 + Structure.memberStructures ms
termination_by structural s => s

/-- The structures in a list of members. -/
def Structure.memberStructures : List (String × Field) → Nat
  | [] => 0
  | (_, f) :: ms => f.structures + Structure.memberStructures ms
termination_by structural ms => ms

end

mutual

/-- Whether a condition holds of a descriptor and of everything in it, down to the members of
elements of arrays. -/
def Field.every (p : Field → Bool) : Field → Bool
  | .scalar t => p (.scalar t)
  | .scalarArray t => p (.scalarArray t)
  | .struct s => p (.struct s) && s.every p
  | .structArray s => p (.structArray s) && s.every p
termination_by structural f => f

/-- Whether a condition holds of everything in a structure. -/
def Structure.every (p : Field → Bool) : Structure → Bool
  | ⟨_, ms⟩ => Structure.everyMember p ms
termination_by structural s => s

/-- Whether a condition holds of everything in a list of members. -/
def Structure.everyMember (p : Field → Bool) : List (String × Field) → Bool
  | [] => true
  | (_, f) :: ms => f.every p && Structure.everyMember p ms
termination_by structural ms => ms

end

/-- Whether a descriptor, if it is a structure, has a member. -/
def Field.isPopulated : Field → Bool
  | .struct s => !s.members.isEmpty
  | _ => true

/-- Whether the elements, if it is an array of structures, have no structures for members. -/
def Field.hasPlainElements : Field → Bool
  | .structArray s => s.structures = 1
  | _ => true

/-! ## Octets of a value -/

section

open Decoder

variable {σ : Type}

theorem ScalarType.costs_decode (t : ScalarType) :
    (t.decode : Decoder σ ScalarValue).Costs fun _ => 1 := by
  cases t with
  | boolean => exact Costs.bool.map fun _ => Nat.le_refl 1
  | byte | ubyte => exact Costs.octet.map fun _ => Nat.le_refl 1
  | short | ushort => exact Costs.word16.map fun _ => Nat.le_succ 1
  | int | uint | float => exact Costs.word32.map fun _ => Nat.succ_pos 3
  | long | ulong | double => exact Costs.word64.map fun _ => Nat.succ_pos 7
  | string => exact Costs.string.map fun _ => Nat.le_refl 1

mutual

/-- A value takes up an octet for each of its own nodes. -/
theorem Field.costs_decodeValue :
    ∀ f : Field, (f.decodeValue : Decoder σ Value).Costs Value.ownNodes
  | .scalar t => t.costs_decode.map fun _ => Nat.le_refl 1
  | .scalarArray t => by
    refine Costs.length.bind fun count =>
      (t.costs_decode.times count).bind fun items => Costs.pure ?_
    rw [total_const, Nat.one_mul, Value.ownNodes, Value.nodes]
    omega
  | .struct s => (Structure.costs_decodeValue s).map fun members =>
      Nat.le_of_eq (Nat.zero_add _)
  | .structArray s => by
    have helement : (do if ← bool then some <$> s.decodeValue else pure none :
        Decoder σ (Option (List Value))).Costs (Value.elementNodes 0) := by
      refine Costs.bool.bind fun present => ?_
      split
      · refine (Structure.costs_decodeValue s).map fun members => ?_
        rw [Value.elementNodes]
        omega
      · exact Costs.pure rfl
    refine Costs.length.bind fun count =>
      (helement.times count).bind fun elements => Costs.pure ?_
    rw [Value.ownNodes, Value.nodes, Value.elementsNodes_eq_total]
    omega

theorem Structure.costs_decodeValue :
    ∀ s : Structure, (s.decodeValue : Decoder σ (List Value)).Costs (Value.memberNodes 0)
  | ⟨_, ms⟩ => Structure.costs_decodeMemberValues ms

theorem Structure.costs_decodeMemberValues :
    ∀ ms : List (String × Field),
      (Structure.decodeMemberValues ms : Decoder σ (List Value)).Costs (Value.memberNodes 0)
  | [] => Costs.pure rfl
  | (_, f) :: ms => by
    refine (Field.costs_decodeValue f).bind fun v =>
      (Structure.costs_decodeMemberValues ms).bind fun vs => Costs.pure ?_
    rw [Value.memberNodes, Value.ownNodes]
    omega

end

end

/-! ## Octets of a descriptor -/

namespace Field

theorem structures_of_ofLeafCode? {code : UInt8} {f : Field} (h : ofLeafCode? code = some f) :
    f.structures = 0 := by
  have hnesting := (within_of_ofLeafCode? h 0).nesting_le
  cases f with
  | struct s =>
    obtain ⟨id, ms⟩ := s
    rw [Field.nesting, Field.height, Structure.height] at hnesting
    omega
  | scalar | scalarArray | structArray => rfl

mutual

/-- A descriptor that is spelled out takes up an octet for each of its structures. -/
theorem Spelled.structures_le {o : ByteOrder} {bs : Bytes} {f : Field} (h : Spelled o bs f) :
    f.structures ≤ bs.length :=
  match h with
  | .plain _ hbody => hbody.structures_le
  | .numbered _ hbody => by
    have hle := hbody.structures_le
    rw [List.length_cons, List.length_append, List.length_cons]
    omega

theorem SpelledBody.structures_le {o : ByteOrder} {code : UInt8} {bs : Bytes} {f : Field}
    (h : SpelledBody o code bs f) : f.structures ≤ bs.length + 1 :=
  match h with
  | .leaf _ _ hleaf => by
    rw [structures_of_ofLeafCode? hleaf]
    exact Nat.zero_le _
  | .struct _ _ hmembers => by
    have hle := hmembers.structures_le
    rw [Field.structures, Structure.structures, List.length_append, List.length_append]
    omega
  | .structArray _ => Nat.zero_le _

theorem SpelledMembers.structures_le {o : ByteOrder} {bs : Bytes} {ms : List (String × Field)}
    (h : SpelledMembers o bs ms) : Structure.memberStructures ms ≤ bs.length :=
  match h with
  | .nil => Nat.zero_le _
  | .cons _ hfield hmembers => by
    have hfirst := hfield.structures_le
    have hothers := hmembers.structures_le
    rw [Structure.memberStructures, List.length_append, List.length_append]
    omega

end

/-- Only the spelling is taken off where a descriptor that is spelled out is decoded. -/
theorem Spelled.rest_eq {o : ByteOrder} {front back cs : Bytes} {f : Field} {t u : KnownTypes}
    {r : Option Field} (h : Spelled o front f)
    (hrun : decode?.run o t (front ++ back) = ⟨.ok r, u, cs⟩) : cs = back := by
  have htakes : decode?.Takes o front (· = some f) := by
    refine (h.takes maxLevels).bind_pure ?_
    rintro _ ⟨d, rfl, rfl⟩
    exact Decoder.Takes.pure rfl
  exact (htakes t back r u cs hrun).2

end Field

/-! ## Structures and other nodes -/

mutual

/-- If no element of an array has structures for members, the descriptor has all the structures that
the value has besides elements. -/
theorem Field.allNodes_of_plain :
    ∀ (f : Field) (v : Value), f.admits v = true → f.every Field.hasPlainElements = true →
      v.allNodes = v.ownNodes + f.structures
  | .scalar t, v, hv, _ => by
    obtain ⟨value, rfl, _⟩ := Field.exists_of_admits_scalar hv
    rfl
  | .scalarArray t, v, hv, _ => by
    obtain ⟨items, rfl, _⟩ := Field.exists_of_admits_scalarArray hv
    rfl
  | .struct s, v, hv, hplain => by
    obtain ⟨members, rfl, hmembers⟩ := Field.exists_of_admits_struct hv
    rw [Field.every, Bool.and_eq_true] at hplain
    have h := Structure.memberNodes_of_plain s members hmembers hplain.2
    simp only [Value.allNodes, Value.ownNodes, Value.nodes, Field.structures]
    omega
  | .structArray s, v, hv, hplain => by
    obtain ⟨elements, rfl, helements⟩ := Field.exists_of_admits_structArray hv
    rw [Field.every, Bool.and_eq_true] at hplain
    clear hv
    have hsame : Value.elementsNodes 1 elements = Value.elementsNodes 0 elements := by
      induction elements with
      | nil => rfl
      | cons e es ih =>
        have hes := ih fun members hmem => helements members (List.mem_cons_of_mem e hmem)
        cases e with
        | none => rw [Value.elementsNodes, Value.elementsNodes, hes, Value.elementNodes,
            Value.elementNodes]
        | some members =>
          have h := Structure.memberNodes_of_plain s members
            (helements members (List.mem_cons_self ..)) hplain.2
          have hone : s.structures = 1 := of_decide_eq_true hplain.1
          simp only [Value.elementsNodes, Value.elementNodes]
          omega
    simp only [Value.allNodes, Value.ownNodes, Value.nodes, Field.structures, hsame, Nat.add_zero]

theorem Structure.memberNodes_of_plain :
    ∀ (s : Structure) (members : List Value), s.admits members = true →
      s.every Field.hasPlainElements = true →
      1 + Value.memberNodes 1 members = Value.memberNodes 0 members + s.structures
  | ⟨_, ms⟩, members, hv, hplain => by
    have h := Structure.memberNodes_of_plainMembers ms members hv hplain
    rw [Structure.structures]
    omega

theorem Structure.memberNodes_of_plainMembers :
    ∀ (ms : List (String × Field)) (vs : List Value), Structure.admitsMembers ms vs = true →
      Structure.everyMember Field.hasPlainElements ms = true →
      Value.memberNodes 1 vs = Value.memberNodes 0 vs + Structure.memberStructures ms
  | [], vs, hv, _ => by
    obtain rfl := Structure.eq_nil_of_admitsMembers hv
    rfl
  | (_, f) :: ms, vs, hv, hplain => by
    obtain ⟨v, vs, rfl, hhere, hbehind⟩ := Structure.exists_of_admitsMembers hv
    rw [Structure.everyMember, Bool.and_eq_true] at hplain
    have hfirst := Field.allNodes_of_plain f v hhere hplain.1
    have hothers := Structure.memberNodes_of_plainMembers ms vs hbehind hplain.2
    simp only [Value.memberNodes, Structure.memberStructures]
    simp only [Value.allNodes, Value.ownNodes] at hfirst
    omega

end

/-- Both factors of a sum of products may be replaced by the larger one. -/
theorem add_le_mul_max {a b a' b' h k : Nat} (ha : a ≤ a' * (h + 1)) (hb : b ≤ b' * (k + 1)) :
    a + b ≤ (a' + b') * (max h k + 1) := by
  have hleft := Nat.mul_le_mul_left a' (Nat.succ_le_succ (Nat.le_max_left h k))
  have hright := Nat.mul_le_mul_left b' (Nat.succ_le_succ (Nat.le_max_right h k))
  rw [Nat.add_mul]
  exact Nat.add_le_add (Nat.le_trans ha hleft) (Nat.le_trans hb hright)

/-- One more structure around at least one node. -/
theorem succ_le_mul_succ {a a' h : Nat} (hle : a ≤ a' * (h + 1)) (hpos : 1 ≤ a') :
    1 + a ≤ a' * (h + 1 + 1) := by
  rw [Nat.mul_add a' (h + 1) 1]
  omega

mutual

/-- If every structure has a member, no more structures are around a node than there are levels. -/
theorem Field.allNodes_le_of_populated :
    ∀ (f : Field) (v : Value), f.admits v = true → f.every Field.isPopulated = true →
      1 ≤ v.ownNodes ∧ v.allNodes ≤ v.ownNodes * (f.nesting + 1)
  | .scalar t, v, hv, _ => by
    obtain ⟨value, rfl, _⟩ := Field.exists_of_admits_scalar hv
    exact ⟨Nat.le_refl 1, Nat.le_refl 1⟩
  | .scalarArray t, v, hv, _ => by
    obtain ⟨items, rfl, _⟩ := Field.exists_of_admits_scalarArray hv
    exact ⟨Nat.le_add_right 1 _, Nat.le_of_eq (Nat.mul_one _).symm⟩
  | .struct ⟨id, ms⟩, v, hv, hpop => by
    obtain ⟨members, rfl, hmembers⟩ := Field.exists_of_admits_struct hv
    rw [Field.every, Bool.and_eq_true] at hpop
    obtain ⟨hpos, hle⟩ := Structure.memberNodes_le_of_populated ms members hmembers hpop.2
    have hmember : ms ≠ [] := by
      rintro rfl
      cases hpop.1
    simp only [Value.allNodes, Value.ownNodes, Value.nodes, Field.nesting, Field.height,
      Structure.height, Nat.zero_add]
    exact ⟨hpos hmember, succ_le_mul_succ hle (hpos hmember)⟩
  | .structArray ⟨id, ms⟩, v, hv, hpop => by
    obtain ⟨elements, rfl, helements⟩ := Field.exists_of_admits_structArray hv
    rw [Field.every, Bool.and_eq_true] at hpop
    clear hv
    have hall : Value.elementsNodes 1 elements ≤
        Value.elementsNodes 0 elements * (Structure.memberHeight 0 ms + 1) := by
      induction elements with
      | nil => exact Nat.zero_le _
      | cons e es ih =>
        have hes := ih fun members hmem => helements members (List.mem_cons_of_mem e hmem)
        have he : Value.elementNodes 1 e ≤
            Value.elementNodes 0 e * (Structure.memberHeight 0 ms + 1) := by
          cases e with
          | none => exact Nat.le_mul_of_pos_right 1 (Nat.succ_pos _)
          | some members =>
            obtain ⟨_, hle⟩ := Structure.memberNodes_le_of_populated ms members
              (helements members (List.mem_cons_self ..)) hpop.2
            rw [Value.elementNodes, Value.elementNodes, Nat.add_mul]
            exact Nat.add_le_add (Nat.le_mul_of_pos_right 1 (Nat.succ_pos _)) hle
        have hsum := add_le_mul_max he hes
        rwa [Nat.max_self] at hsum
    simp only [Value.allNodes, Value.ownNodes, Value.nodes, Field.nesting, Field.height,
      Structure.height]
    have harray : (1 : Nat) ≤ 1 * (Structure.memberHeight 0 ms + 1 + 1) :=
      Nat.le_mul_of_pos_right 1 (Nat.succ_pos _)
    have hsum := add_le_mul_max harray (Nat.le_trans hall (Nat.mul_le_mul_left _ (Nat.le_succ _)))
    rw [Nat.max_self] at hsum
    exact ⟨Nat.le_add_right 1 _, Nat.le_trans hsum (Nat.mul_le_mul_left _ (Nat.le_succ _))⟩

theorem Structure.memberNodes_le_of_populated :
    ∀ (ms : List (String × Field)) (vs : List Value), Structure.admitsMembers ms vs = true →
      Structure.everyMember Field.isPopulated ms = true →
      (ms ≠ [] → 1 ≤ Value.memberNodes 0 vs) ∧
        Value.memberNodes 1 vs ≤ Value.memberNodes 0 vs * (Structure.memberHeight 0 ms + 1)
  | [], vs, hv, _ => by
    obtain rfl := Structure.eq_nil_of_admitsMembers hv
    exact ⟨fun h => absurd rfl h, Nat.zero_le _⟩
  | (_, f) :: ms, vs, hv, hpop => by
    obtain ⟨v, vs, rfl, hhere, hbehind⟩ := Structure.exists_of_admitsMembers hv
    rw [Structure.everyMember, Bool.and_eq_true] at hpop
    obtain ⟨hpos, hfirst⟩ := Field.allNodes_le_of_populated f v hhere hpop.1
    obtain ⟨_, hothers⟩ := Structure.memberNodes_le_of_populated ms vs hbehind hpop.2
    exact ⟨fun _ => Nat.le_trans hpos (Nat.le_add_right _ _), add_le_mul_max hfirst hothers⟩

end

/-! ## Values and the octets that describe them -/

/-- What is read as a described value is read as a descriptor and then as a value of it. -/
theorem Described.exists_of_run_decode? {o : ByteOrder} {t t' : KnownTypes} {bs rest : Bytes}
    {d : Described} (h : decode?.run o t bs = ⟨.ok (some d), t', rest⟩) :
    ∃ u cs, Field.decode?.run o t bs = ⟨.ok (some d.field), u, cs⟩ ∧
      d.field.decodeValue.run o u cs = ⟨.ok d.value, t', rest⟩ := by
  obtain ⟨r, u, cs, hfield, hothers⟩ := Decoder.exists_of_run_bind h
  cases r with
  | none => cases hothers
  | some f =>
    obtain ⟨v, u', cs', hvalue, hpure⟩ := Decoder.exists_of_run_bind hothers
    obtain ⟨hd, rfl, rfl⟩ := Outcome.mk.inj hpure
    obtain rfl := Option.some.inj (Except.ok.inj hd)
    exact ⟨u, cs, hfield, hvalue⟩

/-- What a value decoded from a fresh table costs in octets.  Apart from structures that are not
elements of arrays, no value has more nodes than octets were consumed.  All nodes together are as
few if the octets spell the descriptor out, without a reference, and no element holds a structure;
and they are at most `maxLevels + 1` times as many if every structure has a member. -/
theorem decoded_nodes_le_consumed {o : ByteOrder} {t : KnownTypes} {bs rest : Bytes} {d : Described}
    (h : Described.decode?.run o {} bs = ⟨.ok (some d), t, rest⟩) :
    d.value.ownNodes ≤ bs.length - rest.length ∧
      (∀ front, front <+: bs → Field.Spelled o front d.field →
        d.field.every Field.hasPlainElements = true →
          d.value.allNodes ≤ bs.length - rest.length) ∧
      (d.field.every Field.isPopulated = true →
        d.value.allNodes ≤ (maxLevels + 1) * (bs.length - rest.length)) := by
  obtain ⟨u, cs, hfield, hvalue⟩ := Described.exists_of_run_decode? h
  have hadmits := (d.field.maintains_decodeValue (I := fun _ => True) o u cs trivial).2 d.value
    (congrArg Outcome.result hvalue)
  have hsuffix : cs.length ≤ bs.length := by
    have hleft := Field.failsFor_decode? o {} bs
    rw [hfield] at hleft
    cases hleft with
    | ok left => exact left.length_le
  have hown := d.field.costs_decodeValue.of_run hvalue
  refine ⟨by omega, ?_, fun hpop => ?_⟩
  · rintro front ⟨back, rfl⟩ hspelled hplain
    obtain rfl := hspelled.rest_eq hfield
    have hstructures := hspelled.structures_le
    rw [Field.allNodes_of_plain d.field d.value hadmits hplain, List.length_append]
    omega
  · have hnesting := (Field.maintains_decode? o {} bs KnownTypes.sound_empty).2 (some d.field)
      (congrArg Outcome.result hfield) d.field rfl
    obtain ⟨_, hle⟩ := Field.allNodes_le_of_populated d.field d.value hadmits hpop
    calc d.value.allNodes
      _ ≤ d.value.ownNodes * (d.field.nesting + 1) := hle
      _ ≤ (bs.length - rest.length) * (maxLevels + 1) :=
        Nat.mul_le_mul (by omega) (Nat.succ_le_succ hnesting)
      _ = (maxLevels + 1) * (bs.length - rest.length) := Nat.mul_comm _ _

/-- A structure with an array of integers as its only member, and a value of it. -/
def intList : Described :=
  ⟨.struct ⟨"", [("", .scalarArray .int)]⟩, .struct [.scalarArray [.int 7, .int 8]]⟩

/-- The descriptor of `intList`, spelled out and numbered. -/
def intListSpelling : Bytes :=
  definitionCode :: (Wire.word16 .big 1 ++ Field.structCode ::
    (Wire.string .big "" ++ (Wire.length .big 1 ++
      (Wire.string .big "" ++ [(Field.scalarArray .int).typeCode] ++ []))))

theorem spelled_intList : Field.Spelled .big intListSpelling intList.field := by
  have hempty : "".utf8ByteSize ≤ Wire.maxSize := Nat.zero_le _
  have htext : ∀ t : KnownTypes, Decoder.string.Reads .big t (Wire.string .big "") "" t :=
    fun t => .string .big t hempty
  have hleaf : Field.Spelled .big [(Field.scalarArray .int).typeCode] (.scalarArray .int) :=
    .plain (by decide) (.leaf (by decide) (by decide) rfl)
  exact .numbered (fun t => .word16 .big t 1)
    (.struct htext (fun t => .length .big t (by decide)) (.cons htext hleaf .nil))

/-- `intList` as it is first written. -/
def intListOctets : Bytes :=
  intListSpelling ++ (intList.field.encodeValue .big intList.value).bytes

theorem reads_intList :
    Described.decode?.Reads .big {} intListOctets (some intList)
      (KnownTypes.define {} 1 ⟨intList.field, 2⟩) := by
  have hempty : "".utf8ByteSize ≤ Wire.maxSize := Nat.zero_le _
  have hleaf : (Field.decodeLevelled 63).Reads .big {} [(Field.scalarArray .int).typeCode]
      (some ⟨.scalarArray .int, 1⟩) {} :=
    Field.reads_typeCode .big {} 63 rfl
  have hmembers := Decoder.Reads.times_succ (Field.reads_member hempty hleaf)
    (Decoder.Reads.times_zero _ .big ({} : KnownTypes))
  have hcount : [("", (⟨.scalarArray .int, 1⟩ : Levelled))].length ≤ Wire.maxSize := by decide
  have hstruct := Field.reads_definition (n := 1) (Field.reads_struct hempty hcount hmembers)
  exact Described.reads_decode? (by decide) (by decide) hstruct

theorem intList_nodes_le_consumed :
    intList.value.ownNodes ≤ 17 ∧ intList.value.allNodes ≤ 17 ∧
      intList.value.allNodes ≤ 65 * 17 := by
  have hrun := reads_intList []
  rw [List.append_nil] at hrun
  obtain ⟨hown, hall, hpopulated⟩ := decoded_nodes_le_consumed hrun
  exact ⟨hown, hall intListSpelling (List.prefix_append _ _) spelled_intList rfl, hpopulated rfl⟩

/-! ## Values that outgrow their octets -/

namespace Field

open Decoder

/-- Structures without a name, each with the one before it as both of its members. -/
def doubled : Nat → Field
  | 0 => .struct ⟨"", []⟩
  | n + 1 => .struct ⟨"", [("", doubled n), ("", doubled n)]⟩

/-- The value has a node for each of the members, and for theirs. -/
theorem allNodes_doubled (n : Nat) : (doubled n).zero.allNodes + 1 = Nat.pow 2 (n + 1) := by
  induction n with
  | zero => rfl
  | succ n ih =>
    have hpow : Nat.pow 2 (n + 1 + 1) = Nat.pow 2 (n + 1) * 2 := rfl
    have hnodes : (doubled (n + 1)).zero.allNodes =
        1 + ((doubled n).zero.allNodes + ((doubled n).zero.allNodes + 0)) := rfl
    omega

/-- The members of `doubled`, the first one a definition and the second one a reference to it. -/
def doublingOctets (o : ByteOrder) : Nat → Bytes
  | 0 => definitionCode :: (Wire.word16 o 0 ++
      structCode :: (Wire.string o "" ++ Wire.length o 0 ++ []))
  | n + 1 => definitionCode :: (Wire.word16 o (UInt16.ofNat (n + 1)) ++
      structCode :: (Wire.string o "" ++ Wire.length o 2 ++
        (Wire.string o "" ++ doublingOctets o n ++
          (Wire.string o "" ++ referenceCode :: Wire.word16 o (UInt16.ofNat n) ++ []))))

theorem length_doublingOctets (o : ByteOrder) (n : Nat) :
    (doublingOctets o n).length = 6 + 11 * n := by
  induction n with
  | zero => cases o <;> rfl
  | succ n ih =>
    have hword : ∀ k, (Wire.word16 o k).length = 2 := fun k => ByteOrder.length_encode o 2 _
    have hstring : (Wire.string o "").length = 1 := by cases o <;> rfl
    have hlength : (Wire.length o 2).length = 1 := by cases o <;> rfl
    simp only [doublingOctets, List.length_cons, List.length_append, hword, hstring, hlength, ih,
      List.length_nil]
    omega

/-- The numbers of `doubled` and of all that came before. -/
def doublingTypes : Nat → KnownTypes
  | 0 => KnownTypes.define {} 0 ⟨doubled 0, 1⟩
  | n + 1 => (doublingTypes n).define (UInt16.ofNat (n + 1)) ⟨doubled (n + 1), n + 2⟩

theorem find?_doublingTypes (n : Nat) :
    (doublingTypes n).find? (UInt16.ofNat n) = some ⟨doubled n, n + 1⟩ := by
  cases n with
  | zero => rfl
  | succ n => rw [doublingTypes, KnownTypes.find?_define, if_pos rfl]

theorem reads_doublingOctets (o : ByteOrder) {n room : Nat} (h : n < room) :
    (decodeLevelled room).Reads o {} (doublingOctets o n) (some ⟨doubled n, n + 1⟩)
      (doublingTypes n) := by
  have hempty : "".utf8ByteSize ≤ Wire.maxSize := Nat.zero_le _
  obtain ⟨room, rfl⟩ := Nat.exists_eq_add_of_le' (Nat.zero_lt_of_lt h)
  induction n generalizing room with
  | zero =>
    have hcount : ([] : List (String × Levelled)).length ≤ Wire.maxSize := Nat.zero_le _
    have hmembers := Reads.times_zero (decodeMember room) o ({} : KnownTypes)
    have hstruct := reads_struct hempty hcount hmembers
    exact reads_definition hstruct
  | succ n ih =>
    obtain ⟨room, rfl⟩ := Nat.exists_eq_add_of_le' (Nat.zero_lt_of_lt (Nat.lt_of_succ_lt_succ h))
    have hfirst := reads_member hempty (ih room (Nat.lt_of_succ_lt_succ h))
    have hsecond := reads_member (o := o) hempty
      (reads_reference (find?_doublingTypes n) (Nat.lt_of_succ_lt_succ h))
    have hmembers := Reads.times_succ hfirst
      (Reads.times_succ hsecond (Reads.times_zero _ o (doublingTypes n)))
    have hlevels : levelsOver [("", ⟨doubled n, n + 1⟩), ("", ⟨doubled n, n + 1⟩)] = n + 2 := by
      show max (max 1 (n + 1 + 1)) (n + 1 + 1) = n + 2
      omega
    have hcount : [("", (⟨doubled n, n + 1⟩ : Levelled)), ("", ⟨doubled n, n + 1⟩)].length ≤
        Wire.maxSize := show 2 ≤ Wire.maxSize by decide
    have hstruct := reads_struct hempty hcount hmembers
    rw [hlevels] at hstruct
    exact reads_definition hstruct

/-- The values of `doubled` take up nothing. -/
theorem reads_doubled {σ : Type} (o : ByteOrder) (s : σ) (n : Nat) :
    (doubled n).decodeValue.Reads o s [] (doubled n).zero s := by
  induction n with
  | zero => exact (Reads.pure [] o s).map Value.struct
  | succ n ih =>
    have hlast : (Structure.decodeMemberValues [("", doubled n)]).Reads o s []
        [(doubled n).zero] s :=
      ih.bind_pure ((Reads.pure [] o s).bind_pure (Reads.pure _ o s))
    have hmembers : (Structure.decodeMemberValues [("", doubled n), ("", doubled n)]).Reads o s []
        [(doubled n).zero, (doubled n).zero] s :=
      ih.bind_pure (hlast.bind_pure (Reads.pure _ o s))
    exact hmembers.map Value.struct

end Field

/-- As long as there is room for one more level, eleven octets more double the value. -/
theorem reads_doubling (o : ByteOrder) {n : Nat} (h : n < maxLevels) :
    Described.decode?.Reads o {} (Field.doublingOctets o n)
      (some ⟨Field.doubled n, (Field.doubled n).zero⟩) (Field.doublingTypes n) := by
  have hfield : Field.decode?.Reads o {} (Field.doublingOctets o n) (some (Field.doubled n))
      (Field.doublingTypes n) :=
    (Field.reads_doublingOctets o h).bind_pure (Decoder.Reads.pure _ o _)
  exact hfield.bind_pure ((Field.reads_doubled o _ n).bind_pure (Decoder.Reads.pure _ o _))

/-- References to structures without members: 72 octets with 127 structures in their value. -/
theorem doubled_outgrows_octets :
    ∃ d t, Described.decode?.run .big {} (Field.doublingOctets .big 6) = ⟨.ok (some d), t, []⟩ ∧
      (Field.doublingOctets .big 6).length = 72 ∧ d.value.allNodes = 127 := by
  have hrun := reads_doubling .big (show 6 < maxLevels by decide) []
  rw [List.append_nil] at hrun
  exact ⟨_, _, hrun, Field.length_doublingOctets .big 6,
    Nat.succ.inj (Field.allNodes_doubled 6)⟩

/-- Structures in elements outgrow their octets without any reference: 29 octets with 41 nodes. -/
example :
    let bs : Bytes := Field.structArrayCode :: Field.structCode :: 0 :: 1 :: 0 ::
      Field.structCode :: 0 :: 0 :: 20 :: List.replicate 20 1
    bs.length = 29 ∧ ((Described.decode?.run .big {} bs).result.toOption.join.map
      (·.value.allNodes)) = some 41 := by
  cbv

end PvNet
