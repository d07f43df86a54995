import PvNet.Proofs.Net.NetworkParts
import PvNet.Proofs.Net.RuleTexts
set_option autoImplicit false

/-!
# Lists of special networks

A list is read on top of the built-in special networks, and one more item adds one more
special network at the end.  That takes the place of the one with the same octets, even if
the two have different masks, so an address can lose the special network that it belonged
to without coming into the new one: exactly the other addresses keep their network parts
(`NetworkRules.other_networks_kept_iff`).  What a list gives can be written as a list that
gives it again (`NetworkRules.Sound.ofList_text`).
-/

namespace PvNet

open NetworkRule (Valid WrittenAs)

namespace NetworkRules

variable {rs : NetworkRules} {r s : NetworkRule} {list entry : String}

/-! ## What every list has -/

/-- Every special network can be written, there is one at most for the same octets, and one for
those of each private network. -/
structure Sound (rs : NetworkRules) : Prop where
  valid : ∀ r ∈ rs.rules, r.Valid
  distinct : (rs.rules.map (·.network)).Nodup
  builtin : ∀ r ∈ builtin.rules, r.network ∈ rs.rules.map (·.network)

theorem sound_builtin : builtin.Sound := by
  refine ⟨fun r hr => ?_, by decide, fun r hr => List.mem_map_of_mem hr⟩
  simp only [NetworkRules.builtin, List.mem_cons, List.not_mem_nil, or_false] at hr
  rcases hr with rfl | rfl | rfl <;> exact ⟨by decide, by decide, by decide, by decide⟩

theorem mem_rules_add : s ∈ (rs.add r).rules ↔ (s ∈ rs.rules ∧ s.network ≠ r.network) ∨ s = r := by
  simp [add]

theorem Sound.add (h : rs.Sound) (hr : r.Valid) : (rs.add r).Sound := by
  refine ⟨fun s hs => ?_, ?_, fun s hs => ?_⟩
  · rcases mem_rules_add.mp hs with ⟨hs, -⟩ | rfl
    · exact h.valid s hs
    · exact hr
  · have hsub : ((rs.rules.filter fun old => old.network ≠ r.network).map (·.network)).Nodup :=
      (List.filter_sublist.map _).nodup h.distinct
    rw [NetworkRules.add, List.map_append, List.map_singleton]
    refine List.nodup_append.mpr ⟨hsub, List.nodup_singleton _, ?_⟩
    intro network hold network' hnew
    obtain ⟨s, hs, rfl⟩ := List.mem_map.mp hold
    obtain rfl := List.mem_singleton.mp hnew
    exact of_decide_eq_true (List.mem_filter.mp hs).2
  · by_cases hsame : s.network = r.network
    · exact List.mem_map.mpr ⟨r, mem_rules_add.mpr (.inr rfl), hsame.symm⟩
    · obtain ⟨t, ht, hnetwork⟩ := List.mem_map.mp (h.builtin s hs)
      exact List.mem_map.mpr
        ⟨t, mem_rules_add.mpr (.inl ⟨ht, fun heq => hsame (hnetwork.symm.trans heq)⟩), hnetwork⟩

theorem Sound.foldl_add (h : rs.Sound) {rules : List NetworkRule} (hrules : ∀ r ∈ rules, r.Valid) :
    (rules.foldl NetworkRules.add rs).Sound := by
  induction rules generalizing rs with
  | nil => exact h
  | cons r rules ih =>
    rw [List.forall_mem_cons] at hrules
    exact ih (h.add hrules.1) hrules.2

theorem sound_ofList (list : String) : (ofList list).Sound := by
  refine sound_builtin.foldl_add fun r hr => ?_
  obtain ⟨item, -, hitem⟩ := List.mem_filterMap.mp hr
  exact (NetworkRule.ofText?_eq_some_iff.mp hitem).valid

/-- One more item adds the special network that it stands for. -/
theorem ofList_append (h : r.WrittenAs (Text.trim entry)) :
    ofList (list ++ "," ++ entry) = (ofList list).add r := by
  have hcomma : ',' ∉ entry.toList := fun hmem =>
    h.not_mem (by decide) (by decide) (by decide) (Text.mem_trim_of_mem (by decide) hmem)
  have hfields : Text.fields ',' (list ++ "," ++ entry) = Text.fields ',' list ++ [entry] := by
    rw [← Text.fields_of_not_mem hcomma]
    exact Text.fields_append ',' list entry
  have hread : [entry].filterMap (fun s => NetworkRule.ofText? (Text.trim s)) = [r] :=
    List.filterMap_cons_some (NetworkRule.ofText?_eq_some_iff.mpr h)
  rw [ofList, hfields, List.filterMap_append, hread, List.foldl_append]
  rfl

/-! ## The text of a list -/

/-- Special networks with different octets are added one behind the other, in place of those that
have the same octets as one of them. -/
theorem foldl_add_eq {rules : List NetworkRule} (h : (rules.map (·.network)).Nodup)
    (rs : NetworkRules) :
    rules.foldl NetworkRules.add rs =
      ⟨rs.rules.filter (fun old => old.network ∉ rules.map (·.network)) ++ rules⟩ := by
  induction rules generalizing rs with
  | nil => simp
  | cons r rules ih =>
    rw [List.map_cons, List.nodup_cons] at h
    have hlater : decide (r.network ∉ rules.map (·.network)) = true := decide_eq_true h.1
    rw [List.foldl_cons, ih h.2, NetworkRules.add, List.filter_append, List.filter_filter,
      List.filter_singleton, hlater, List.append_assoc]
    congr 2
    refine List.filter_congr fun old _ => ?_
    rw [List.map_cons, ← Bool.decide_and, decide_eq_decide, List.mem_cons, not_or, and_comm]

theorem not_blank_of_mem_text {c : Char} (h : c ∈ rs.text.toList) : Text.isBlank c = false := by
  have hcomma : ∀ c ∈ ",".toList, Text.isBlank c = false := by
    intro c hc
    rw [show c = ',' by simpa using hc]
    decide
  refine Text.forall_mem_intercalate hcomma (fun item hitem => ?_) c h
  obtain ⟨r, -, rfl⟩ := List.mem_map.mp hitem
  exact fun _ => NetworkRule.not_blank_of_mem_text

/-- Every list is written as a text that gives it again. -/
theorem Sound.ofList_text (h : rs.Sound) : ofList rs.text = rs := by
  have hcomma : ∀ item ∈ rs.rules.map NetworkRule.text, ',' ∉ item.toList := by
    intro item hitem
    obtain ⟨r, hr, rfl⟩ := List.mem_map.mp hitem
    exact (h.valid r hr).writtenAs_text.not_mem (by decide) (by decide) (by decide)
  have hne : rs.rules.map NetworkRule.text ≠ [] := by
    have hmem := h.builtin ⟨[10], 8, 24⟩ (by decide)
    rintro hnil
    rw [List.map_eq_nil_iff.mp hnil] at hmem
    cases hmem
  have hfields : Text.fields ',' rs.text = rs.rules.map NetworkRule.text :=
    (Text.fields_eq_iff hne hcomma).mpr rfl
  have hread : ∀ r ∈ rs.rules, NetworkRule.ofText? (Text.trim r.text) = some r := fun r hr => by
    rw [r.trim_text]
    exact NetworkRule.ofText?_eq_some_iff.mpr (h.valid r hr).writtenAs_text
  have hbuiltin : NetworkRules.builtin.rules.filter
      (fun old => old.network ∉ rs.rules.map (·.network)) = [] := by
    rw [List.filter_eq_nil_iff]
    intro r hr
    simpa using h.builtin r hr
  rw [ofList, hfields, List.filterMap_map, Function.comp_def, List.filterMap_congr hread,
    List.filterMap_some, foldl_add_eq h.distinct, hbuiltin, List.nil_append]

/-! ## The special network that counts -/

variable {a : Ipv4}

/-- The last special network that an address belongs to. -/
def Decides (rs : NetworkRules) (a : Ipv4) (r : NetworkRule) : Prop :=
  ∃ front behind, rs.rules = front ++ r :: behind ∧ r.applies a = true ∧
    ∀ later ∈ behind, later.applies a = false

/-- The list without the special network of some octets. -/
def without (rs : NetworkRules) (network : Bytes) : NetworkRules :=
  ⟨rs.rules.filter fun r => r.network ≠ network⟩

theorem find?_reverse_eq_some_iff :
    (rs.rules.reverse.find? fun r => r.applies a) = some r ↔ rs.Decides a r := by
  rw [List.find?_eq_some_iff_append]
  constructor
  · rintro ⟨happlies, behind, front, hrules, hbehind⟩
    refine ⟨front.reverse, behind.reverse, ?_, happlies, fun later hlater => ?_⟩
    · rw [← List.reverse_reverse rs.rules, hrules]
      simp
    · simpa using hbehind later (List.mem_reverse.mp hlater)
  · rintro ⟨front, behind, hrules, happlies, hbehind⟩
    refine ⟨happlies, behind.reverse, front.reverse, by simp [hrules], fun later hlater => ?_⟩
    simpa using hbehind later (List.mem_reverse.mp hlater)

theorem Decides.mem_rules (h : rs.Decides a r) : r ∈ rs.rules := by
  obtain ⟨front, behind, hrules, -⟩ := h
  simp [hrules]

theorem Decides.applies_eq_true (h : rs.Decides a r) : r.applies a = true := by
  obtain ⟨-, -, -, happlies, -⟩ := h
  exact happlies

theorem Decides.prefixLength_eq (h : rs.Decides a r) : rs.prefixLength a = r.length := by
  rw [prefixLength, find?_reverse_eq_some_iff.mpr h]

theorem prefixLength_of_forall (h : ∀ r ∈ rs.rules, r.applies a = false) :
    rs.prefixLength a = (AddressClass.of (.v4 a)).maskLength := by
  have hnone : (rs.rules.reverse.find? fun r => r.applies a) = none :=
    List.find?_eq_none.mpr fun r hr => by simp [h r (List.mem_reverse.mp hr)]
  rw [prefixLength, hnone]

/-- An address belongs to a special network of a list, or to none of them. -/
theorem decides_or_forall (rs : NetworkRules) (a : Ipv4) :
    (∃ r, rs.Decides a r) ∨ ∀ r ∈ rs.rules, r.applies a = false := by
  cases hfind : rs.rules.reverse.find? fun r => r.applies a with
  | some r => exact .inl ⟨r, find?_reverse_eq_some_iff.mp hfind⟩
  | none =>
    refine .inr fun r hr => ?_
    simpa using List.find?_eq_none.mp hfind r (List.mem_reverse.mpr hr)

/-- What is left out does not count unless it has counted before. -/
theorem prefixLength_without {network : Bytes}
    (h : ∀ r, rs.Decides a r → r.network ≠ network) :
    (rs.without network).prefixLength a = rs.prefixLength a := by
  rcases decides_or_forall rs a with ⟨r, hr⟩ | hnone
  · have hne := h r hr
    rw [hr.prefixLength_eq]
    obtain ⟨front, behind, hrules, happlies, hbehind⟩ := hr
    have hwithout : (rs.without network).Decides a r := by
      refine ⟨front.filter fun r => r.network ≠ network, behind.filter fun r => r.network ≠ network,
        ?_, happlies, fun later hlater => hbehind later (List.mem_filter.mp hlater).1⟩
      simp [without, hrules, hne]
    exact hwithout.prefixLength_eq
  · have hwithout : ∀ r ∈ (rs.without network).rules, r.applies a = false :=
      fun r hr => hnone r (List.mem_filter.mp hr).1
    rw [prefixLength_of_forall hwithout, prefixLength_of_forall hnone]

theorem prefixLength_add_of_applies (h : r.applies a = true) :
    (rs.add r).prefixLength a = r.length :=
  Decides.prefixLength_eq ⟨_, [], rfl, h, List.forall_mem_nil _⟩

theorem prefixLength_add_of_not_applies (h : r.applies a = false) :
    (rs.add r).prefixLength a = (rs.without r.network).prefixLength a := by
  rw [prefixLength, prefixLength, add, without, List.reverse_append, List.reverse_singleton,
    List.singleton_append, List.find?_cons, h]

/-! ## One more special network -/

/-- A special network of the same octets that has no longer mask contains the other one. -/
theorem applies_of_reach_le (hr : r.Valid) (hs : s.Valid) (hnetwork : s.network = r.network)
    (hreach : r.reach ≤ s.reach) (h : s.applies a = true) : r.applies a = true := by
  rw [NetworkRule.applies_iff a hs.atMostFour, hnetwork] at h
  rw [NetworkRule.applies_iff a hr.atMostFour]
  exact fun i hi => h i (Nat.lt_of_lt_of_le hi hreach)

/-- An address outside of the special network that is added keeps its network part unless what it
belonged to is left out. -/
theorem kept_iff (h : r.applies a = false) :
    (rs.add r).prefixLength a = rs.prefixLength a ↔
      ∀ s, rs.Decides a s → s.network = r.network →
        (rs.without r.network).prefixLength a = s.length := by
  rw [prefixLength_add_of_not_applies h]
  constructor
  · intro hkept s hs _
    rw [hkept, hs.prefixLength_eq]
  · intro hkept
    by_cases hleft : ∃ s, rs.Decides a s ∧ s.network = r.network
    · obtain ⟨s, hs, hnetwork⟩ := hleft
      rw [hkept s hs hnetwork, hs.prefixLength_eq]
    · exact prefixLength_without fun s hs hnetwork => hleft ⟨s, hs, hnetwork⟩

theorem broadcast?_congr {rs' : NetworkRules} (h : rs.prefixLength a = rs'.prefixLength a) :
    rs.broadcast? a = rs'.broadcast? a := by
  rw [broadcast?, broadcast?, h]

/-- With one more item every address of the special network that it stands for gets its length.
Any other address keeps its own, and with it its broadcast address, exactly unless it had that from
a special network of the same octets, and what remains gives it a different one.  This cannot be if
no special network of the same octets has a shorter mask. -/
theorem other_networks_kept_iff (h : r.WrittenAs (Text.trim entry)) (list : String) (a : Ipv4) :
    (r.applies a = true → (ofList (list ++ "," ++ entry)).prefixLength a = r.length) ∧
    (r.applies a = false →
      ((ofList (list ++ "," ++ entry)).prefixLength a = (ofList list).prefixLength a ↔
        ∀ s, (ofList list).Decides a s → s.network = r.network →
          ((ofList list).without r.network).prefixLength a = s.length) ∧
      ((ofList (list ++ "," ++ entry)).prefixLength a = (ofList list).prefixLength a →
        (ofList (list ++ "," ++ entry)).broadcast? a = (ofList list).broadcast? a) ∧
      ((∀ s ∈ (ofList list).rules, s.network = r.network → r.reach ≤ s.reach) →
        (ofList (list ++ "," ++ entry)).prefixLength a = (ofList list).prefixLength a)) := by
  rw [ofList_append h]
  refine ⟨prefixLength_add_of_applies, fun hnot => ⟨kept_iff hnot, broadcast?_congr, ?_⟩⟩
  intro hreach
  refine (kept_iff hnot).mpr fun s hs hnetwork => ?_
  have hrules := hs.mem_rules
  have happlies := applies_of_reach_le h.valid ((sound_ofList list).valid s hrules) hnetwork
    (hreach s hrules hnetwork) hs.applies_eq_true
  exact absurd (hnot.symm.trans happlies) Bool.false_ne_true

/-- The network 10.1.0.0/16 is given inside of 10.0.0.0/8.  What is outside of it stays there. -/
theorem enclosing_network_kept :
    NetworkRule.WrittenAs ⟨[10, 1], 16, 24⟩ (Text.trim " 10. 1/+16:24") ∧
      (ofList ("10/8:20" ++ "," ++ " 10. 1/+16:24")).prefixLength (.ofOctets 10 1 77 1) = 24 ∧
      (ofList ("10/8:20" ++ "," ++ " 10. 1/+16:24")).prefixLength (.ofOctets 10 2 77 1) = 20 ∧
      (ofList ("10/8:20" ++ "," ++ " 10. 1/+16:24")).broadcast? (.ofOctets 10 2 77 1) =
        some (.ofOctets 10 2 79 255) := by
  have hwritten : NetworkRule.WrittenAs ⟨[10, 1], 16, 24⟩ (Text.trim " 10. 1/+16:24") :=
    NetworkRule.ofText?_eq_some_iff.mp (by decide +kernel)
  have hinside := other_networks_kept_iff hwritten "10/8:20" (.ofOctets 10 1 77 1)
  have houtside := other_networks_kept_iff hwritten "10/8:20" (.ofOctets 10 2 77 1)
  have hkept := (houtside.2 (by decide +kernel)).2.2 (by decide +kernel)
  have hbefore : (ofList "10/8:20").prefixLength (.ofOctets 10 2 77 1) = 20 ∧
      (ofList "10/8:20").broadcast? (.ofOctets 10 2 77 1) = some (.ofOctets 10 2 79 255) := by
    decide +kernel
  exact ⟨hwritten, hinside.1 (by decide +kernel), hkept.trans hbefore.1,
    ((houtside.2 (by decide +kernel)).2.1 hkept).trans hbefore.2⟩

/-- With the network 172.16.0.0/16 the built-in one 172.16.0.0/12 is gone, and with it the network
part of an address that the two do not have in common. -/
theorem wider_network_displaced :
    NetworkRule.WrittenAs ⟨[172, 16], 16, 22⟩ (Text.trim "172.16/16:22") ∧
      NetworkRule.applies ⟨[172, 16], 16, 22⟩ (.ofOctets 172 20 0 1) = false ∧
      (ofList "10/8:16").prefixLength (.ofOctets 172 20 0 1) = 24 ∧
      (ofList ("10/8:16" ++ "," ++ "172.16/16:22")).prefixLength (.ofOctets 172 20 0 1) = 12 ∧
      (ofList "10/8:16").broadcast? (.ofOctets 172 20 0 1) = some (.ofOctets 172 20 0 255) ∧
      (ofList ("10/8:16" ++ "," ++ "172.16/16:22")).broadcast? (.ofOctets 172 20 0 1) =
        some (.ofOctets 172 31 255 255) :=
  ⟨NetworkRule.ofText?_eq_some_iff.mp (by decide +kernel), by decide +kernel⟩

end NetworkRules

end PvNet
