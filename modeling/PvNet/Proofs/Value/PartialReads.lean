import Mathlib.Data.List.Forall2
import PvNet.Proofs.Value.PartialUpdate
set_option autoImplicit false

/-!
# Partial reads leave the rest alone

Reading a partial update changes the target while the octets come in, so a read that
fails leaves the parts in front of the failure changed.  Still, from a suitable target
it goes from leaf to leaf: whatever the octets are and wherever reading stops, the
target is suitable, and a leaf that the set does not select has its old value.  Only
where the whole structure is selected does a failure leave everything.
-/

namespace PvNet

/-- A leaf stays at its place, and unless it is selected it keeps its value. -/
structure Leaf.Kept (changed : BitSet) (old new : Leaf) : Prop where
  place : new.place = old.place
  value : old.isSelected changed = false → new.value = old.value

theorem Leaf.Kept.refl (changed : BitSet) (leaf : Leaf) : leaf.Kept changed leaf :=
  ⟨rfl, fun _ => rfl⟩

theorem Leaf.forall₂_kept_refl (changed : BitSet) (leaves : List Leaf) :
    List.Forall₂ (Leaf.Kept changed) leaves leaves :=
  List.forall₂_same.2 fun leaf _ => .refl changed leaf

/-- Where all leaves are selected, others at their places may stand for them. -/
theorem Leaf.forall₂_kept_of_selected {changed : BitSet} :
    ∀ {olds news : List Leaf}, news.map Leaf.place = olds.map Leaf.place →
      (∀ leaf ∈ olds, leaf.isSelected changed = true) →
      List.Forall₂ (Leaf.Kept changed) olds news
  | [], [], _, _ => .nil
  | [], _ :: _, hplace, _ => nomatch hplace
  | _ :: _, [], hplace, _ => nomatch hplace
  | old :: olds, new :: news, hplace, hsel => by
    obtain ⟨hhead, htail⟩ := List.cons.inj hplace
    rw [List.forall_mem_cons] at hsel
    refine .cons ⟨hhead, fun h => ?_⟩ (Leaf.forall₂_kept_of_selected htail hsel.2)
    exact nomatch hsel.1.symm.trans h

/-- A member at offset `n` after reading: it is suitable, and its leaves are kept. -/
structure Field.Keeps (changed : BitSet) (above : List Nat) (n : Nat) (f : Field)
    (old new : Value) : Prop where
  admits : f.admits new = true
  leaves : List.Forall₂ (Leaf.Kept changed) (f.leavesFrom above n old).1 (f.leavesFrom above n new).1

/-- The members of a structure, the first at offset `n`, after reading. -/
structure Structure.KeepsMembers (changed : BitSet) (above : List Nat) (n : Nat)
    (ms : List (String × Field)) (old new : List Value) : Prop where
  admits : Structure.admitsMembers ms new = true
  leaves : List.Forall₂ (Leaf.Kept changed) (Structure.memberLeavesFrom above n ms old).1
    (Structure.memberLeavesFrom above n ms new).1

section

variable {changed : BitSet} {above : List Nat} {n : Nat} {f : Field}

theorem Field.Keeps.refl {v : Value} (h : f.admits v = true) : f.Keeps changed above n v v :=
  ⟨h, Leaf.forall₂_kept_refl changed _⟩

/-- Every leaf of a member that is set itself is selected. -/
theorem Field.isSelected_of_mem (hn : n ∈ changed) {leaf : Leaf} :
    ∀ (f : Field) (v : Value), f.admits v = true → leaf ∈ (f.leavesFrom above n v).1 →
      leaf.isSelected changed = true
  | .struct s, v, hv, h => by
    obtain ⟨members, rfl, -⟩ := Field.exists_of_admits_struct hv
    have hmem := Structure.mem_enclosing above n List.mem_cons_self s members h
    exact List.any_eq_true.2 ⟨n, List.mem_cons_of_mem _ hmem, decide_eq_true hn⟩
  | .scalar _, v, _, h | .scalarArray _, v, _, h | .structArray _, v, _, h => by
    obtain rfl := List.mem_singleton.1 h
    exact List.any_eq_true.2 ⟨n, List.mem_cons_self, decide_eq_true hn⟩

/-- A member that is set itself may take any suitable value. -/
theorem Field.Keeps.of_mem (hn : n ∈ changed) {old new : Value} (hold : f.admits old = true)
    (hnew : f.admits new = true) : f.Keeps changed above n old new where
  admits := hnew
  leaves := Leaf.forall₂_kept_of_selected (Field.place_leavesFrom above n f new old hnew hold)
    fun _ hleaf => Field.isSelected_of_mem hn f old hold hleaf

theorem Structure.KeepsMembers.cons {name : String} {ms : List (String × Field)} {v v' : Value}
    {vs vs' : List Value} (hv : f.admits v = true) (hhere : f.Keeps changed above n v v')
    (hbehind : Structure.KeepsMembers changed above (n + f.offsetCount) ms vs vs') :
    Structure.KeepsMembers changed above n ((name, f) :: ms) (v :: vs) (v' :: vs') where
  admits := by rw [Structure.admitsMembers, hhere.admits, hbehind.admits, Bool.and_true]
  leaves := by
    rw [Structure.memberLeavesFrom_cons above n name ms vs hv,
      Structure.memberLeavesFrom_cons above n name ms vs' hhere.admits]
    exact List.rel_append hhere.leaves hbehind.leaves

end

/-! ## Reading -/

/-- Reading a new state either gives one or fails and leaves the old one. -/
theorem Decoder.replaceBy_cases {α : Type} {d : Decoder α α} {Q : α → Prop} {s : α}
    (hd : d.Maintains (· = s) Q) (o : ByteOrder) (bs : Bytes) :
    (∃ a, ((Decoder.replaceBy d).run o s bs).result = .ok () ∧
      ((Decoder.replaceBy d).run o s bs).state = a ∧ Q a) ∨
    ∃ e, ((Decoder.replaceBy d).run o s bs).result = .error e ∧
      ((Decoder.replaceBy d).run o s bs).state = s := by
  obtain ⟨hstate, hresult⟩ := hd o s bs rfl
  unfold Decoder.replaceBy
  rcases h : d.run o s bs with ⟨result, s', rest⟩
  rw [h] at hstate hresult
  obtain rfl : s' = s := hstate
  cases result with
  | ok a =>
    rw [Decoder.run_bind_of_ok h]
    exact .inl ⟨a, rfl, rfl, hresult a rfl⟩
  | error e =>
    rw [Decoder.run_bind_of_error h]
    exact .inr ⟨e, rfl, rfl⟩

/-- A value that is replaced by what is read stays suitable. -/
theorem Field.admits_replaceBy (f : Field) (o : ByteOrder) {target : Value}
    (h : f.admits target = true) (bs : Bytes) :
    f.admits ((Decoder.replaceBy f.decodeValue).run o target bs).state = true := by
  rcases Decoder.replaceBy_cases f.maintains_decodeValue o bs with ⟨v, -, hstate, hv⟩ | ⟨e, -, hstate⟩
  · rwa [hstate]
  · rwa [hstate]

mutual

/-- However far reading the changed parts of a member comes, the leaves are kept. -/
theorem Field.keeps_decodeChanges (o : ByteOrder) (changed : BitSet) (above : List Nat) (n : Nat) :
    ∀ (f : Field) (target : Value) (bs : Bytes), f.admits target = true →
      f.Keeps changed above n target ((f.decodeChanges changed n).run o target bs).state
  | .struct s, target, bs, h => by
    by_cases hn : n ∈ changed
    · rw [Field.decodeChanges_of_mem hn]
      exact .of_mem hn h (Field.admits_replaceBy (.struct s) o h bs)
    obtain ⟨members, rfl, hmembers⟩ := Field.exists_of_admits_struct h
    rw [Decoder.run, Field.decodeChanges, if_neg hn]
    exact Structure.keeps_decodeChangesBelow o changed above n s members bs hmembers
  | .scalar _, target, bs, h | .scalarArray _, target, bs, h | .structArray _, target, bs, h => by
    by_cases hn : n ∈ changed
    · rw [Field.decodeChanges_of_mem hn]
      exact .of_mem hn h (Field.admits_replaceBy _ o h bs)
    · simpa [Decoder.run, Field.decodeChanges, hn] using Field.Keeps.refl h

theorem Structure.keeps_decodeChangesBelow (o : ByteOrder) (changed : BitSet) (above : List Nat)
    (n : Nat) :
    ∀ (s : Structure) (target : List Value) (bs : Bytes), s.admits target = true →
      (Field.struct s).Keeps changed above n (.struct target)
        (.struct ((s.decodeChangesBelow changed n).run o target bs).state)
  | ⟨id, ms⟩, target, bs, h => by
    have hmembers :=
      Structure.keeps_decodeMemberChanges o changed (n :: above) (n + 1) ms target bs h
    rw [Decoder.run, Structure.decodeChangesBelow, if_pos (Structure.length_eq_of_admitsMembers h)]
    exact ⟨hmembers.admits, hmembers.leaves⟩

theorem Structure.keeps_decodeMemberChanges (o : ByteOrder) (changed : BitSet) (above : List Nat)
    (n : Nat) :
    ∀ (ms : List (String × Field)) (target : List Value) (bs : Bytes),
      Structure.admitsMembers ms target = true →
      Structure.KeepsMembers changed above n ms target
        ((Structure.decodeMemberChanges changed n ms).run o target bs).state
  | [], target, bs, h => ⟨h, Leaf.forall₂_kept_refl changed _⟩
  | (name, f) :: ms, target, bs, h => by
    obtain ⟨v, vs, rfl, hv, hvs⟩ := Structure.exists_of_admitsMembers h
    have hhere := Field.keeps_decodeChanges o changed above n f v bs hv
    rw [Decoder.run] at hhere ⊢
    rw [Structure.decodeMemberChanges]
    rcases hout : f.decodeChanges changed n o v bs with ⟨result, v', rest⟩
    rw [hout] at hhere
    cases result with
    | error e => exact .cons hv hhere ⟨hvs, Leaf.forall₂_kept_refl changed _⟩
    | ok =>
      exact .cons hv hhere
        (Structure.keeps_decodeMemberChanges o changed above (n + f.offsetCount) ms vs rest hvs)

end

/-- Whatever the octets are and wherever reading a partial update stops, a suitable target stays
suitable, and each leaf that the set does not select keeps its value.  Where the whole structure is
selected, a failure leaves the target as it is. -/
theorem Structure.partial_read_keeps (o : ByteOrder) (changed : BitSet) (s : Structure)
    (target : List Value) (bs : Bytes) (h : s.admits target = true) :
    s.admits ((s.decodeChanges changed).run o target bs).state = true ∧
      List.Forall₂ (Leaf.Kept changed) (s.leaves target)
        (s.leaves ((s.decodeChanges changed).run o target bs).state) ∧
      (0 ∈ changed → ∀ e, ((s.decodeChanges changed).run o target bs).result = .error e →
        ((s.decodeChanges changed).run o target bs).state = target) := by
  unfold Structure.decodeChanges
  by_cases h0 : 0 ∈ changed
  · rw [if_pos h0]
    rcases Decoder.replaceBy_cases s.maintains_decodeFitting o bs with
      ⟨members, hok, hstate, hmembers⟩ | ⟨-, -, hstate⟩
    · have hkeeps : (Field.struct s).Keeps changed [] 0 (.struct target) (.struct members) :=
        .of_mem h0 h hmembers.1
      rw [hok, hstate]
      exact ⟨hkeeps.admits, hkeeps.leaves, fun _ e he => nomatch he⟩
    · rw [hstate]
      exact ⟨h, Leaf.forall₂_kept_refl changed _, fun _ _ _ => rfl⟩
  · rw [if_neg h0]
    have hkeeps := s.keeps_decodeChangesBelow o changed [] 0 target bs h
    exact ⟨hkeeps.admits, hkeeps.leaves, fun hmem => absurd hmem h0⟩

/-- The octets end inside the seconds: the value in front of them is new, and the tags behind them
are selected but old. -/
theorem timeStamp_broken_off :
    timedValue.admits [.scalar (.int 4), .struct [.scalar (.long 5), .scalar (.int 6)],
        .scalarArray []] = true ∧
      ∃ target' rest,
        (timedValue.decodeChanges (.ofList [1, 3, 5])).run .little
          [.scalar (.int 4), .struct [.scalar (.long 5), .scalar (.int 6)], .scalarArray []]
          [9, 0, 0, 0, 7, 0, 0] = ⟨.error (.truncated 8 3), target', rest⟩ ∧
        timedValue.admits target' = true ∧
        List.Forall₂ (Leaf.Kept (.ofList [1, 3, 5]))
          (timedValue.leaves
            [.scalar (.int 4), .struct [.scalar (.long 5), .scalar (.int 6)], .scalarArray []])
          (timedValue.leaves target') ∧
        (timedValue.leaves target').map Leaf.value =
          [.scalar (.int 9), .scalar (.long 5), .scalar (.int 6), .scalarArray []] := by
  have ht : timedValue.admits [.scalar (.int 4), .struct [.scalar (.long 5), .scalar (.int 6)],
      .scalarArray []] = true := by decide
  obtain ⟨hadmits, hkept, -⟩ := timedValue.partial_read_keeps .little (.ofList [1, 3, 5]) _
    [9, 0, 0, 0, 7, 0, 0] ht
  exact ⟨ht, _, _, rfl, hadmits, hkept, rfl⟩

end PvNet
