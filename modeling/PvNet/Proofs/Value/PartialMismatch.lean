import PvNet.Proofs.Value.PartialUpdate
set_option autoImplicit false

/-!
# Partial updates of unsuitable values

A value that does not suit its descriptor at a place that an update selects should be
reported and never be written.  Every report is a mismatch, but not every unsuitable
place is reported: writing skips a member that is not changed itself if its value is
no structure, although offsets below it are set.  These skipped members are the only
exception.
-/

namespace PvNet

/-! ## Selected places -/

mutual

/-- Whether a value suits a member at `offset` as far as offset `i` selects it: down to every
scalar if `i` is the member's own offset, and on the way to `i` if that is below. -/
def Field.suitsAt (i offset : Nat) : Field → Value → Bool
  | .struct s, .struct members =>
    if i = offset then s.admits members
    else if offset < i ∧ i < offset + s.offsetCount then s.suitsBelow i offset members
    else true
  | f, v => if i = offset then f.admits v else !(offset < i ∧ i < offset + f.offsetCount)
termination_by structural f => f

/-- Whether a list of values suits a structure at offset `base` on the way to offset `i` below. -/
def Structure.suitsBelow (i base : Nat) : Structure → List Value → Bool
  | ⟨_, ms⟩, members => Structure.membersSuitAt i (base + 1) ms members
termination_by structural s => s

/-- Whether a list of values suits members, the first of which is at `offset`, as far as offset `i`
selects them. -/
def Structure.membersSuitAt (i offset : Nat) : List (String × Field) → List Value → Bool
  | [], [] => true
  | (_, f) :: ms, v :: vs =>
    f.suitsAt i offset v && Structure.membersSuitAt i (offset + f.offsetCount) ms vs
  | _, _ => false
termination_by structural ms => ms

end

/-- Whether a list of values suits a structure as far as an offset selects it. -/
def Structure.suitsAt (i : Nat) (s : Structure) (members : List Value) : Bool :=
  (Field.struct s).suitsAt i 0 (.struct members)

mutual

theorem Field.suitsAt_of_admits (i : Nat) :
    ∀ (f : Field) (offset : Nat) (v : Value), f.admits v = true → f.suitsAt i offset v = true
  | .struct s, offset, v, h => by
    obtain ⟨members, rfl, hmembers⟩ := Field.exists_of_admits_struct h
    have hbelow := Structure.suitsBelow_of_admits i s offset members hmembers
    rw [Field.suitsAt, hmembers, hbelow, ite_self, ite_self]
  | .scalar _, offset, v, h | .scalarArray _, offset, v, h | .structArray _, offset, v, h => by
    simp only [Field.suitsAt, Field.offsetCount, h]
    split
    · rfl
    · rw [Bool.not_eq_true']
      exact decide_eq_false (by omega)

theorem Structure.suitsBelow_of_admits (i : Nat) :
    ∀ (s : Structure) (base : Nat) (members : List Value), s.admits members = true →
      s.suitsBelow i base members = true
  | ⟨_, ms⟩, base, members, h => Structure.membersSuitAt_of_admits i ms (base + 1) members h

theorem Structure.membersSuitAt_of_admits (i : Nat) :
    ∀ (ms : List (String × Field)) (offset : Nat) (vs : List Value),
      Structure.admitsMembers ms vs = true → Structure.membersSuitAt i offset ms vs = true
  | [], _, vs, h => by
    rw [Structure.eq_nil_of_admitsMembers h, Structure.membersSuitAt]
  | (_, f) :: ms, offset, vs, h => by
    obtain ⟨v, vs, rfl, hv, hvs⟩ := Structure.exists_of_admitsMembers h
    rw [Structure.membersSuitAt, Field.suitsAt_of_admits i f offset v hv,
      Structure.membersSuitAt_of_admits i ms _ vs hvs, Bool.and_true]

end

/-! ## What is written suits -/

theorem Field.suitsAt_of_mem (o : ByteOrder) {changed : BitSet} {i offset : Nat}
    (hoffset : offset ∈ changed) {f : Field} {v : Value}
    (hok : (f.encodeChanges o changed offset v).fault = none) : f.suitsAt i offset v = true := by
  rw [Field.encodeChanges_of_mem o hoffset, Field.fault_encodeValue_iff] at hok
  exact Field.suitsAt_of_admits i f offset v hok

mutual

/-- A value that could be written without skipping anything suits at every selected place. -/
theorem Field.suitsAt_of_written (o : ByteOrder) {changed : BitSet} {i : Nat} (hi : i ∈ changed) :
    ∀ (f : Field) (offset : Nat) (v : Value),
      (f.encodeChanges o changed offset v).fault = none → f.skips changed offset v = false →
      f.suitsAt i offset v = true
  | .struct s, offset, v, hok, hskips => by
    by_cases hoffset : offset ∈ changed
    · exact Field.suitsAt_of_mem o hoffset hok
    have hne : i ≠ offset := fun h => hoffset (h ▸ hi)
    cases v with
    | struct members =>
      rw [Field.suitsAt, if_neg hne]
      split
      · rw [Field.encodeChanges, if_neg hoffset] at hok
        rw [Field.skips_struct hoffset] at hskips
        exact Structure.suitsBelow_of_written o hi s offset members hok hskips
      · rfl
    | _ =>
      have hbelow : changed.meets (offset + 1) (offset + s.offsetCount) = false := by
        simpa [Field.skips, hoffset] using hskips
      have hrange : ¬ (offset < i ∧ i < offset + s.offsetCount) := fun h =>
        BitSet.not_mem_of_meets_eq_false hbelow h.1 h.2 hi
      simp only [Field.suitsAt, if_neg hne, Bool.not_eq_true']
      exact decide_eq_false hrange
  | .scalar _, offset, v, hok, _ | .scalarArray _, offset, v, hok, _
  | .structArray _, offset, v, hok, _ => by
    by_cases hoffset : offset ∈ changed
    · exact Field.suitsAt_of_mem o hoffset hok
    · have hne : i ≠ offset := fun h => hoffset (h ▸ hi)
      simp only [Field.suitsAt, Field.offsetCount, if_neg hne, Bool.not_eq_true']
      exact decide_eq_false (by omega)

theorem Structure.suitsBelow_of_written (o : ByteOrder) {changed : BitSet} {i : Nat}
    (hi : i ∈ changed) :
    ∀ (s : Structure) (base : Nat) (members : List Value),
      (s.encodeChangesBelow o changed base members).fault = none →
      s.skipsBelow changed base members = false → s.suitsBelow i base members = true
  | ⟨_, ms⟩, base, members, hok, hskips => by
    rw [Structure.encodeChangesBelow] at hok
    split at hok
    · rename_i hlen
      exact Structure.membersSuitAt_of_written o hi ms (base + 1) members hlen hok hskips
    · cases hok

theorem Structure.membersSuitAt_of_written (o : ByteOrder) {changed : BitSet} {i : Nat}
    (hi : i ∈ changed) :
    ∀ (ms : List (String × Field)) (offset : Nat) (vs : List Value), vs.length = ms.length →
      (Structure.encodeMemberChanges o changed offset ms vs).fault = none →
      Structure.skipsMember changed offset ms vs = false →
      Structure.membersSuitAt i offset ms vs = true
  | [], _, [], _, _, _ => rfl
  | [], _, _ :: _, hlen, _, _ => nomatch hlen
  | _ :: _, _, [], hlen, _, _ => nomatch hlen
  | (_, f) :: ms, offset, v :: vs, hlen, hok, hskips => by
    rw [Structure.encodeMemberChanges, Emission.fault_append, Option.or_eq_none_iff] at hok
    rw [Structure.skipsMember, Bool.or_eq_false_iff] at hskips
    have hhere := Field.suitsAt_of_written o hi f offset v hok.1 hskips.1
    have hbehind := Structure.membersSuitAt_of_written o hi ms (offset + f.offsetCount) vs
      (Nat.succ.inj hlen) hok.2 hskips.2
    rw [Structure.membersSuitAt, hhere, hbehind, Bool.and_true]

end

mutual

/-- A skipped member does not suit at an offset below it. -/
theorem Field.exists_not_suitsAt {changed : BitSet} :
    ∀ (f : Field) (offset : Nat) (v : Value), f.skips changed offset v = true →
      ∃ i ∈ changed, (offset ≤ i ∧ i < offset + f.offsetCount) ∧ f.suitsAt i offset v = false
  | .struct s, offset, v, h => by
    cases v with
    | struct members =>
      rw [Field.skips, Bool.and_eq_true] at h
      obtain ⟨i, hi, hrange, hsuits⟩ := Structure.exists_not_suitsBelow s offset members h.2
      refine ⟨i, hi, ⟨Nat.le_of_lt hrange.1, hrange.2⟩, ?_⟩
      rw [Field.suitsAt, if_neg (Nat.ne_of_gt hrange.1), if_pos hrange, hsuits]
    | _ =>
      rw [Field.skips, Bool.and_eq_true, BitSet.meets_iff] at h
      · obtain ⟨_, i, hi, hrange⟩ := h
        refine ⟨i, hi, ⟨Nat.le_of_lt hrange.1, hrange.2⟩, ?_⟩
        simp only [Field.suitsAt, if_neg (Nat.ne_of_gt hrange.1), Bool.not_eq_false']
        exact decide_eq_true hrange
      · exact fun _ h => nomatch h
  | .scalar _, _, _, h | .scalarArray _, _, _, h | .structArray _, _, _, h => nomatch h

theorem Structure.exists_not_suitsBelow {changed : BitSet} :
    ∀ (s : Structure) (base : Nat) (members : List Value),
      s.skipsBelow changed base members = true →
      ∃ i ∈ changed, (base < i ∧ i < base + s.offsetCount) ∧
        s.suitsBelow i base members = false
  | ⟨id, ms⟩, base, members, h => by
    obtain ⟨i, hi, hrange, hsuits⟩ := Structure.exists_not_membersSuitAt ms (base + 1) members h
    refine ⟨i, hi, ⟨hrange.1, ?_⟩, hsuits⟩
    rw [Structure.offsetCount]
    omega

theorem Structure.exists_not_membersSuitAt {changed : BitSet} :
    ∀ (ms : List (String × Field)) (offset : Nat) (vs : List Value),
      Structure.skipsMember changed offset ms vs = true →
      ∃ i ∈ changed, (offset ≤ i ∧ i < offset + Structure.memberOffsets ms) ∧
        Structure.membersSuitAt i offset ms vs = false
  | [], _, _, h => nomatch h
  | _ :: _, _, [], h => nomatch h
  | (_, f) :: ms, offset, v :: vs, h => by
    rw [Structure.skipsMember, Bool.or_eq_true] at h
    rw [Structure.memberOffsets]
    rcases h with hhere | hbehind
    · obtain ⟨i, hi, hrange, hsuits⟩ := Field.exists_not_suitsAt f offset v hhere
      refine ⟨i, hi, ⟨hrange.1, by omega⟩, ?_⟩
      rw [Structure.membersSuitAt, hsuits, Bool.false_and]
    · obtain ⟨i, hi, hrange, hsuits⟩ :=
        Structure.exists_not_membersSuitAt ms (offset + f.offsetCount) vs hbehind
      refine ⟨i, hi, ⟨by omega, by omega⟩, ?_⟩
      rw [Structure.membersSuitAt, hsuits, Bool.and_false]

end

/-! ## What is reported -/

mutual

theorem Field.fault_encodeChanges_mismatch (o : ByteOrder) (changed : BitSet) :
    ∀ (f : Field) (offset : Nat) (v : Value) (e : WireError),
      (f.encodeChanges o changed offset v).fault = some e → ∃ what, e = .mismatch what
  | .struct s, offset, v, e, h => by
    by_cases hoffset : offset ∈ changed
    · rw [Field.encodeChanges_of_mem o hoffset] at h
      exact Field.fault_encodeValue_mismatch o _ v e h
    cases v with
    | struct members =>
      rw [Field.encodeChanges, if_neg hoffset] at h
      exact Structure.fault_encodeChangesBelow_mismatch o changed s offset members e h
    | _ => simp [Field.encodeChanges, hoffset] at h
  | .scalar _, offset, v, e, h | .scalarArray _, offset, v, e, h
  | .structArray _, offset, v, e, h => by
    by_cases hoffset : offset ∈ changed
    · rw [Field.encodeChanges_of_mem o hoffset] at h
      exact Field.fault_encodeValue_mismatch o _ v e h
    · simp [Field.encodeChanges, hoffset] at h

theorem Structure.fault_encodeChangesBelow_mismatch (o : ByteOrder) (changed : BitSet) :
    ∀ (s : Structure) (base : Nat) (members : List Value) (e : WireError),
      (s.encodeChangesBelow o changed base members).fault = some e → ∃ what, e = .mismatch what
  | ⟨id, ms⟩, base, members, e, h => by
    rw [Structure.encodeChangesBelow] at h
    split at h
    · exact Structure.fault_encodeMemberChanges_mismatch o changed ms (base + 1) members e h
    · exact ⟨_, (Option.some.inj h).symm⟩

theorem Structure.fault_encodeMemberChanges_mismatch (o : ByteOrder) (changed : BitSet) :
    ∀ (ms : List (String × Field)) (offset : Nat) (vs : List Value) (e : WireError),
      (Structure.encodeMemberChanges o changed offset ms vs).fault = some e →
      ∃ what, e = .mismatch what
  | [], _, _, _, h => by simp [Structure.encodeMemberChanges] at h
  | _ :: _, _, [], _, h => by simp [Structure.encodeMemberChanges] at h
  | (_, f) :: ms, offset, v :: vs, e, h => by
    rw [Structure.encodeMemberChanges, Emission.fault_append, Option.or_eq_some_iff] at h
    rcases h with h | ⟨_, h⟩
    · exact Field.fault_encodeChanges_mismatch o changed f offset v e h
    · exact Structure.fault_encodeMemberChanges_mismatch o changed ms _ vs e h

end

/-- What cannot be written is reported as a mismatch.  What is written suits at every selected place
and is read to the last octet, into any target, exactly if nothing is skipped. -/
theorem Structure.written_changes_suit_iff (o : ByteOrder) (changed : BitSet) (s : Structure)
    (members : List Value) (hfit : Value.membersFit members = true) :
    (∀ e, (s.encodeChanges o changed members).fault = some e → ∃ what, e = .mismatch what) ∧
      (((s.encodeChanges o changed members).fault = none →
          (∀ i ∈ changed, s.suitsAt i members = true) ∧
          ∀ target, ∃ target', ∀ rest,
            (s.decodeChanges changed).run o target
                ((s.encodeChanges o changed members).bytes ++ rest) =
              ⟨.ok (), target', rest⟩) ↔
        ¬ ((s.encodeChanges o changed members).fault = none ∧ s.skips changed members = true)) := by
  -- A structure is written like a member at offset 0.
  have hroot : s.encodeChanges o changed members =
      (Field.struct s).encodeChanges o changed 0 (.struct members) := rfl
  refine ⟨fun e he => ?_, fun hgood ⟨hok, hskips⟩ => ?_, fun hnot hok => ?_⟩
  · exact Field.fault_encodeChanges_mismatch o changed _ 0 _ e (hroot ▸ he)
  · obtain ⟨i, hi, _, hsuits⟩ := Field.exists_not_suitsAt _ 0 _ hskips
    have hsuits' : s.suitsAt i members = true := (hgood hok).1 i hi
    exact Bool.false_ne_true (hsuits.symm.trans hsuits')
  · have hskips : s.skips changed members = false :=
      Bool.eq_false_iff.2 fun hskips => hnot ⟨hok, hskips⟩
    refine ⟨fun i hi => ?_, fun target => ?_⟩
    · exact Field.suitsAt_of_written o hi _ 0 _ (hroot ▸ hok) hskips
    · obtain ⟨target', hreads, _⟩ :=
        Structure.reads_decodeChanges o changed s members hok hskips hfit target
      exact ⟨target', hreads⟩

/-- A value that is unsuitable only where nothing is selected is written and read. -/
theorem unselected_mismatch_received :
    Value.membersFit [.scalar (.int 1), .scalar (.int 2), .scalarArray [.int 3]] = true ∧
      (timedValue.encodeChanges .big (.ofList [1]) [.scalar (.int 1), .scalar (.int 2),
        .scalarArray [.int 3]]).fault = none ∧
      (∀ i ∈ BitSet.ofList [1], timedValue.suitsAt i [.scalar (.int 1), .scalar (.int 2),
        .scalarArray [.int 3]] = true) ∧
      ∀ target, ∃ target', ∀ rest,
        (timedValue.decodeChanges (.ofList [1])).run .big target
            ((timedValue.encodeChanges .big (.ofList [1]) [.scalar (.int 1), .scalar (.int 2),
              .scalarArray [.int 3]]).bytes ++ rest) =
          ⟨.ok (), target', rest⟩ := by
  have hfit : Value.membersFit [.scalar (.int 1), .scalar (.int 2), .scalarArray [.int 3]] =
      true := by decide
  have hok : (timedValue.encodeChanges .big (.ofList [1]) [.scalar (.int 1), .scalar (.int 2),
      .scalarArray [.int 3]]).fault = none := by decide
  have hskips : timedValue.skips (.ofList [1]) [.scalar (.int 1), .scalar (.int 2),
      .scalarArray [.int 3]] = false := by decide
  have hiff := (timedValue.written_changes_suit_iff .big (.ofList [1]) _ hfit).2
  have hgood := hiff.2 fun h => Bool.false_ne_true (hskips.symm.trans h.2)
  exact ⟨hfit, hok, hgood hok⟩

/-- A number where a time stamp belongs is skipped although the seconds are selected: nothing is
written and nothing reported, and reading misses the seconds. -/
theorem skipped_mismatch_not_received :
    timedValue.encodeChanges .big (.ofList [3]) [.scalar (.int 1), .scalar (.int 2),
        .scalarArray []] = .ofBytes [] ∧
      timedValue.suitsAt 3 [.scalar (.int 1), .scalar (.int 2), .scalarArray []] = false ∧
      ((timedValue.decodeChanges (.ofList [3])).run .big timedValue.zero []).result =
        .error (.truncated 8 0) := by
  exact ⟨rfl, rfl, rfl⟩

end PvNet
