import PvNet.Proofs.Value.Leaves
import PvNet.Proofs.Value.RoundTrip
set_option autoImplicit false

/-!
# Partial updates arrive

Writing and reading walk through a structure separately, each with its own offsets.
They visit the same members as long as writing skips nothing: a member that is not
changed itself, has changed offsets below and a value without anything below is left
out by writing and looked at by reading.  Where nothing is skipped, reading takes
exactly the octets written, into any target.

A suitable value skips nothing, and then a suitable target ends up with the leaves
that the set selects, and keeps the others.
-/

namespace PvNet

open Decoder

/-- Whether a position from `low` on and below `high` is in a set. -/
def BitSet.meets (changed : BitSet) (low high : Nat) : Bool :=
  changed.positions.any fun i => low ≤ i ∧ i < high

theorem BitSet.meets_iff {changed : BitSet} {low high : Nat} :
    changed.meets low high = true ↔ ∃ i ∈ changed, low ≤ i ∧ i < high := by
  unfold BitSet.meets
  rw [List.any_eq_true]
  exact exists_congr fun i => and_congr_right fun _ => decide_eq_true_iff

theorem BitSet.meets_eq_false_of_le {changed : BitSet} {low low' high high' : Nat}
    (h : changed.meets low high = false) (hlow : low ≤ low') (hhigh : high' ≤ high) :
    changed.meets low' high' = false := by
  rw [← Bool.not_eq_true, BitSet.meets_iff] at h ⊢
  rintro ⟨i, hi, hle, hlt⟩
  exact h ⟨i, hi, Nat.le_trans hlow hle, Nat.lt_of_lt_of_le hlt hhigh⟩

/-! ## Skipped members -/

mutual

/-- Whether writing a member at `offset` leaves out something that reading looks at. -/
def Field.skips (changed : BitSet) (offset : Nat) : Field → Value → Bool
  | .struct s, .struct members => offset ∉ changed && s.skipsBelow changed offset members
  | .struct s, _ => offset ∉ changed && changed.meets (offset + 1) (offset + s.offsetCount)
  | _, _ => false
termination_by structural f => f

/-- Whether writing a structure at offset `base`, which is itself not changed, leaves out something
below. -/
def Structure.skipsBelow (changed : BitSet) (base : Nat) : Structure → List Value → Bool
  | ⟨_, ms⟩, members => Structure.skipsMember changed (base + 1) ms members
termination_by structural s => s

/-- Whether writing members, the first of which is at `offset`, leaves out something in one. -/
def Structure.skipsMember (changed : BitSet) (offset : Nat) :
    List (String × Field) → List Value → Bool
  | (_, f) :: ms, v :: vs =>
    f.skips changed offset v || Structure.skipsMember changed (offset + f.offsetCount) ms vs
  | _, _ => false
termination_by structural ms => ms

end

/-- Whether writing the changed parts of a structure leaves out something that reading looks at. -/
def Structure.skips (changed : BitSet) (s : Structure) (members : List Value) : Bool :=
  (Field.struct s).skips changed 0 (.struct members)

theorem Field.skips_struct {changed : BitSet} {offset : Nat} (h : offset ∉ changed) (s : Structure)
    (members : List Value) :
    (Field.struct s).skips changed offset (.struct members) =
      s.skipsBelow changed offset members := by
  simp [Field.skips, h]

mutual

/-- A suitable value skips nothing. -/
theorem Field.skips_of_admits (changed : BitSet) (offset : Nat) :
    ∀ (f : Field) (v : Value), f.admits v = true → f.skips changed offset v = false
  | .struct s, v, h => by
    obtain ⟨members, rfl, hmembers⟩ := Field.exists_of_admits_struct h
    rw [Field.skips, Structure.skipsBelow_of_admits changed offset s members hmembers,
      Bool.and_false]
  | .scalar _, _, _ | .scalarArray _, _, _ | .structArray _, _, _ => rfl

theorem Structure.skipsBelow_of_admits (changed : BitSet) (base : Nat) :
    ∀ (s : Structure) (members : List Value), s.admits members = true →
      s.skipsBelow changed base members = false
  | ⟨_, ms⟩, members, h => Structure.skipsMember_of_admits changed (base + 1) ms members h

theorem Structure.skipsMember_of_admits (changed : BitSet) (offset : Nat) :
    ∀ (ms : List (String × Field)) (vs : List Value), Structure.admitsMembers ms vs = true →
      Structure.skipsMember changed offset ms vs = false
  | [], _, _ => rfl
  | (_, f) :: ms, vs, h => by
    obtain ⟨v, vs, rfl, hv, hvs⟩ := Structure.exists_of_admitsMembers h
    rw [Structure.skipsMember, Field.skips_of_admits changed offset f v hv,
      Structure.skipsMember_of_admits changed _ ms vs hvs, Bool.or_false]

end

/-! ## Members that are changed as a whole -/

theorem Field.encodeChanges_of_mem (o : ByteOrder) {changed : BitSet} {offset : Nat}
    (h : offset ∈ changed) (f : Field) (v : Value) :
    f.encodeChanges o changed offset v = f.encodeValue o v := by
  cases f with
  | struct s => cases v <;> simp [Field.encodeChanges, Field.encodeValue, h]
  | _ => simp [Field.encodeChanges, h]

theorem Field.merge_of_mem {changed : BitSet} {offset : Nat} (h : offset ∈ changed) (f : Field)
    (new old : Value) : f.merge changed offset new old = new := by
  cases f with
  | struct s => cases new <;> cases old <;> simp [Field.merge, h]
  | _ => simp [Field.merge, h]

theorem Decoder.Reads.replaceBy {α : Type} {d : Decoder α α} {o : ByteOrder} {s s' : α}
    {bs : Bytes} {a : α} (h : d.Reads o s bs a s') :
    (Decoder.replaceBy d).Reads o s bs () a := by
  intro rest
  unfold Decoder.replaceBy
  rw [run_bind_of_ok (h rest), run_modify]

/-- A changed member is written and read as a whole. -/
theorem Field.reads_decodeChanges_of_mem (o : ByteOrder) {changed : BitSet} {offset : Nat}
    (h : offset ∈ changed) (f : Field) {v : Value}
    (hok : (f.encodeChanges o changed offset v).fault = none) (hfit : v.fits = true)
    (target : Value) :
    (f.decodeChanges changed offset).Reads o target (f.encodeChanges o changed offset v).bytes
      () v := by
  rw [Field.encodeChanges_of_mem o h] at hok ⊢
  have hv := (Field.fault_encodeValue_iff o f v).1 hok
  have hreads := (Field.reads_decodeValue o target f v hv hfit).replaceBy
  rwa [Field.decodeChanges_of_mem h]

/-! ## Members that are not selected -/

theorem Structure.memberOffsets_lt (id : String) (ms : List (String × Field)) :
    Structure.memberOffsets ms < Structure.offsetCount ⟨id, ms⟩ := by
  rw [Structure.offsetCount]
  omega

theorem BitSet.meets_eq_false_of_not_mem {changed : BitSet} {low high : Nat} (hlow : low ∉ changed)
    (h : changed.meets (low + 1) high = false) : changed.meets low high = false := by
  rw [← Bool.not_eq_true, BitSet.meets_iff] at h ⊢
  rintro ⟨i, hi, hle, hlt⟩
  rcases Nat.eq_or_lt_of_le hle with rfl | hlt'
  · exact hlow hi
  · exact h ⟨i, hi, hlt', hlt⟩

theorem BitSet.not_mem_of_meets_eq_false {changed : BitSet} {low high i : Nat}
    (h : changed.meets low high = false) (hlow : low ≤ i) (hhigh : i < high) : i ∉ changed := by
  intro hi
  rw [← Bool.not_eq_true, BitSet.meets_iff] at h
  exact h ⟨i, hi, hlow, hhigh⟩

/-- The decoder of a structure that is itself not changed, in terms of that of its members. -/
theorem Structure.reads_decodeChangesBelow_of_members {changed : BitSet} {base : Nat}
    {o : ByteOrder} {bs : Bytes} {id : String} {ms : List (String × Field)}
    {target target' : List Value}
    (h : (Structure.decodeMemberChanges changed (base + 1) ms).Reads o
      (if target.length = ms.length then target else Structure.zero ⟨id, ms⟩) bs () target') :
    (Structure.decodeChangesBelow changed base ⟨id, ms⟩).Reads o target bs () target' := h

theorem Field.reads_decodeChanges_of_below {changed : BitSet} {offset : Nat}
    (hoffset : offset ∉ changed) {o : ByteOrder} {bs : Bytes} {s : Structure} {target : Value}
    {target' : List Value}
    (h : (s.decodeChangesBelow changed offset).Reads o
      (match target with | .struct members => members | _ => s.zero) bs () target') :
    ((Field.struct s).decodeChanges changed offset).Reads o target bs () (.struct target') := by
  intro rest
  have hrest := h rest
  rw [Decoder.run] at hrest ⊢
  cases target <;> simp only [Field.decodeChanges, hoffset, if_false, hrest]

theorem Structure.reads_decodeMemberChanges_cons {changed : BitSet} {offset : Nat} {o : ByteOrder}
    {bs cs : Bytes} {name : String} {f : Field} {ms : List (String × Field)} {v v' : Value}
    {vs vs' : List Value} (hhere : (f.decodeChanges changed offset).Reads o v bs () v')
    (hbehind : (Structure.decodeMemberChanges changed (offset + f.offsetCount) ms).Reads
      o vs cs () vs') :
    (Structure.decodeMemberChanges changed offset ((name, f) :: ms)).Reads o (v :: vs) (bs ++ cs) ()
      (v' :: vs') := by
  intro rest
  have hfirst := hhere (cs ++ rest)
  have hlast := hbehind rest
  rw [Decoder.run] at hfirst hlast ⊢
  simp only [List.append_assoc, Structure.decodeMemberChanges, hfirst, hlast]

mutual

/-- Nothing is read for a member that is not selected. -/
theorem Field.reads_of_not_selected (o : ByteOrder) {changed : BitSet} :
    ∀ (f : Field) (offset : Nat), changed.meets offset (offset + f.offsetCount) = false →
      ∀ target, ∃ target', (f.decodeChanges changed offset).Reads o target [] () target'
  | .struct ⟨id, ms⟩, offset, h, target => by
    have hcount := Structure.memberOffsets_lt id ms
    have hoffset : offset ∉ changed :=
      BitSet.not_mem_of_meets_eq_false h (Nat.le_refl _) (by rw [Field.offsetCount]; omega)
    have hmembers : changed.meets (offset + 1) (offset + 1 + Structure.memberOffsets ms) = false :=
      BitSet.meets_eq_false_of_le h (Nat.le_succ _) (by rw [Field.offsetCount]; omega)
    obtain ⟨target', hreads⟩ := Structure.reads_of_not_selected o ms (offset + 1) hmembers _
    exact ⟨_, Field.reads_decodeChanges_of_below hoffset
      (Structure.reads_decodeChangesBelow_of_members hreads)⟩
  | .scalar _, offset, h, target | .scalarArray _, offset, h, target
  | .structArray _, offset, h, target => by
    have hoffset : offset ∉ changed :=
      BitSet.not_mem_of_meets_eq_false h (Nat.le_refl _) (Nat.lt_succ_self _)
    refine ⟨target, fun rest => ?_⟩
    simp [Decoder.run, Field.decodeChanges, hoffset]

theorem Structure.reads_of_not_selected (o : ByteOrder) {changed : BitSet} :
    ∀ (ms : List (String × Field)) (offset : Nat),
      changed.meets offset (offset + Structure.memberOffsets ms) = false →
      ∀ target, ∃ target',
        (Structure.decodeMemberChanges changed offset ms).Reads o target [] () target'
  | [], _, _, target => ⟨target, fun _ => rfl⟩
  | _ :: _, _, _, [] => ⟨[], fun _ => rfl⟩
  | (_, f) :: ms, offset, h, v :: vs => by
    rw [Structure.memberOffsets] at h
    obtain ⟨v', hhere⟩ := Field.reads_of_not_selected o f offset
      (BitSet.meets_eq_false_of_le h (Nat.le_refl _) (by omega)) v
    obtain ⟨vs', hbehind⟩ := Structure.reads_of_not_selected o ms (offset + f.offsetCount)
      (BitSet.meets_eq_false_of_le h (Nat.le_add_right _ _) (by omega)) vs
    exact ⟨v' :: vs', Structure.reads_decodeMemberChanges_cons hhere hbehind⟩

end

/-! ## Reading what was written -/

mutual

/-- Where nothing is skipped, the changed parts of a member are read back to the last octet,
whatever the target.  A suitable target is merged with the value. -/
theorem Field.reads_decodeChanges (o : ByteOrder) (changed : BitSet) :
    ∀ (f : Field) (offset : Nat) (v : Value),
      (f.encodeChanges o changed offset v).fault = none → f.skips changed offset v = false →
      v.fits = true → ∀ target, ∃ target',
        (f.decodeChanges changed offset).Reads o target (f.encodeChanges o changed offset v).bytes
          () target' ∧
        (f.admits v = true → f.admits target = true → target' = f.merge changed offset v target)
  | .struct s, offset, v, hok, hskips, hfit, target => by
    by_cases hoffset : offset ∈ changed
    · exact ⟨v, Field.reads_decodeChanges_of_mem o hoffset _ hok hfit target,
        fun _ _ => (Field.merge_of_mem hoffset _ v target).symm⟩
    cases v with
    | struct members =>
      have hbelow : (Field.struct s).encodeChanges o changed offset (.struct members) =
          s.encodeChangesBelow o changed offset members := if_neg hoffset
      rw [hbelow] at hok ⊢
      rw [Field.skips_struct hoffset] at hskips
      obtain ⟨target', hreads, hmerge⟩ :=
        Structure.reads_decodeChangesBelow o changed s offset members hok hskips hfit _
      refine ⟨_, Field.reads_decodeChanges_of_below hoffset hreads, fun hv ht => ?_⟩
      obtain ⟨olds, rfl, holds⟩ := Field.exists_of_admits_struct ht
      rw [Field.merge, if_neg hoffset, hmerge hv holds]
    | _ =>
      -- Writing stops at a value that is no structure, so nothing below may be selected.
      have hbelow : changed.meets (offset + 1) (offset + s.offsetCount) = false := by
        simpa [Field.skips, hoffset] using hskips
      have hnone := BitSet.meets_eq_false_of_not_mem hoffset hbelow
      obtain ⟨target', hreads⟩ := Field.reads_of_not_selected o (.struct s) offset hnone target
      refine ⟨target', ?_, fun hv => by simp [Field.admits] at hv⟩
      simpa [Field.encodeChanges, hoffset] using hreads
  | .scalar _, offset, v, hok, _, hfit, target | .scalarArray _, offset, v, hok, _, hfit, target
  | .structArray _, offset, v, hok, _, hfit, target => by
    by_cases hoffset : offset ∈ changed
    · exact ⟨v, Field.reads_decodeChanges_of_mem o hoffset _ hok hfit target,
        fun _ _ => (Field.merge_of_mem hoffset _ v target).symm⟩
    · refine ⟨target, fun rest => ?_, fun _ _ => ?_⟩
      · simp [Decoder.run, Field.encodeChanges, Field.decodeChanges, hoffset]
      · simp [Field.merge, hoffset]

theorem Structure.reads_decodeChangesBelow (o : ByteOrder) (changed : BitSet) :
    ∀ (s : Structure) (base : Nat) (members : List Value),
      (s.encodeChangesBelow o changed base members).fault = none →
      s.skipsBelow changed base members = false → Value.membersFit members = true →
      ∀ target, ∃ target',
        (s.decodeChangesBelow changed base).Reads o target
          (s.encodeChangesBelow o changed base members).bytes () target' ∧
        (s.admits members = true → s.admits target = true →
          target' = s.mergeBelow changed base members target)
  | ⟨id, ms⟩, base, members, hok, hskips, hfit, target => by
    rw [Structure.encodeChangesBelow] at hok ⊢
    by_cases hlen : members.length = ms.length
    · rw [if_pos hlen] at hok ⊢
      have hstart : (if target.length = ms.length then target
          else Structure.zero ⟨id, ms⟩).length = ms.length := by
        split
        · assumption
        · exact Structure.length_zero ⟨id, ms⟩
      -- Whatever the target was, reading starts from one value for every member.
      obtain ⟨target', hreads, hmerge⟩ := Structure.reads_decodeMemberChanges o changed ms
        (base + 1) members hlen hok hskips hfit _ hstart
      refine ⟨target', Structure.reads_decodeChangesBelow_of_members hreads, fun hv ht => ?_⟩
      rw [if_pos (Structure.length_eq_of_admitsMembers ht)] at hmerge
      exact hmerge hv ht
    · rw [if_neg hlen] at hok
      cases hok

theorem Structure.reads_decodeMemberChanges (o : ByteOrder) (changed : BitSet) :
    ∀ (ms : List (String × Field)) (offset : Nat) (vs : List Value), vs.length = ms.length →
      (Structure.encodeMemberChanges o changed offset ms vs).fault = none →
      Structure.skipsMember changed offset ms vs = false → Value.membersFit vs = true →
      ∀ target : List Value, target.length = ms.length → ∃ target',
        (Structure.decodeMemberChanges changed offset ms).Reads o target
          (Structure.encodeMemberChanges o changed offset ms vs).bytes () target' ∧
        (Structure.admitsMembers ms vs = true → Structure.admitsMembers ms target = true →
          target' = Structure.mergeMembers changed offset ms vs target)
  | [], _, _, _, _, _, _, target, _ => ⟨target, fun _ => rfl, fun _ _ => rfl⟩
  | _ :: _, _, [], hlen, _, _, _, _, _ => nomatch hlen
  | _ :: _, _, _ :: _, _, _, _, _, [], ht => nomatch ht
  | (_, f) :: ms, offset, v :: vs, hlen, hok, hskips, hfit, t :: ts, ht => by
    rw [Structure.encodeMemberChanges] at hok ⊢
    rw [Emission.fault_append, Option.or_eq_none_iff] at hok
    rw [Structure.skipsMember, Bool.or_eq_false_iff] at hskips
    rw [Value.membersFit, Bool.and_eq_true] at hfit
    obtain ⟨t', hhere, hmerge⟩ :=
      Field.reads_decodeChanges o changed f offset v hok.1 hskips.1 hfit.1 t
    obtain ⟨ts', hbehind, hmerges⟩ := Structure.reads_decodeMemberChanges o changed ms
      (offset + f.offsetCount) vs (Nat.succ.inj hlen) hok.2 hskips.2 hfit.2 ts (Nat.succ.inj ht)
    rw [Emission.bytes_append hok.1]
    refine ⟨_, Structure.reads_decodeMemberChanges_cons hhere hbehind, fun hv hts => ?_⟩
    simp only [Structure.admitsMembers, Bool.and_eq_true] at hv hts
    rw [Structure.mergeMembers, hmerge hv.1 hts.1, hmerges hv.2 hts.2]

end

/-! ## Whole structures -/

mutual

/-- The changed parts of a suitable value can be written. -/
theorem Field.fault_encodeChanges_of_admits (o : ByteOrder) (changed : BitSet) :
    ∀ (f : Field) (offset : Nat) (v : Value), f.admits v = true →
      (f.encodeChanges o changed offset v).fault = none
  | .struct s, offset, v, h => by
    by_cases hoffset : offset ∈ changed
    · rw [Field.encodeChanges_of_mem o hoffset]
      exact (Field.fault_encodeValue_iff o _ v).2 h
    obtain ⟨members, rfl, hmembers⟩ := Field.exists_of_admits_struct h
    have hbelow := Structure.fault_encodeChangesBelow_of_admits o changed s offset members hmembers
    rwa [Field.encodeChanges, if_neg hoffset]
  | .scalar _, offset, v, h | .scalarArray _, offset, v, h | .structArray _, offset, v, h => by
    by_cases hoffset : offset ∈ changed
    · rw [Field.encodeChanges_of_mem o hoffset]
      exact (Field.fault_encodeValue_iff o _ v).2 h
    · simp [Field.encodeChanges, hoffset]

theorem Structure.fault_encodeChangesBelow_of_admits (o : ByteOrder) (changed : BitSet) :
    ∀ (s : Structure) (base : Nat) (members : List Value), s.admits members = true →
      (s.encodeChangesBelow o changed base members).fault = none
  | ⟨id, ms⟩, base, members, h => by
    rw [Structure.encodeChangesBelow, if_pos (Structure.length_eq_of_admitsMembers h)]
    exact Structure.fault_encodeMemberChanges_of_admits o changed ms (base + 1) members h

theorem Structure.fault_encodeMemberChanges_of_admits (o : ByteOrder) (changed : BitSet) :
    ∀ (ms : List (String × Field)) (offset : Nat) (vs : List Value),
      Structure.admitsMembers ms vs = true →
      (Structure.encodeMemberChanges o changed offset ms vs).fault = none
  | [], _, _, _ => rfl
  | (_, f) :: ms, offset, vs, h => by
    obtain ⟨v, vs, rfl, hv, hvs⟩ := Structure.exists_of_admitsMembers h
    have hhere := Field.fault_encodeChanges_of_admits o changed f offset v hv
    have hbehind :=
      Structure.fault_encodeMemberChanges_of_admits o changed ms (offset + f.offsetCount) vs hvs
    rw [Structure.encodeMemberChanges, Emission.fault_append, hhere, hbehind, Option.none_or]

end

theorem Structure.fault_encodeChanges_of_admits (o : ByteOrder) (changed : BitSet) (s : Structure)
    (members : List Value) (h : s.admits members = true) :
    (s.encodeChanges o changed members).fault = none :=
  Field.fault_encodeChanges_of_admits o changed (.struct s) 0 (.struct members) h

/-- Where nothing is skipped, the changed parts of a structure are read back to the last octet,
whatever the target.  A suitable target is merged with the value. -/
theorem Structure.reads_decodeChanges (o : ByteOrder) (changed : BitSet) (s : Structure)
    (members : List Value) (hok : (s.encodeChanges o changed members).fault = none)
    (hskips : s.skips changed members = false) (hfit : Value.membersFit members = true)
    (target : List Value) :
    ∃ target', (s.decodeChanges changed).Reads o target (s.encodeChanges o changed members).bytes
        () target' ∧
      (s.admits members = true → s.admits target = true →
        target' = s.merge changed members target) := by
  unfold Structure.encodeChanges at hok ⊢
  unfold Structure.decodeChanges Structure.merge
  by_cases h0 : 0 ∈ changed
  · simp only [if_pos h0] at hok ⊢
    have hv := (Structure.fault_encodeValue_iff o s members).1 hok
    exact ⟨members, (Structure.reads_decodeValue o target s members hv hfit).replaceBy,
      fun _ _ => rfl⟩
  · simp only [if_neg h0] at hok ⊢
    rw [Structure.skips, Field.skips_struct h0] at hskips
    exact Structure.reads_decodeChangesBelow o changed s 0 members hok hskips hfit target

/-- A partial update of a suitable value can be written, and reading it takes exactly the octets
written.  In a suitable target the leaves that the set selects become those of the value, and the
others stay as they are. -/
theorem Structure.changes_received (o : ByteOrder) (changed : BitSet) (s : Structure)
    (members target : List Value) (hv : s.admits members = true) (ht : s.admits target = true)
    (hfit : Value.membersFit members = true) :
    ∃ bytes target', s.encodeChanges o changed members = .ofBytes bytes ∧
      (∀ rest, (s.decodeChanges changed).run o target (bytes ++ rest) = ⟨.ok (), target', rest⟩) ∧
      s.admits target' = true ∧
      (s.leaves members).map Leaf.place = (s.leaves target).map Leaf.place ∧
      s.leaves target' =
        List.zipWith (Leaf.merge changed) (s.leaves members) (s.leaves target) := by
  have hok := Structure.fault_encodeChanges_of_admits o changed s members hv
  have hskips : s.skips changed members = false := Field.skips_of_admits changed 0 (.struct s) _ hv
  obtain ⟨target', hreads, hmerge⟩ :=
    Structure.reads_decodeChanges o changed s members hok hskips hfit target
  obtain rfl := hmerge hv ht
  exact ⟨_, _, Emission.eq_ofBytes hok, hreads, s.admits_merge changed members target hv ht,
    Structure.place_leavesFrom [] 0 s members target hv ht,
    s.leaves_merge changed members target hv ht⟩

/-- A value with a time stamp. -/
def timedValue : Structure :=
  ⟨"timed", [("value", .scalar .int),
    ("time", .struct ⟨"time_t", [("seconds", .scalar .long), ("nanoseconds", .scalar .int)]⟩),
    ("tags", .scalarArray .string)]⟩

/-- The time stamp is replaced as a whole; offset 4 is below it and offset 9 behind everything. -/
theorem timeStamp_received :
    timedValue.admits [.scalar (.int 1), .struct [.scalar (.long 2), .scalar (.int 3)],
        .scalarArray [.string "new"]] = true ∧
      timedValue.admits [.scalar (.int 4), .struct [.scalar (.long 5), .scalar (.int 6)],
        .scalarArray []] = true ∧
      Value.membersFit [.scalar (.int 1), .struct [.scalar (.long 2), .scalar (.int 3)],
        .scalarArray [.string "new"]] = true ∧
      ∃ bytes target',
        timedValue.encodeChanges .little (.ofList [2, 4, 9])
          [.scalar (.int 1), .struct [.scalar (.long 2), .scalar (.int 3)],
            .scalarArray [.string "new"]] = .ofBytes bytes ∧
        (∀ rest, (timedValue.decodeChanges (.ofList [2, 4, 9])).run .little
          [.scalar (.int 4), .struct [.scalar (.long 5), .scalar (.int 6)], .scalarArray []]
          (bytes ++ rest) = ⟨.ok (), target', rest⟩) ∧
        (timedValue.leaves target').map Leaf.value =
          [.scalar (.int 4), .scalar (.long 2), .scalar (.int 3), .scalarArray []] := by
  have hv : timedValue.admits [.scalar (.int 1), .struct [.scalar (.long 2), .scalar (.int 3)],
      .scalarArray [.string "new"]] = true := by decide
  have ht : timedValue.admits [.scalar (.int 4), .struct [.scalar (.long 5), .scalar (.int 6)],
      .scalarArray []] = true := by decide
  have hfit : Value.membersFit [.scalar (.int 1), .struct [.scalar (.long 2), .scalar (.int 3)],
      .scalarArray [.string "new"]] = true := by decide
  obtain ⟨bytes, target', hwrite, hread, _, _, hleaves⟩ :=
    timedValue.changes_received .little (.ofList [2, 4, 9]) _ _ hv ht hfit
  refine ⟨hv, ht, hfit, bytes, target', hwrite, hread, ?_⟩
  rw [hleaves]
  rfl

end PvNet
