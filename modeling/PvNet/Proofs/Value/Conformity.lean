import PvNet.Proofs.Value.RoundTrip
set_option autoImplicit false

/-!
# Agreement of values and descriptors

`Field.Conforms` says when a value has the shape of a descriptor.  It decides what can be
written, and what has been written is read back; conversely, whatever a descriptor reads
off any octets conforms to it.  So reading and writing go round in circles, in either byte
order and from any octets on which reading succeeds at all.
-/

namespace PvNet

open Decoder

/-- A value has the shape of a descriptor: the constructors match at every level, all items of an
array are of its type, and a structure has a value for every member. -/
inductive Field.Conforms : Field → Value → Prop where
  | scalar {t : ScalarType} {v : ScalarValue} (htype : v.type = t) :
      Conforms (.scalar t) (.scalar v)
  | scalarArray {t : ScalarType} {items : List ScalarValue} (htypes : ∀ v ∈ items, v.type = t) :
      Conforms (.scalarArray t) (.scalarArray items)
  | struct {id : String} {ms : List (String × Field)} {members : List Value}
      (hcount : members.length = ms.length)
      (hmembers : ∀ m v, (m, v) ∈ ms.zip members → Conforms m.2 v) :
      Conforms (.struct ⟨id, ms⟩) (.struct members)
  | structArray {s : Structure} {elements : List (Option (List Value))}
      (helements : ∀ members, some members ∈ elements → Conforms (.struct s) (.struct members)) :
      Conforms (.structArray s) (.structArray elements)

mutual

theorem Field.conforms_of_admits :
    ∀ (f : Field) (v : Value), f.admits v = true → f.Conforms v
  | .scalar t, v, h => by
    obtain ⟨value, rfl, htype⟩ := Field.exists_of_admits_scalar h
    exact .scalar htype
  | .scalarArray t, v, h => by
    obtain ⟨items, rfl, htypes⟩ := Field.exists_of_admits_scalarArray h
    exact .scalarArray htypes
  | .struct s, v, h => by
    obtain ⟨members, rfl, hmembers⟩ := Field.exists_of_admits_struct h
    exact Structure.conforms_of_admits s members hmembers
  | .structArray s, v, h => by
    obtain ⟨elements, rfl, helements⟩ := Field.exists_of_admits_structArray h
    exact .structArray fun members hmem =>
      Structure.conforms_of_admits s members (helements members hmem)

theorem Structure.conforms_of_admits :
    ∀ (s : Structure) (members : List Value), s.admits members = true →
      (Field.struct s).Conforms (.struct members)
  | ⟨_, ms⟩, members, h =>
    .struct (Structure.length_eq_of_admitsMembers h)
      (Structure.conforms_of_admitsMembers ms members h)

theorem Structure.conforms_of_admitsMembers :
    ∀ (ms : List (String × Field)) (vs : List Value), Structure.admitsMembers ms vs = true →
      ∀ m v, (m, v) ∈ ms.zip vs → m.2.Conforms v
  | [], vs, _, m, v, hmem => nomatch hmem
  | (name, f) :: ms, vs, h, m, v, hmem => by
    obtain ⟨first, vs, rfl, hfirst, hrest⟩ := Structure.exists_of_admitsMembers h
    rcases List.mem_cons.1 hmem with heq | hmem
    · obtain ⟨rfl, rfl⟩ := Prod.mk.inj heq
      exact Field.conforms_of_admits f v hfirst
    · exact Structure.conforms_of_admitsMembers ms vs hrest m v hmem

end

/-- Members that conform one by one suit the structure. -/
theorem Structure.admitsMembers_of_forall {ms : List (String × Field)} {vs : List Value}
    (hcount : vs.length = ms.length) (h : ∀ m v, (m, v) ∈ ms.zip vs → m.2.admits v = true) :
    Structure.admitsMembers ms vs = true := by
  induction ms generalizing vs with
  | nil =>
    obtain rfl := List.eq_nil_of_length_eq_zero hcount
    rfl
  | cons m ms ih =>
    cases vs with
    | nil => cases hcount
    | cons v vs =>
      have hfirst := h m v (by simp)
      have hrest := ih (Nat.succ.inj hcount) fun m' v' hmem => h m' v' (by simp [hmem])
      rw [Structure.admitsMembers, hfirst, hrest]
      rfl

/-- A value conforms exactly if the descriptor admits it, which can be computed. -/
theorem Field.conforms_iff (f : Field) (v : Value) : f.Conforms v ↔ f.admits v = true := by
  refine ⟨fun h => ?_, f.conforms_of_admits v⟩
  induction h with
  | scalar htype => exact decide_eq_true htype
  | scalarArray htypes =>
    rw [admits, List.all_eq_true]
    exact fun v hv => decide_eq_true (htypes v hv)
  | struct hcount _ ih => exact Structure.admitsMembers_of_forall hcount ih
  | structArray _ ih =>
    rw [admits, List.all_eq_true]
    intro element hmem
    cases element with
    | none => rfl
    | some members => exact ih members hmem

instance (f : Field) (v : Value) : Decidable (f.Conforms v) :=
  decidable_of_iff _ (f.conforms_iff v).symm

/-- A descriptor decides what can be written, what is written is read back to the last bit and no
further, and what is read off any octets can be written and read again. -/
theorem Field.values_agree {σ : Type} (f : Field) :
    (∀ o v, (f.encodeValue o v).fault = none ↔ f.Conforms v) ∧
      (∀ o v (s : σ), f.Conforms v → v.fits = true → ∀ suffix,
        f.decodeValue.run o s ((f.encodeValue o v).bytes ++ suffix) = ⟨.ok v, s, suffix⟩) ∧
      ∀ o (s : σ) bs v, (f.decodeValue.run o s bs).result = .ok v →
        f.Conforms v ∧ ∀ o', ∃ written, f.encodeValue o' v = .ofBytes written ∧
          ∀ suffix, f.decodeValue.run o' s (written ++ suffix) = ⟨.ok v, s, suffix⟩ := by
  refine ⟨?_, ?_, ?_⟩
  · intro o v
    rw [f.conforms_iff, f.fault_encodeValue_iff]
  · intro o v s hconforms hfits
    exact f.reads_decodeValue o s v ((f.conforms_iff v).1 hconforms) hfits
  · intro o s bs v hread
    have hmaintains := f.maintains_decodeFitting (I := fun _ => True) o s bs trivial
    obtain ⟨hadmits, hfits⟩ := hmaintains.2 v hread
    refine ⟨(f.conforms_iff v).2 hadmits, ?_⟩
    intro o'
    have hfault := (f.fault_encodeValue_iff o' v).2 hadmits
    exact ⟨_, Emission.eq_ofBytes hfault, f.reads_decodeValue o' s v hadmits hfits⟩

/-- Samples with a name and alarms, some of which are absent. -/
def waveform : Field :=
  .struct ⟨"waveform", [("samples", .scalarArray .double), ("name", .scalar .string),
    ("alarms", .structArray ⟨"alarm_t", [("severity", .scalar .int)]⟩)]⟩

/-- A negative zero, a number that is none, and an alarm that is absent. -/
def waveformValue : Value :=
  .struct [.scalarArray [.double 0x8000000000000000, .double 0x7FF8000000000001],
    .scalar (.string "Ψ"), .structArray [some [.scalar (.int (-1))], none]]

/-- What one order has carried can be sent on in the other one. -/
theorem waveform_sent_on :
    waveform.Conforms waveformValue ∧ waveformValue.fits = true ∧
      (waveform.encodeValue .big waveformValue).fault = none ∧
      (waveform.decodeValue.run .big () ((waveform.encodeValue .big waveformValue).bytes ++ [0])) =
        ⟨.ok waveformValue, (), [0]⟩ ∧
      ∃ written, waveform.encodeValue .little waveformValue = .ofBytes written ∧
        waveform.decodeValue.run .little () (written ++ [0]) = ⟨.ok waveformValue, (), [0]⟩ := by
  have hconforms : waveform.Conforms waveformValue := by decide
  have hfits : waveformValue.fits = true := by decide
  obtain ⟨hwrites, hreads, himage⟩ := Field.values_agree (σ := Unit) waveform
  have hread := hreads .big waveformValue () hconforms hfits [0]
  obtain ⟨-, hagain⟩ := himage .big () _ waveformValue (congrArg Outcome.result hread)
  obtain ⟨written, hwritten, hlittle⟩ := hagain .little
  exact ⟨hconforms, hfits, (hwrites .big waveformValue).2 hconforms, hread, written, hwritten,
    hlittle [0]⟩

end PvNet
