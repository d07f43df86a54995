import PvNet.Proofs.Schema.References
set_option autoImplicit false

/-!
# Descriptors without references

Octets can spell a descriptor out: they may give numbers to parts of it, but no number
stands for a part (`Field.Spelled`).  Sizes and strings may be in any form that is
understood.  What is decoded from such octets is the descriptor that they spell, and
nothing behind them is touched (`Field.Spelled.takes`).  Whether anything is decoded is
another matter, since the descriptor may span too many levels.
-/

namespace PvNet

/-! ## What a decoder takes off -/

/-- If the decoder gives an item for an input that starts with `bs`, then it has taken exactly `bs`
off, and the item is as said. -/
def Decoder.Takes {σ α : Type} (d : Decoder σ α) (o : ByteOrder) (bs : Bytes) (P : α → Prop) :
    Prop :=
  ∀ s rest a s' left, d.run o s (bs ++ rest) = ⟨.ok a, s', left⟩ → P a ∧ left = rest

namespace Decoder.Takes

variable {σ α β : Type} {o : ByteOrder} {bs cs : Bytes} {P : α → Prop} {Q : β → Prop}

theorem of_reads {d : Decoder σ α} {a : α} (h : ∀ s, d.Reads o s bs a s) :
    d.Takes o bs (· = a) := by
  intro s rest a' s' left hrun
  rw [h s rest] at hrun
  obtain ⟨ha, -, hleft⟩ := Outcome.mk.inj hrun
  exact ⟨(Except.ok.inj ha).symm, hleft.symm⟩

theorem pure {a : α} (h : P a) : (pure a : Decoder σ α).Takes o [] P := by
  intro s rest a' s' left hrun
  obtain ⟨ha, -, hleft⟩ := Outcome.mk.inj hrun
  exact ⟨Except.ok.inj ha ▸ h, hleft.symm⟩

theorem fail (e : WireError) : (fail e : Decoder σ α).Takes o bs P := by
  intro s rest a s' left hrun
  cases hrun

theorem modify (f : σ → σ) : (modify f).Takes o [] fun _ => True := by
  intro s rest a s' left hrun
  obtain ⟨-, -, hleft⟩ := Outcome.mk.inj hrun
  exact ⟨trivial, hleft.symm⟩

theorem bind {d : Decoder σ α} {f : α → Decoder σ β} (hd : d.Takes o bs P)
    (hf : ∀ a, P a → (f a).Takes o cs Q) : (d >>= f).Takes o (bs ++ cs) Q := by
  intro s rest b s'' left hrun
  rw [List.append_assoc] at hrun
  obtain ⟨a, s', left', hfirst, hsecond⟩ := exists_of_run_bind hrun
  obtain ⟨ha, rfl⟩ := hd s (cs ++ rest) a s' left' hfirst
  exact hf a ha s' rest b s'' left hsecond

/-- A decoder that takes the last octets, in front of one that only computes. -/
theorem bind_pure {d : Decoder σ α} {f : α → Decoder σ β} (hd : d.Takes o bs P)
    (hf : ∀ a, P a → (f a).Takes o [] Q) : (d >>= f).Takes o bs Q := by
  have h := hd.bind hf
  rwa [List.append_nil] at h

theorem octet_bind {b : UInt8} {f : UInt8 → Decoder σ α} (hf : (f b).Takes o bs P) :
    (octet >>= f).Takes o (b :: bs) P := by
  intro s rest a s' left hrun
  exact hf s rest a s' left hrun

end Decoder.Takes

/-! ## Spelling -/

mutual

/-- Octets that spell a descriptor out, perhaps with a number for it. -/
inductive Field.Spelled (o : ByteOrder) : Bytes → Field → Prop where
  | plain {code : UInt8} {bs : Bytes} {f : Field} (hcode : Field.IsTypeCode code)
    (hbody : SpelledBody o code bs f) : Spelled o (code :: bs) f
  | numbered {number : Bytes} {n : UInt16} {code : UInt8} {bs : Bytes} {f : Field}
    (hnumber : ∀ t : KnownTypes, Decoder.word16.Reads o t number n t)
    (hbody : SpelledBody o code bs f) :
    Spelled o (definitionCode :: (number ++ code :: bs)) f

/-- What stands behind the type code of a descriptor that is spelled out. -/
inductive Field.SpelledBody (o : ByteOrder) : UInt8 → Bytes → Field → Prop where
  | leaf {code : UInt8} {f : Field} (hstruct : code ≠ Field.structCode)
    (harray : code ≠ Field.structArrayCode) (hleaf : Field.ofLeafCode? code = some f) :
    SpelledBody o code [] f
  | struct {text count bs : Bytes} {id : String} {ms : List (String × Field)}
    (htext : ∀ t : KnownTypes, Decoder.string.Reads o t text id t)
    (hcount : ∀ t : KnownTypes, Decoder.length.Reads o t count ms.length t)
    (hmembers : SpelledMembers o bs ms) :
    SpelledBody o Field.structCode (text ++ (count ++ bs)) (.struct ⟨id, ms⟩)
  | structArray {bs : Bytes} {s : Structure} (helement : Spelled o bs (.struct s)) :
    SpelledBody o Field.structArrayCode bs (.structArray s)

/-- The names and descriptors of members, spelled out one after the other. -/
inductive Field.SpelledMembers (o : ByteOrder) : Bytes → List (String × Field) → Prop where
  | nil : SpelledMembers o [] []
  | cons {text bs cs : Bytes} {name : String} {f : Field} {ms : List (String × Field)}
    (htext : ∀ t : KnownTypes, Decoder.string.Reads o t text name t)
    (hfield : Spelled o bs f) (hmembers : SpelledMembers o cs ms) :
    SpelledMembers o (text ++ bs ++ cs) ((name, f) :: ms)

end

namespace Field

open Decoder

theorem takes_plain {o : ByteOrder} {room : Nat} {code : UInt8} {bs : Bytes}
    {P : Levelled → Prop} (hcode : IsTypeCode code) (h : (decodeBody room code).Takes o bs P) :
    (decodeLevelled room).Takes o (code :: bs) fun r => ∃ d, r = some d ∧ P d := by
  rw [decodeLevelled]
  refine Takes.octet_bind ?_
  rw [if_neg hcode.1, if_neg hcode.2.1, if_neg hcode.2.2]
  exact h.bind_pure fun d hd => Takes.pure ⟨d, rfl, hd⟩

theorem takes_definition {o : ByteOrder} {room : Nat} {number : Bytes} {n : UInt16} {code : UInt8}
    {bs : Bytes} {P : Levelled → Prop}
    (hnumber : ∀ t : KnownTypes, Decoder.word16.Reads o t number n t)
    (h : (decodeBody room code).Takes o bs P) :
    (decodeLevelled room).Takes o (definitionCode :: (number ++ code :: bs))
      fun r => ∃ d, r = some d ∧ P d := by
  rw [decodeLevelled]
  refine Takes.octet_bind ?_
  rw [if_neg (by decide), if_neg (by decide), if_pos rfl]
  refine (Takes.of_reads hnumber).bind fun n' _ => Takes.octet_bind ?_
  refine h.bind_pure fun d hd => (Takes.modify _).bind_pure fun _ _ => ?_
  exact Takes.pure ⟨d, rfl, hd⟩

theorem takes_member {o : ByteOrder} {room : Nat} {text bs : Bytes} {name : String} {f : Field}
    (htext : ∀ t : KnownTypes, Decoder.string.Reads o t text name t)
    (h : (decodeLevelled room).Takes o bs fun r => ∃ d, r = some d ∧ d.field = f) :
    (decodeMember room).Takes o (text ++ bs) fun m => (m.1, m.2.field) = (name, f) := by
  rw [decodeMember]
  refine (Takes.of_reads htext).bind fun name' hname => h.bind_pure ?_
  rintro _ ⟨d, rfl, hd⟩
  exact Takes.pure (Prod.ext hname hd)

theorem takes_leaf {o : ByteOrder} {room : Nat} {code : UInt8} {f : Field}
    (hstruct : code ≠ structCode) (harray : code ≠ structArrayCode)
    (hleaf : ofLeafCode? code = some f) :
    (decodeBody room code).Takes o [] fun d => d.field = f := by
  rw [decodeBody.eq_def, if_neg hstruct, if_neg harray, hleaf]
  exact Takes.pure rfl

theorem takes_struct {o : ByteOrder} {room : Nat} {text count bs : Bytes} {id : String}
    {ms : List (String × Field)} (htext : ∀ t : KnownTypes, Decoder.string.Reads o t text id t)
    (hcount : ∀ t : KnownTypes, Decoder.length.Reads o t count ms.length t)
    (h : ∀ room, (times ms.length (decodeMember room)).Takes o bs
      fun r => (r.map fun m => (m.1, m.2.field)) = ms) :
    (decodeBody room structCode).Takes o (text ++ (count ++ bs))
      fun d => d.field = .struct ⟨id, ms⟩ := by
  rw [decodeBody.eq_def, if_pos rfl]
  cases room with
  | zero => exact Takes.fail _
  | succ room =>
    refine (Takes.of_reads htext).bind fun id' hid => (Takes.of_reads hcount).bind fun n hn => ?_
    subst hid hn
    refine (h room).bind_pure fun ms' hms => Takes.pure ?_
    rw [hms]

theorem takes_structArray {o : ByteOrder} {room : Nat} {bs : Bytes} {s : Structure}
    (h : ∀ room, (decodeLevelled room).Takes o bs fun r => ∃ d, r = some d ∧ d.field = .struct s) :
    (decodeBody room structArrayCode).Takes o bs fun d => d.field = .structArray s := by
  rw [decodeBody.eq_def, if_neg (by decide), if_pos rfl]
  cases room with
  | zero => exact Takes.fail _
  | succ room =>
    refine (h room).bind_pure ?_
    rintro _ ⟨⟨f, levels⟩, rfl, rfl⟩
    exact Takes.pure rfl

theorem takes_members {o : ByteOrder} {room : Nat} {bs cs : Bytes} {name : String} {f : Field}
    {ms : List (String × Field)}
    (h : (decodeMember room).Takes o bs fun m => (m.1, m.2.field) = (name, f))
    (hmembers : (times ms.length (decodeMember room)).Takes o cs
      fun r => (r.map fun m => (m.1, m.2.field)) = ms) :
    (times ((name, f) :: ms).length (decodeMember room)).Takes o (bs ++ cs)
      fun r => (r.map fun m => (m.1, m.2.field)) = (name, f) :: ms := by
  rw [List.length_cons, times_succ]
  refine h.bind fun m hm => hmembers.bind_pure fun ms' hms => Takes.pure ?_
  rw [List.map_cons, hm, hms]

mutual

/-- What is decoded from a spelling is what it spells. -/
theorem Spelled.takes {o : ByteOrder} {bs : Bytes} {f : Field} (h : Spelled o bs f) (room : Nat) :
    (decodeLevelled room).Takes o bs fun r => ∃ d, r = some d ∧ d.field = f :=
  match h with
  | .plain hcode hbody => takes_plain hcode (hbody.takes room)
  | .numbered hnumber hbody => takes_definition hnumber (hbody.takes room)

theorem SpelledBody.takes {o : ByteOrder} {code : UInt8} {bs : Bytes} {f : Field}
    (h : SpelledBody o code bs f) (room : Nat) :
    (decodeBody room code).Takes o bs fun d => d.field = f :=
  match h with
  | .leaf hstruct harray hleaf => takes_leaf hstruct harray hleaf
  | .struct htext hcount hmembers => takes_struct htext hcount hmembers.takes
  | .structArray helement => takes_structArray helement.takes

theorem SpelledMembers.takes {o : ByteOrder} {bs : Bytes} {ms : List (String × Field)}
    (h : SpelledMembers o bs ms) (room : Nat) :
    (times ms.length (decodeMember room)).Takes o bs
      fun r => (r.map fun m => (m.1, m.2.field)) = ms :=
  match h with
  | .nil => Takes.pure rfl
  | .cons htext hfield hmembers =>
    takes_members (takes_member htext (hfield.takes room)) (hmembers.takes room)

end

end Field

end PvNet
