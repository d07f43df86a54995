import PvNet.Proofs.Schema.References
import PvNet.Proofs.Schema.SentNumbers
set_option autoImplicit false

/-!
# Numbers that the receiver does not know

While a definition is being written the tables of sender and receiver differ: the sender
has numbered the descriptor before its body, the receiver learns the number behind it.
Such descriptors are *pending*.  A pending descriptor is higher than everything that is
still to be written, so it is never referred to.

If what the sender writes is thrown away, the receiver never learns the number at all, and
the sender refers to it all the same.  Such a number is *lost*.  A descriptor resolves if
writing it comes upon no lost number (`Field.resolves`).  What resolves arrives as it was
written, and what does not is never read as what it is (`Field.conveys_encode`); neither
changes which numbers are lost.
-/

namespace PvNet

open Decoder

/-! ## Sizes -/

mutual

/-- Whether the size field can hold the sizes of all names and member lists in a descriptor. -/
def Field.fits : Field → Bool
  | .scalar _ | .scalarArray _ => true
  | .struct s | .structArray s => s.fits
termination_by structural f => f

/-- Whether the size field can hold the sizes of all names and member lists in a structure. -/
def Structure.fits : Structure → Bool
  | ⟨id, ms⟩ =>
    id.utf8ByteSize ≤ Wire.maxSize && ms.length ≤ Wire.maxSize && Structure.membersFit ms
termination_by structural s => s

/-- Whether the size field can hold the sizes of all names and member lists in members. -/
def Structure.membersFit : List (String × Field) → Bool
  | [] => true
  | (name, f) :: ms => name.utf8ByteSize ≤ Wire.maxSize && f.fits && Structure.membersFit ms
termination_by structural ms => ms

end

/-! ## Reading something else -/

namespace Decoder

variable {σ α β : Type} {o : ByteOrder} {s s' : σ} {bs cs : Bytes} {a : α} {P : α → Prop}
  {Q : β → Prop}

/-- Whatever the decoder reads off an input that starts with `bs` satisfies a property; it may fail
as well. -/
def Misses (d : Decoder σ α) (o : ByteOrder) (s : σ) (bs : Bytes) (wrong : α → Prop) : Prop :=
  ∀ rest a, (d.run o s (bs ++ rest)).result = .ok a → wrong a

/-- Whatever the decoder reads off any input satisfies a property. -/
def Only (d : Decoder σ α) (P : α → Prop) : Prop :=
  ∀ o s bs a, (d.run o s bs).result = .ok a → P a

theorem exists_of_result_bind {d : Decoder σ α} {f : α → Decoder σ β} {b : β}
    (h : ((d >>= f).run o s bs).result = .ok b) :
    ∃ a t cs, d.run o s bs = ⟨.ok a, t, cs⟩ ∧ ((f a).run o t cs).result = .ok b := by
  rcases hrun : (d >>= f).run o s bs with ⟨r, t, rest⟩
  rw [hrun] at h
  obtain rfl : r = .ok b := h
  obtain ⟨a, t', cs, hd, hf⟩ := exists_of_run_bind hrun
  exact ⟨a, t', cs, hd, by rw [hf]⟩

theorem Only.pure (h : P a) : (Pure.pure a : Decoder σ α).Only P := by
  intro o s bs b hb
  cases hb
  exact h

theorem Only.fail (e : WireError) : (Decoder.fail e : Decoder σ α).Only P := by
  intro o s bs b hb
  cases hb

theorem Only.bind_of_forall {d : Decoder σ α} {f : α → Decoder σ β} (h : ∀ a, (f a).Only Q) :
    (d >>= f).Only Q := by
  intro o s bs b hb
  obtain ⟨a, t, cs, -, hf⟩ := exists_of_result_bind hb
  exact h a o t cs b hf

namespace Misses

theorem append {d : Decoder σ α} (h : d.Misses o s bs P) (cs : Bytes) :
    d.Misses o s (bs ++ cs) P := by
  intro rest a ha
  rw [List.append_assoc] at ha
  exact h (cs ++ rest) a ha

/-- What follows a decoder that reads something wrong. -/
theorem bind {d : Decoder σ α} {f : α → Decoder σ β} (hd : d.Misses o s bs P)
    (hf : ∀ a, P a → (f a).Only Q) : (d >>= f).Misses o s bs Q := by
  intro rest b hb
  obtain ⟨a, t, cs, hrun, hrest⟩ := exists_of_result_bind hb
  exact hf a (hd rest a (by rw [hrun])) o t cs b hrest

/-- A list whose first item goes wrong. -/
theorem times_succ {d : Decoder σ α} {n : Nat} {R : List α → Prop} (h : d.Misses o s bs P)
    (hR : ∀ a as, P a → R (a :: as)) (cs : Bytes) :
    (times (n + 1) d).Misses o s (bs ++ cs) R := by
  rw [Decoder.times_succ]
  exact (h.append cs).bind fun a ha => Only.bind_of_forall fun as => Only.pure (hR a as ha)

end Misses

namespace Reads

/-- What goes wrong behind octets that are read as they were written. -/
theorem bind_misses {d : Decoder σ α} {f : α → Decoder σ β} (hd : d.Reads o s bs a s')
    (hf : (f a).Misses o s' cs Q) : (d >>= f).Misses o s (bs ++ cs) Q := by
  intro rest b hb
  rw [List.append_assoc, run_bind_of_ok (hd (cs ++ rest))] at hb
  exact hf rest b hb

/-- A list that goes wrong behind its first item. -/
theorem times_succ_misses {d : Decoder σ α} {n : Nat} {Q R : List α → Prop}
    (hd : d.Reads o s bs a s') (hn : (times n d).Misses o s' cs Q)
    (hR : ∀ as, Q as → R (a :: as)) : (times (n + 1) d).Misses o s (bs ++ cs) R := by
  rw [Decoder.times_succ]
  exact hd.bind_misses (hn.bind fun as has => Only.pure (hR as has))

end Reads

end Decoder

/-! ## A descriptor that is read as something else -/

namespace Field

variable {o : ByteOrder} {t : KnownTypes} {n : UInt16} {room : Nat} {f : Field} {code : UInt8}
  {bs : Bytes}

/-- What is read is not the descriptor. -/
def Wrong (f : Field) (r : Option Levelled) : Prop := r.map (·.field) ≠ some f

/-- A number that is not known at all is an error. -/
theorem run_decodeLevelled_unknown (o : ByteOrder) (room : Nat) (h : t.find? n = none)
    (rest : Bytes) :
    (decodeLevelled room).run o t (referenceCode :: (Wire.word16 o n ++ rest)) =
      ⟨.error (.unknownReference n), t, rest⟩ := by
  rw [decodeLevelled, run_octet_bind, if_neg (by decide), if_pos rfl,
    run_bind_of_ok (Reads.word16 o t n rest), run_bind_of_ok (run_get o t rest)]
  simp only [h]
  rfl

theorem misses_reference (h : t.field? n ≠ some f) :
    (decodeLevelled room).Misses o t (referenceCode :: Wire.word16 o n) f.Wrong := by
  intro rest r hr
  rw [List.cons_append] at hr
  cases hfind : t.find? n with
  | none =>
    rw [run_decodeLevelled_unknown o room hfind] at hr
    cases hr
  | some d =>
    rw [run_decodeLevelled_reference o room hfind] at hr
    by_cases hdeep : room < d.levels
    · rw [if_pos hdeep] at hr
      cases hr
    · rw [if_neg hdeep] at hr
      cases hr
      unfold KnownTypes.field? at h
      rw [hfind] at h
      exact h

theorem misses_definition (h : (decodeBody room code).Misses o t bs fun d => d.field ≠ f) :
    (decodeLevelled room).Misses o t (definitionCode :: (Wire.word16 o n ++ code :: bs))
      f.Wrong := by
  rw [decodeLevelled]
  refine (Reads.octet o t definitionCode).bind_misses ?_
  rw [if_neg (by decide), if_neg (by decide), if_pos rfl]
  refine (Reads.word16 o t n).bind_misses ?_
  refine (Reads.octet o t code).bind_misses (h.bind fun d hd => ?_)
  exact Only.bind_of_forall fun _ => Only.pure fun heq => hd (Option.some.inj heq)

theorem misses_plain (hcode : IsTypeCode code)
    (h : (decodeBody room code).Misses o t bs fun d => d.field ≠ f) :
    (decodeLevelled room).Misses o t (code :: bs) f.Wrong := by
  rw [decodeLevelled]
  refine (Reads.octet o t code).bind_misses ?_
  rw [if_neg hcode.1, if_neg hcode.2.1, if_neg hcode.2.2]
  exact h.bind fun d hd => Only.pure fun heq => hd (Option.some.inj heq)

theorem misses_member {name : String} (hname : name.utf8ByteSize ≤ Wire.maxSize)
    (h : (decodeLevelled room).Misses o t bs f.Wrong) :
    (decodeMember room).Misses o t (Wire.string o name ++ bs)
      fun m => (m.1, m.2.field) ≠ (name, f) := by
  rw [decodeMember]
  refine (Reads.string o t hname).bind_misses (h.bind fun r hr => ?_)
  cases r with
  | none => exact Only.fail _
  | some d => exact Only.pure fun heq => hr (congrArg some (Prod.mk.inj heq).2)

theorem misses_struct {id : String} {ms : List (String × Field)}
    (hid : id.utf8ByteSize ≤ Wire.maxSize) (hcount : ms.length ≤ Wire.maxSize)
    (h : (times ms.length (decodeMember room)).Misses o t bs
      fun ms' => ms'.map (fun m => (m.1, m.2.field)) ≠ ms) :
    (decodeBody (room + 1) structCode).Misses o t
      (Wire.string o id ++ Wire.length o ms.length ++ bs)
      fun d => d.field ≠ .struct ⟨id, ms⟩ := by
  rw [decodeBody, if_pos rfl, List.append_assoc]
  refine (Reads.string o t hid).bind_misses ((Reads.length o t hcount).bind_misses ?_)
  refine h.bind fun ms' hms' => Only.pure fun heq => hms' ?_
  exact (Structure.mk.inj (Field.struct.inj heq)).2

theorem misses_structArray {s : Structure}
    (h : (decodeLevelled room).Misses o t bs (Field.struct s).Wrong) :
    (decodeBody (room + 1) structArrayCode).Misses o t bs fun d => d.field ≠ .structArray s := by
  rw [decodeBody, if_neg (by decide), if_pos rfl]
  refine h.bind fun r hr => ?_
  rcases r with _ | ⟨field, levels⟩
  · exact Only.fail _
  · cases field with
    | struct element => exact Only.pure fun heq => hr (by rw [Field.structArray.inj heq]; rfl)
    | scalar _ | scalarArray _ | structArray _ => exact Only.fail _

end Field

/-! ## What resolves -/

/-- Whether a descriptor that is numbered stands at the receiver under its number; if it is not
numbered, what is inside decides. -/
def SentTypes.resolves (sent : SentTypes) (known : KnownTypes) (f : Field) (inside : Bool) : Bool :=
  match sent.number? f with
  | some n => known.field? n = some f
  | none => inside

section

variable (sent : SentTypes) (known : KnownTypes)

mutual

/-- Whether a sender that writes a descriptor uses only numbers that mean the same to the receiver. -/
def Field.resolves : Field → Bool
  | .scalar _ | .scalarArray _ => true
  | .struct s => s.resolves
  | .structArray s => sent.resolves known (.structArray s) s.resolves
termination_by structural f => f

/-- Whether a sender that writes the descriptor of a structure uses only such numbers. -/
def Structure.resolves : Structure → Bool
  | ⟨id, ms⟩ => sent.resolves known (.struct ⟨id, ms⟩) (Structure.membersResolve ms)
termination_by structural s => s

/-- Whether a sender that writes members uses only such numbers. -/
def Structure.membersResolve : List (String × Field) → Bool
  | [] => true
  | (_, f) :: ms => f.resolves && Structure.membersResolve ms
termination_by structural ms => ms

end

end

theorem SentTypes.resolves_of_known {sent : SentTypes} {known : KnownTypes} {f : Field} {n : UInt16}
    {inside : Bool} (h : sent.number? f = some n) :
    sent.resolves known f inside = decide (known.field? n = some f) := by
  unfold resolves
  rw [h]

theorem SentTypes.resolves_of_new {sent : SentTypes} {known : KnownTypes} {f : Field}
    {inside : Bool} (h : sent.number? f = none) : sent.resolves known f inside = inside := by
  unfold resolves
  rw [h]

/-! ## The invariant -/

/-- A stored descriptor is stored with its levels. -/
theorem KnownTypes.Sound.find?_of_field? {known : KnownTypes} {n : UInt16} {f : Field}
    (h : known.Sound) (hf : known.field? n = some f) : known.find? n = some ⟨f, f.levels⟩ := by
  obtain ⟨d, hd, rfl⟩ := Option.map_eq_some_iff.1 hf
  rw [hd, ← (h n d hd).levels_eq]

/-- What the tables have come to since they were `sent₀` and `known₀` if everything written since
then has arrived, except for the pending descriptors: lost numbers are lost, the others mean the same
to both, and what was numbered since then resolves. -/
structure Since (sent₀ : SentTypes) (known₀ : KnownTypes) (pending : List Field) (sent : SentTypes)
    (known : KnownTypes) : Prop where
  numbered : sent.Numbered
  kept : sent₀.Extends sent
  agrees : ∀ f n, sent.number? f = some n → f ∉ pending →
    (sent₀.number? f = some n → known₀.field? n = some f) → known.find? n = some ⟨f, f.levels⟩
  lost : ∀ f n, sent₀.number? f = some n → known₀.field? n ≠ some f → known.field? n ≠ some f
  resolved : ∀ f n, sent.number? f = some n → f ∉ pending → sent₀.number? f = none →
    f.resolves sent₀ known₀ = true

namespace Since

variable {sent₀ sent : SentTypes} {known₀ known : KnownTypes} {pending : List Field} {f : Field}

theorem start (hsent : sent₀.Numbered)
    (hlevels : ∀ f n, sent₀.number? f = some n → f ∉ pending → known₀.field? n = some f →
      known₀.find? n = some ⟨f, f.levels⟩) : Since sent₀ known₀ pending sent₀ known₀ where
  numbered := hsent
  kept := .refl sent₀
  agrees f n hf hsettled hmeans := hlevels f n hf hsettled (hmeans hf)
  lost := fun _ _ _ h => h
  resolved := by
    intro f n hf _ hnone
    rw [hf] at hnone
    cases hnone

/-- The sender numbers a descriptor before it writes its body. -/
theorem begin (h : Since sent₀ known₀ pending sent known) (hnew : sent.number? f = none)
    (hroom : sent.isFull = false) : Since sent₀ known₀ (f :: pending) (sent.added f) known where
  numbered := h.numbered.added hroom f
  kept := h.kept.trans (SentTypes.extends_added hnew)
  agrees := by
    intro g n hg hpending
    rw [List.mem_cons, not_or] at hpending
    rw [SentTypes.number?_added, if_neg (Ne.symm hpending.1)] at hg
    exact h.agrees g n hg hpending.2
  lost := h.lost
  resolved := by
    intro g n hg hpending
    rw [List.mem_cons, not_or] at hpending
    rw [SentTypes.number?_added, if_neg (Ne.symm hpending.1)] at hg
    exact h.resolved g n hg hpending.2

/-- The receiver learns the number behind the body. -/
theorem finish {n : UInt16} (h : Since sent₀ known₀ (f :: pending) sent known)
    (hn : sent.number? f = some n) (hnew : sent₀.number? f = none)
    (hresolves : f.resolves sent₀ known₀ = true) :
    Since sent₀ known₀ pending sent (known.define n ⟨f, f.levels⟩) := by
  have hmem : ∀ g, g ≠ f → g ∉ pending → g ∉ f :: pending := by
    intro g hgf hpending hmem
    rcases List.mem_cons.1 hmem with rfl | hmem
    · exact hgf rfl
    · exact hpending hmem
  -- No two descriptors have one number, so the new definition hides nothing.
  have hother : ∀ g m, g ≠ f → sent.number? g = some m →
      (known.define n ⟨f, f.levels⟩).find? m = known.find? m := by
    intro g m hgf hg
    rw [KnownTypes.find?_define, if_neg ?_]
    rintro rfl
    exact hgf (h.numbered.number_injective hg hn)
  refine ⟨h.numbered, h.kept, ?_, ?_, ?_⟩
  · intro g m hg hpending hmeans
    by_cases hgf : g = f
    · subst hgf
      rw [KnownTypes.find?_define, if_pos (Option.some.inj (hn.symm.trans hg))]
    · rw [hother g m hgf hg]
      exact h.agrees g m hg (hmem g hgf hpending) hmeans
  · intro g m hg hlost
    have hgf : g ≠ f := by
      rintro rfl
      rw [hg] at hnew
      cases hnew
    unfold KnownTypes.field?
    rw [hother g m hgf (h.kept g m hg)]
    exact h.lost g m hg hlost
  · intro g m hg hpending hnone
    by_cases hgf : g = f
    · rw [hgf]
      exact hresolves
    · exact h.resolved g m hg (hmem g hgf hpending) hnone

/-- What a number stands for at the receiver: the descriptor, if that resolves, and otherwise
something else or nothing. -/
theorem find?_of_number {n : UInt16} {inside : Bool} (h : Since sent₀ known₀ pending sent known)
    (hresolves : f.resolves sent₀ known₀ = sent₀.resolves known₀ f inside)
    (hn : sent.number? f = some n) (hsettled : f ∉ pending) :
    (f.resolves sent₀ known₀ = true → known.find? n = some ⟨f, f.levels⟩) ∧
      (f.resolves sent₀ known₀ = false → known.field? n ≠ some f) := by
  cases hold : sent₀.number? f with
  | none =>
    have hyes := h.resolved f n hn hsettled hold
    refine ⟨fun _ => h.agrees f n hn hsettled fun hm => ?_, fun hno => ?_⟩
    · rw [hold] at hm
      cases hm
    · rw [hyes] at hno
      cases hno
  | some m =>
    obtain rfl : m = n := Option.some.inj ((h.kept f m hold).symm.trans hn)
    rw [hresolves, SentTypes.resolves_of_known hold]
    exact ⟨fun hyes => h.agrees f m hn hsettled fun _ => of_decide_eq_true hyes,
      fun hno => h.lost f m hold (of_decide_eq_false hno)⟩

end Since

/-- What writing something and reading it comes to: if it resolves, it arrives and no number has
changed, and if it does not, something else is read at most. -/
structure Conveys {α : Type} (sent₀ : SentTypes) (known₀ : KnownTypes) (pending : List Field)
    (o : ByteOrder) (sent : SentTypes) (known : KnownTypes) (written : Bytes × SentTypes)
    (resolves : Bool) (d : Decoder KnownTypes α) (a : α) (wrong : α → Prop) : Prop where
  arrives : resolves = true → ∃ known', d.Reads o known written.1 a known' ∧
    Since sent₀ known₀ pending written.2 known' ∧ sent.Extends written.2
  misses : resolves = false → d.Misses o known written.1 wrong

section

variable {sent₀ : SentTypes} {known₀ : KnownTypes}

/-- A descriptor that has to be numbered arrives or does not as its body does, or as its number
means the same to both or not. -/
theorem Since.conveys_introducing {o : ByteOrder} {room : Nat} {pending : List Field}
    {sent : SentTypes} {known : KnownTypes} {f : Field} {body : SentTypes → Bytes × SentTypes}
    {inside : Bool}
    (hbody : ∀ {pending sent known}, Since sent₀ known₀ pending sent known →
      (∀ g ∈ pending, f.levels ≤ g.levels) →
      Conveys sent₀ known₀ pending o sent known (body sent) inside
        (Field.decodeBody room f.typeCode) ⟨f, f.levels⟩ fun d => d.field ≠ f)
    (hresolves : f.resolves sent₀ known₀ = sent₀.resolves known₀ f inside)
    (h : Since sent₀ known₀ pending sent known) (hpending : ∀ g ∈ pending, f.levels < g.levels)
    (hroom : f.levels ≤ room) :
    Conveys sent₀ known₀ pending o sent known (sent.introducing o f body)
      (f.resolves sent₀ known₀) (Field.decodeLevelled room) (some ⟨f, f.levels⟩) f.Wrong := by
  unfold SentTypes.introducing
  cases hnumber : sent.number? f with
  | some n =>
    rw [SentTypes.introduce_of_known o hnumber]
    have hsettled : f ∉ pending := fun hmem => Nat.lt_irrefl _ (hpending f hmem)
    obtain ⟨hsame, hother⟩ := h.find?_of_number hresolves hnumber hsettled
    exact ⟨fun hyes => ⟨known, Field.reads_reference (hsame hyes) hroom, h, .refl sent⟩,
      fun hno => Field.misses_reference (hother hno)⟩
  | none =>
    have hold : sent₀.number? f = none := h.kept.number?_eq_none hnumber
    have hinside : f.resolves sent₀ known₀ = inside :=
      hresolves.trans (SentTypes.resolves_of_new hold)
    cases hfull : sent.isFull with
    | false =>
      rw [SentTypes.introduce_of_new o hnumber hfull]
      have hhigher : ∀ g ∈ f :: pending, f.levels ≤ g.levels := by
        intro g hg
        rcases List.mem_cons.1 hg with rfl | hg
        · exact Nat.le_refl _
        · exact Nat.le_of_lt (hpending g hg)
      have hconveys := hbody (h.begin hnumber hfull) hhigher
      refine ⟨fun hyes => ?_, fun hno => ?_⟩
      · obtain ⟨known', hreads, hsince, hextends⟩ := hconveys.arrives (hinside ▸ hyes)
        have hn : (body (sent.added f)).2.number? f = some sent.next :=
          hextends f sent.next (by rw [SentTypes.number?_added, if_pos rfl])
        exact ⟨known'.define sent.next ⟨f, f.levels⟩, Field.reads_definition hreads,
          hsince.finish hn hold hyes, (SentTypes.extends_added hnumber).trans hextends⟩
      · exact Field.misses_definition (hconveys.misses (hinside ▸ hno))
    | true =>
      rw [SentTypes.introduce_of_full o hnumber hfull]
      have hconveys := hbody h fun g hg => Nat.le_of_lt (hpending g hg)
      refine ⟨fun hyes => ?_, fun hno => ?_⟩
      · obtain ⟨known', hreads, hsince, hextends⟩ := hconveys.arrives (hinside ▸ hyes)
        exact ⟨known', Field.reads_plain f.isTypeCode_typeCode hreads, hsince, hextends⟩
      · exact Field.misses_plain f.isTypeCode_typeCode (hconveys.misses (hinside ▸ hno))

end

/-! ## Descriptors -/

/-- Members with the levels of their descriptors. -/
def Structure.levelled (ms : List (String × Field)) : List (String × Levelled) :=
  ms.map fun m => (m.1, ⟨m.2, m.2.levels⟩)

theorem Structure.map_field_levelled (ms : List (String × Field)) :
    (Structure.levelled ms).map (fun m => (m.1, m.2.field)) = ms := by
  simp [Structure.levelled, Function.comp_def]

theorem Field.levelsOver_levelled (ms : List (String × Field)) :
    Field.levelsOver (Structure.levelled ms) = Structure.memberHeight 1 ms + 1 := by
  rw [Field.levelsOver_eq, Structure.map_field_levelled]
  intro m hm
  obtain ⟨m', _, rfl⟩ := List.mem_map.1 hm
  rfl

section

variable {sent₀ : SentTypes} {known₀ : KnownTypes}

/-- A leaf is written without a number. -/
theorem Field.conveys_leaf {o : ByteOrder} {pending : List Field} {sent : SentTypes}
    {known : KnownTypes} {f : Field} {room : Nat} (hleaf : f.isNumbered = false)
    (h : Since sent₀ known₀ pending sent known) :
    Conveys sent₀ known₀ pending o sent known ([f.typeCode], sent) true (decodeLevelled room)
      (some ⟨f, f.levels⟩) f.Wrong where
  arrives _ := ⟨known, reads_typeCode o known room hleaf, h, .refl sent⟩
  misses hno := nomatch hno

mutual

/-- A descriptor that resolves arrives as it was written, and one that does not is never read as
what it is. -/
theorem Field.conveys_encode {o : ByteOrder} :
    ∀ (f : Field) {room : Nat} {pending : List Field} {sent : SentTypes} {known : KnownTypes},
      Since sent₀ known₀ pending sent known → (∀ g ∈ pending, f.levels < g.levels) →
      f.levels ≤ room → f.fits = true →
      Conveys sent₀ known₀ pending o sent known (f.encode o sent) (f.resolves sent₀ known₀)
        (Field.decodeLevelled room) (some ⟨f, f.levels⟩) f.Wrong
  | .scalar _, _, _, _, _, h, _, _, _ | .scalarArray _, _, _, _, _, h, _, _, _ =>
    Field.conveys_leaf rfl h
  | .struct s, room, pending, sent, known, h, hpending, hroom, hfits =>
    Structure.conveys_encode s h hpending hroom hfits
  | .structArray s, room, pending, sent, known, h, hpending, hroom, hfits => by
    rw [Field.encode_structArray_eq]
    refine Since.conveys_introducing ?_ rfl h hpending hroom
    intro pending sent known h hpending
    obtain ⟨room, rfl⟩ := Nat.exists_eq_add_of_le' (Nat.le_trans (Nat.le_add_left 1 _) hroom)
    have helement := Structure.conveys_encode (o := o) s h
      (fun g hg => Nat.lt_of_lt_of_le (Nat.lt_succ_self _) (hpending g hg))
      (Nat.le_of_succ_le_succ hroom) hfits
    refine ⟨fun hyes => ?_, fun hno => Field.misses_structArray (helement.misses hno)⟩
    obtain ⟨known', hreads, hsince, hextends⟩ := helement.arrives hyes
    exact ⟨known', Field.reads_structArray hreads, hsince, hextends⟩

theorem Structure.conveys_encode {o : ByteOrder} :
    ∀ (s : Structure) {room : Nat} {pending : List Field} {sent : SentTypes} {known : KnownTypes},
      Since sent₀ known₀ pending sent known → (∀ g ∈ pending, (Field.struct s).levels < g.levels) →
      (Field.struct s).levels ≤ room → s.fits = true →
      Conveys sent₀ known₀ pending o sent known (s.encode o sent) (s.resolves sent₀ known₀)
        (Field.decodeLevelled room) (some ⟨.struct s, (Field.struct s).levels⟩)
        (Field.struct s).Wrong
  | ⟨id, ms⟩, room, pending, sent, known, h, hpending, hroom, hfits => by
    simp only [Structure.fits, Bool.and_eq_true, decide_eq_true_eq] at hfits
    rw [Structure.encode_eq]
    refine Since.conveys_introducing (f := .struct ⟨id, ms⟩) ?_ rfl h hpending hroom
    -- The structure itself may be pending by now; its members are lower than it is.
    intro pending sent known h hpending
    obtain ⟨room, rfl⟩ := Nat.exists_eq_add_of_le' (Nat.le_trans (Nat.le_add_left 1 _) hroom)
    have hmembers := Structure.conveys_encodeMembers (o := o) ms h
      (fun g hg => Nat.lt_of_lt_of_le (Nat.lt_succ_self _) (hpending g hg))
      (Nat.le_of_succ_le_succ hroom) hfits.2
    refine ⟨fun hyes => ?_, fun hno => ?_⟩
    · obtain ⟨known', hreads, hsince, hextends⟩ := hmembers.arrives hyes
      refine ⟨known', ?_, hsince, hextends⟩
      have hlength : (Structure.levelled ms).length = ms.length := List.length_map ..
      have hstruct := Field.reads_struct hfits.1.1 (hlength ▸ hfits.1.2) (hlength ▸ hreads)
      rw [hlength, Structure.map_field_levelled, Field.levelsOver_levelled] at hstruct
      exact hstruct
    · exact Field.misses_struct hfits.1.1 hfits.1.2 (hmembers.misses hno)

/-- The members of a structure arrive up to the first one that does not resolve. -/
theorem Structure.conveys_encodeMembers {o : ByteOrder} :
    ∀ (ms : List (String × Field)) {room : Nat} {pending : List Field} {sent : SentTypes}
      {known : KnownTypes},
      Since sent₀ known₀ pending sent known →
      (∀ g ∈ pending, Structure.memberHeight 1 ms < g.levels) →
      Structure.memberHeight 1 ms ≤ room → Structure.membersFit ms = true →
      Conveys sent₀ known₀ pending o sent known (Structure.encodeMembers o ms sent)
        (Structure.membersResolve sent₀ known₀ ms) (times ms.length (Field.decodeMember room))
        (Structure.levelled ms) fun ms' => ms'.map (fun m => (m.1, m.2.field)) ≠ ms
  | [], room, pending, sent, known, h, _, _, _ =>
    ⟨fun _ => ⟨known, Reads.times_zero _ o known, h, .refl sent⟩, fun hno => nomatch hno⟩
  | (name, f) :: ms, room, pending, sent, known, h, hpending, hroom, hfits => by
    simp only [Structure.membersFit, Bool.and_eq_true, decide_eq_true_eq] at hfits
    simp only [Structure.memberHeight, Nat.max_le] at hroom
    simp only [Structure.memberHeight, Nat.max_lt] at hpending
    have hhere := Field.conveys_encode (o := o) f h (fun g hg => (hpending g hg).1) hroom.1
      hfits.1.2
    rw [Structure.encodeMembers_cons]
    cases hfirst : f.resolves sent₀ known₀ with
    | false =>
      refine ⟨fun hyes => ?_, fun _ => ?_⟩
      · simp only [Structure.membersResolve, hfirst, Bool.false_and] at hyes
        cases hyes
      · refine (Field.misses_member hfits.1.1 (hhere.misses hfirst)).times_succ ?_ _
        exact fun m ms' hm heq => hm (List.cons.inj heq).1
    | true =>
      obtain ⟨known', hmember, hsince, hextends⟩ := hhere.arrives hfirst
      have hbehind := Structure.conveys_encodeMembers (o := o) ms hsince
        (fun g hg => (hpending g hg).2) hroom.2 hfits.2
      have hmember := Field.reads_member hfits.1.1 hmember
      simp only [Structure.membersResolve, hfirst, Bool.true_and]
      refine ⟨fun hyes => ?_, fun hno => ?_⟩
      · obtain ⟨known'', hmembers, hsince', hextends'⟩ := hbehind.arrives hyes
        exact ⟨known'', Reads.times_succ hmember hmembers, hsince', hextends.trans hextends'⟩
      · refine hmember.times_succ_misses (hbehind.misses hno) ?_
        exact fun ms' hms' heq => hms' (List.cons.inj heq).2

end

end

end PvNet
