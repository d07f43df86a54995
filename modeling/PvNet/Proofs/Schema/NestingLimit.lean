import PvNet.Proofs.Schema.References
set_option autoImplicit false

/-!
# The nesting limit over a whole connection

A receiver decodes one input after the other with one table, and an input that fails
half-way leaves behind the numbers that it has defined by then.  No sequence of inputs
gets a descriptor past the limit, neither as what is read nor as what is stored: each
input keeps the table sound (`maintains_decode?`), whatever came before it.

Links of a chain, each a structure around a reference to the link before, are the
quickest way up to the limit.  They are read exactly as far as it goes.
-/

namespace PvNet

namespace Field

open Decoder

/-! ## Sequences of inputs -/

/-- Reads one descriptor off each input, with one table for all of them. -/
def decodeEach : List (ByteOrder × Bytes) → KnownTypes →
    List (Except WireError (Option Field)) × KnownTypes
  | [], t => ([], t)
  | (o, bs) :: inputs, t =>
    let first := decode?.run o t bs
    let (results, t') := decodeEach inputs first.state
    (first.result :: results, t')

variable {o : ByteOrder} {t : KnownTypes} {bs : Bytes} {inputs : List (ByteOrder × Bytes)}

theorem decodeEach_cons (o : ByteOrder) (bs : Bytes) (inputs : List (ByteOrder × Bytes))
    (t : KnownTypes) :
    decodeEach ((o, bs) :: inputs) t =
      ((decode?.run o t bs).result :: (decodeEach inputs (decode?.run o t bs).state).1,
        (decodeEach inputs (decode?.run o t bs).state).2) := rfl

theorem decodeEach_append (inputs inputs' : List (ByteOrder × Bytes)) (t : KnownTypes) :
    decodeEach (inputs ++ inputs') t =
      ((decodeEach inputs t).1 ++ (decodeEach inputs' (decodeEach inputs t).2).1,
        (decodeEach inputs' (decodeEach inputs t).2).2) := by
  induction inputs generalizing t with
  | nil => rfl
  | cons input inputs ih =>
    obtain ⟨o, bs⟩ := input
    rw [List.cons_append, decodeEach_cons, decodeEach_cons, ih, List.cons_append]

/-- Every input keeps the table sound, and what is read off it is within the limit. -/
theorem sound_decodeEach (inputs : List (ByteOrder × Bytes)) (ht : t.Sound) :
    (decodeEach inputs t).2.Sound ∧
      ∀ f, .ok (some f) ∈ (decodeEach inputs t).1 → f.nesting ≤ maxLevels := by
  induction inputs generalizing t with
  | nil => exact ⟨ht, fun f hf => nomatch hf⟩
  | cons input inputs ih =>
    obtain ⟨o, bs⟩ := input
    obtain ⟨hstate, hresult⟩ := maintains_decode? o t bs ht
    obtain ⟨hsound, hresults⟩ := ih hstate
    rw [decodeEach_cons]
    refine ⟨hsound, ?_⟩
    intro f hf
    rcases List.mem_cons.1 hf with hf | hf
    · exact hresult (some f) hf.symm f rfl
    · exact hresults f hf

/-- Whatever arrives, in any byte order, and wherever an input fails: every descriptor that is read
and every descriptor that is stored spans at most `maxLevels` structures and arrays of structures,
those behind references included, and every number is stored with the levels of its descriptor. -/
theorem nesting_limited (inputs : List (ByteOrder × Bytes)) :
    (∀ f, .ok (some f) ∈ (decodeEach inputs {}).1 → f.nesting ≤ maxLevels) ∧
      ∀ n d, (decodeEach inputs {}).2.find? n = some d →
        d.field.nesting ≤ maxLevels ∧ d.levels = d.field.levels := by
  obtain ⟨hsound, hresults⟩ := sound_decodeEach inputs KnownTypes.sound_empty
  refine ⟨hresults, ?_⟩
  intro n d hd
  exact ⟨(hsound n d hd).nesting_le, (hsound n d hd).levels_eq⟩

/-! ## Chains of references -/

/-- A link: a structure without members, or one around the link before. -/
def link : Nat → Field
  | 0 => .struct ⟨"", []⟩
  | n + 1 => .struct ⟨"", [("", link n)]⟩

theorem nesting_link (n : Nat) : (link n).nesting = n + 1 := by
  induction n with
  | zero => rfl
  | succ n ih => simp [link, Field.height, Structure.height, Structure.memberHeight, ih]

/-- The definition of a link, with a reference to the link before. -/
def linkOctets (o : ByteOrder) : Nat → Bytes
  | 0 => definitionCode :: (Wire.word16 o 0 ++
      structCode :: (Wire.string o "" ++ Wire.length o 0 ++ []))
  | n + 1 => definitionCode :: (Wire.word16 o (UInt16.ofNat (n + 1)) ++
      structCode :: (Wire.string o "" ++ Wire.length o 1 ++
        (Wire.string o "" ++ referenceCode :: Wire.word16 o (UInt16.ofNat n) ++ [])))

/-- The links up to a given one, in alternating byte order. -/
def linkInputs : Nat → List (ByteOrder × Bytes)
  | 0 => [(.big, linkOctets .big 0)]
  | n + 1 =>
    let o : ByteOrder := if n % 2 = 0 then .little else .big
    linkInputs n ++ [(o, linkOctets o (n + 1))]

/-- The table after the links up to a given one. -/
def linkTypes : Nat → KnownTypes
  | 0 => KnownTypes.define {} 0 ⟨link 0, 1⟩
  | n + 1 => (linkTypes n).define (UInt16.ofNat (n + 1)) ⟨link (n + 1), n + 2⟩

theorem find?_linkTypes (n : Nat) : (linkTypes n).find? (UInt16.ofNat n) = some ⟨link n, n + 1⟩ := by
  cases n with
  | zero => rfl
  | succ n => rw [linkTypes, KnownTypes.find?_define, if_pos rfl]

/-- A link is read as long as there is room for the links inside it. -/
theorem reads_linkOctets (o : ByteOrder) {n : Nat} (h : n + 1 < maxLevels) :
    decode?.Reads o (linkTypes n) (linkOctets o (n + 1)) (some (link (n + 1)))
      (linkTypes (n + 1)) := by
  have hempty : "".utf8ByteSize ≤ Wire.maxSize := Nat.zero_le _
  have hreference : (decodeLevelled 63).Reads o (linkTypes n)
      (referenceCode :: Wire.word16 o (UInt16.ofNat n)) (some ⟨link n, n + 1⟩) (linkTypes n) :=
    reads_reference (find?_linkTypes n) (Nat.le_of_lt_succ h)
  have hmember := reads_member hempty hreference
  have hmembers := Reads.times_succ hmember (Reads.times_zero _ o (linkTypes n))
  have hlevels : levelsOver [("", ⟨link n, n + 1⟩)] = n + 2 := by
    show max 1 (n + 1 + 1) = n + 2
    omega
  have hcount : [("", (⟨link n, n + 1⟩ : Levelled))].length ≤ Wire.maxSize :=
    show 1 ≤ Wire.maxSize by decide
  have hstruct := reads_struct hempty hcount hmembers
  rw [hlevels] at hstruct
  exact (reads_definition hstruct).bind_pure (Reads.pure _ o _)

/-- The links below the limit are all read, and every number stands for its link. -/
theorem decodeEach_linkInputs {n : Nat} (h : n < maxLevels) :
    (decodeEach (linkInputs n) {}).2 = linkTypes n ∧
      .ok (some (link n)) ∈ (decodeEach (linkInputs n) {}).1 := by
  induction n with
  | zero =>
    have hempty : "".utf8ByteSize ≤ Wire.maxSize := Nat.zero_le _
    have hcount : ([] : List (String × Levelled)).length ≤ Wire.maxSize := Nat.zero_le _
    have hstruct := reads_struct hempty hcount (Reads.times_zero (decodeMember 63) .big {})
    have hread : decode?.Reads .big {} (linkOctets .big 0) (some (link 0)) (linkTypes 0) :=
      (reads_definition hstruct).bind_pure (Reads.pure _ .big _)
    have hrun := hread []
    rw [List.append_nil] at hrun
    rw [linkInputs, decodeEach_cons, hrun]
    exact ⟨rfl, List.mem_cons_self⟩
  | succ n ih =>
    have hrun := reads_linkOctets (if n % 2 = 0 then .little else .big) h []
    rw [List.append_nil] at hrun
    rw [linkInputs, decodeEach_append, (ih (Nat.lt_of_succ_lt h)).1, decodeEach_cons, hrun]
    exact ⟨rfl, List.mem_append_right _ List.mem_cons_self⟩

/-- The first link beyond the limit is refused and leaves the table as it was. -/
theorem run_linkOctets_at_limit (o : ByteOrder) :
    decode?.run o (linkTypes 63) (linkOctets o 64) =
      ⟨.error (.nestingTooDeep maxLevels), linkTypes 63, []⟩ := by
  have hempty : "".utf8ByteSize ≤ Wire.maxSize := Nat.zero_le _
  have hreference := run_decodeLevelled_reference o 63 (find?_linkTypes 63) []
  rw [if_pos (Nat.lt_succ_self 63)] at hreference
  have hmember : (decodeMember 63).run o (linkTypes 63)
      (Wire.string o "" ++ (referenceCode :: (Wire.word16 o 63 ++ []))) =
        ⟨.error (.nestingTooDeep maxLevels), linkTypes 63, []⟩ := by
    rw [decodeMember, run_bind_of_ok (Reads.string o (linkTypes 63) hempty _)]
    exact run_bind_of_error hreference
  have hbody := run_decodeBody_of_member hempty (show 0 + 1 ≤ Wire.maxSize by decide) hmember
  have hlevelled : (decodeLevelled maxLevels).run o (linkTypes 63) (linkOctets o 64) =
      ⟨.error (.nestingTooDeep maxLevels), linkTypes 63, []⟩ := by
    rw [linkOctets, decodeLevelled, run_octet_bind, if_neg (by decide), if_neg (by decide),
      if_pos rfl, run_bind_of_ok (Reads.word16 o (linkTypes 63) (UInt16.ofNat 64) _), run_octet_bind,
      List.append_assoc, List.append_assoc]
    exact run_bind_of_error hbody
  exact run_bind_of_error hlevelled

/-- A chain of references comes as far as the limit, and the next link does not get in. -/
theorem link_at_limit :
    (link 63).nesting = maxLevels ∧
      (.error (.nestingTooDeep maxLevels) ∈ (decodeEach (linkInputs 64) {}).1) ∧
      (.ok (some (link 63)) ∈ (decodeEach (linkInputs 64) {}).1 ∧ (link 63).nesting ≤ maxLevels) ∧
      (decodeEach (linkInputs 64) {}).2.find? 63 = some ⟨link 63, 64⟩ ∧
      (link 63).nesting ≤ maxLevels ∧ 64 = (link 63).levels := by
  obtain ⟨htypes, hread⟩ := decodeEach_linkInputs (show 63 < maxLevels by decide)
  have heach : decodeEach (linkInputs 64) {} =
      ((decodeEach (linkInputs 63) {}).1 ++ [.error (.nestingTooDeep maxLevels)],
        linkTypes 63) := by
    rw [linkInputs, decodeEach_append, htypes, decodeEach_cons, run_linkOctets_at_limit]
    rfl
  obtain ⟨hresults, hstored⟩ := nesting_limited (linkInputs 64)
  rw [heach] at hresults hstored ⊢
  have hread' := List.mem_append_left [.error (.nestingTooDeep maxLevels)] hread
  have hfind := find?_linkTypes 63
  exact ⟨nesting_link 63, List.mem_append_right _ List.mem_cons_self,
    ⟨hread', hresults (link 63) hread'⟩, hfind, hstored 63 ⟨link 63, 64⟩ hfind⟩

end Field

end PvNet
