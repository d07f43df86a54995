import PvNet.Proofs.Formats
set_option autoImplicit false

/-!
# Where items end

The octets of an item say themselves where the item ends.  What follows it has no
influence on what is read, and if the item is cut off, the decoder reports that octets
are missing, wherever the cut is (`Decoder.SelfDelimiting`).  So a receiver may try an
item as soon as some octets are there, and try it again when there are more.

No decoder looks further ahead than it consumes, so all that are composed of primitive
ones have this property.  The beacon has not: its status is optional, and whether there
is one depends on whether octets are left.
-/

namespace PvNet

namespace Decoder

variable {σ α β : Type}

/-- Wherever the octets of an item are cut off, the decoder reports that it needs more octets than
are left. -/
def TruncatedWithin (d : Decoder σ α) (o : ByteOrder) (s : σ) (item : Bytes) : Prop :=
  ∀ front cut, item = front ++ cut → cut ≠ [] →
    ∃ needed remaining, remaining < needed ∧
      (d.run o s front).result = .error (.truncated needed remaining)

/-- The decoder consumes octets from the front, and of those that it consumes when it succeeds it
needs every one and no other. -/
structure SelfDelimiting (d : Decoder σ α) : Prop where
  /-- Whether or not the decoder fails, what is left is at the end of the input. -/
  left : ∀ o s bs, (d.run o s bs).rest <:+ bs
  /-- What follows the consumed octets has no influence, and none of them can be left out. -/
  item : ∀ o s bs a s' rest, d.run o s bs = ⟨.ok a, s', rest⟩ →
    ∃ item, bs = item ++ rest ∧ d.Reads o s item a s' ∧ d.TruncatedWithin o s item

/-! ## Sequences -/

variable {d : Decoder σ α} {f : α → Decoder σ β} {o : ByteOrder} {s s' : σ} {bs cs : Bytes} {a : α}

theorem truncatedWithin_nil (d : Decoder σ α) (o : ByteOrder) (s : σ) :
    d.TruncatedWithin o s [] := by
  intro front cut heq hcut
  exact absurd (List.append_eq_nil_iff.1 heq.symm).2 hcut

theorem result_bind_of_error {e : WireError} (h : (d.run o s bs).result = .error e) :
    ((d >>= f).run o s bs).result = .error e := by
  rcases hrun : d.run o s bs with ⟨r, s', rest⟩
  rw [hrun] at h
  subst h
  rw [run_bind_of_error hrun]

/-- A sequence is cut off in the octets of its first decoder or in those of the second one. -/
theorem TruncatedWithin.bind (hd : d.TruncatedWithin o s bs) (hreads : d.Reads o s bs a s')
    (hf : (f a).TruncatedWithin o s' cs) : (d >>= f).TruncatedWithin o s (bs ++ cs) := by
  have hsecond : ∀ front cut, cs = front ++ cut → cut ≠ [] →
      ∃ needed remaining, remaining < needed ∧
        ((d >>= f).run o s (bs ++ front)).result = .error (.truncated needed remaining) := by
    intro front cut heq hcut
    rw [run_bind_of_ok (hreads front)]
    exact hf front cut heq hcut
  intro front cut heq hcut
  rcases List.append_eq_append_iff.1 heq with ⟨middle, rfl, hcs⟩ | ⟨middle, hbs, rfl⟩
  · exact hsecond middle cut hcs hcut
  · by_cases hmiddle : middle = []
    · -- The cut is between the two, and the second decoder has nothing to read.
      subst hmiddle
      rw [List.append_nil] at hbs
      rw [← hbs, ← List.append_nil bs]
      exact hsecond [] cs rfl hcut
    · obtain ⟨needed, remaining, hlt, hresult⟩ := hd front middle hbs hmiddle
      exact ⟨needed, remaining, hlt, result_bind_of_error hresult⟩

namespace SelfDelimiting

theorem bind (hd : d.SelfDelimiting) (hf : ∀ a, (f a).SelfDelimiting) :
    (d >>= f).SelfDelimiting := by
  refine ⟨?_, ?_⟩
  · intro o s bs
    have hfirst := hd.left o s bs
    rcases h : d.run o s bs with ⟨e | a, s', rest⟩
    · rw [h] at hfirst
      rw [run_bind_of_error h]
      exact hfirst
    · rw [h] at hfirst
      rw [run_bind_of_ok h]
      exact ((hf a).left o s' rest).trans hfirst
  · intro o s bs b s'' rest h
    obtain ⟨a, s', cs, hfirst, hsecond⟩ := exists_of_run_bind h
    obtain ⟨first, rfl, hreads, htruncated⟩ := hd.item o s bs a s' cs hfirst
    obtain ⟨second, rfl, hreads', htruncated'⟩ := (hf a).item o s' cs b s'' rest hsecond
    exact ⟨first ++ second, (List.append_assoc first second rest).symm, hreads.bind hreads',
      htruncated.bind hreads htruncated'⟩

/-- A decoder that consumes nothing and does not look at the octets. -/
theorem of_run (h : ∀ o s, ∃ r s', ∀ bs, d.run o s bs = ⟨r, s', bs⟩) : d.SelfDelimiting := by
  refine ⟨?_, ?_⟩
  · intro o s bs
    obtain ⟨r, s', hrun⟩ := h o s
    exact ⟨[], congrArg Outcome.rest (hrun bs)⟩
  · intro o s bs a s' rest hresult
    obtain ⟨r, s'', hrun⟩ := h o s
    rw [hrun] at hresult
    cases hresult
    exact ⟨[], rfl, hrun, truncatedWithin_nil d o s⟩

/-! ## Primitive decoders -/

theorem octet : (octet : Decoder σ UInt8).SelfDelimiting := by
  refine ⟨?_, ?_⟩
  · intro o s bs
    cases bs with
    | nil => exact List.suffix_refl []
    | cons b bs => exact List.suffix_cons b bs
  · intro o s bs a s' rest h
    cases bs with
    | nil => cases h
    | cons b bs =>
      cases h
      refine ⟨[a], rfl, Reads.octet o s a, ?_⟩
      intro front cut heq hcut
      cases front with
      | nil => exact ⟨1, 0, Nat.one_pos, rfl⟩
      | cons first front =>
        exact absurd (List.append_eq_nil_iff.1 (List.cons.inj heq).2.symm).2 hcut

theorem run_take_of_le {n : Nat} (o : ByteOrder) (s : σ) (h : n ≤ bs.length) :
    (Decoder.take n).run o s bs = ⟨.ok (bs.take n), s, bs.drop n⟩ :=
  if_pos ((hasAtLeast_iff n bs).2 h)

theorem run_take_of_lt {n : Nat} (o : ByteOrder) (s : σ) (h : bs.length < n) :
    (Decoder.take n).run o s bs = ⟨.error (.truncated n bs.length), s, bs⟩ :=
  if_neg (mt (hasAtLeast_iff n bs).1 (Nat.not_le.2 h))

theorem take (n : Nat) : (take n : Decoder σ Bytes).SelfDelimiting := by
  refine ⟨?_, ?_⟩
  · intro o s bs
    rcases Nat.lt_or_ge bs.length n with hlt | hle
    · exact ⟨[], congrArg Outcome.rest (run_take_of_lt o s hlt)⟩
    · rw [run_take_of_le o s hle]
      exact List.drop_suffix n bs
  · intro o s bs as s' rest h
    rcases Nat.lt_or_ge bs.length n with hlt | hle
    · rw [run_take_of_lt o s hlt] at h
      cases h
    · rw [run_take_of_le o s hle] at h
      cases h
      have hlength : (bs.take n).length = n := List.length_take_of_le hle
      have hreads := Reads.take o s (bs.take n)
      rw [hlength] at hreads
      refine ⟨bs.take n, (List.take_append_drop n bs).symm, hreads, ?_⟩
      intro front cut heq hcut
      have hlt : front.length < n := by
        rw [heq, List.length_append] at hlength
        have hpos := List.length_pos_iff.2 hcut
        omega
      exact ⟨n, front.length, hlt, by rw [run_take_of_lt o s hlt]⟩

end SelfDelimiting

/-- By induction on how the decoder is composed. -/
theorem Composed.selfDelimiting {other : WireError → Prop} (h : d.Composed other) :
    d.SelfDelimiting := by
  induction h with
  | pure a => exact .of_run fun _ _ => ⟨_, _, fun _ => rfl⟩
  | fail _ => exact .of_run fun _ _ => ⟨_, _, fun _ => rfl⟩
  | get => exact .of_run fun _ _ => ⟨_, _, fun _ => rfl⟩
  | modify f => exact .of_run fun _ _ => ⟨_, _, fun _ => rfl⟩
  | order => exact .of_run fun _ _ => ⟨_, _, fun _ => rfl⟩
  | octet => exact .octet
  | take n => exact .take n
  | bind _ _ ihd ihf => exact ihd.bind ihf

end Decoder

/-! ## All formats -/

/-- Every item but the beacon ends where its octets say, whatever follows it, whatever descriptors
are known and wherever it is cut off. -/
theorem items_delimit_themselves (σ : Type) :
    Field.decode?.SelfDelimiting ∧
      (∀ f : Field, (f.decodeValue : Decoder σ Value).SelfDelimiting) ∧
      Described.decode?.SelfDelimiting ∧
      (BitSet.decode : Decoder σ BitSet).SelfDelimiting ∧
      (Status.decode : Decoder σ Status).SelfDelimiting ∧
      (SearchRequest.decode : Decoder σ SearchRequest).SelfDelimiting ∧
      (SearchResponse.decode : Decoder σ SearchResponse).SelfDelimiting ∧
      (Greeting.decode : Decoder σ Greeting).SelfDelimiting ∧
      (Reply.decode : Decoder σ Reply).SelfDelimiting := by
  refine ⟨Field.composed_decode?.selfDelimiting, ?_, Described.composed_decode?.selfDelimiting,
    BitSet.plain_decode.selfDelimiting, Status.plain_decode.selfDelimiting,
    SearchRequest.plain_decode.selfDelimiting, SearchResponse.plain_decode.selfDelimiting,
    Greeting.plain_decode.selfDelimiting, Reply.plain_decode.selfDelimiting⟩
  intro f
  exact f.plain_decodeValue.selfDelimiting

end PvNet
