import Mathlib.Data.List.Forall2
import PvNet.Net.Broadcast
import PvNet.Proofs.Net.AddressTexts
import PvNet.Proofs.Text.Blanks
import PvNet.Proofs.Text.Cuts
import PvNet.Proofs.Text.Decimals
set_option autoImplicit false

/-!
# Special networks in texts

The texts that stand for a special network: up to four octets with points between
them, a slash, a count of bits, a colon and another count of bits.  Blanks around the
numbers do not count (`NetworkRule.isSome_ofText?_iff`).  Such a text says which special
network it stands for (`NetworkRule.ofText?_eq_some_iff`), and each of them is written as
one (`NetworkRule.Valid.writtenAs_text`).
-/

namespace PvNet.NetworkRule

/-- The three parts of a text that stands for a special network. -/
structure Parts (network mask length : String) : Prop where
  octets : ∀ part ∈ Text.fields '.' network, ∃ n, Decimal.Whole (Text.trim part) n ∧ n < 256
  atMostFour : (Text.fields '.' network).length ≤ 4
  maskBits : ∃ n, Decimal.Whole (Text.trim mask) n ∧ n ≤ 32
  lengthBits : ∃ n, Decimal.Whole (Text.trim length) n ∧ n ≤ 32

/-- A text that stands for a special network. -/
def Written (s : String) : Prop :=
  ∃ network mask length : String, '/' ∉ network.toList ∧ ':' ∉ mask.toList ∧
    s = network ++ "/" ++ (mask ++ ":" ++ length) ∧ Parts network mask length

/-- The three parts of a text that stands for a given special network. -/
structure Contents (r : NetworkRule) (network mask length : String) : Prop where
  octets : List.Forall₂ (fun part (b : UInt8) => Decimal.Whole (Text.trim part) b.toNat)
    (Text.fields '.' network) r.network
  atMostFour : r.network.length ≤ 4
  maskBits : Decimal.Whole (Text.trim mask) r.mask
  mask_le : r.mask ≤ 32
  lengthBits : Decimal.Whole (Text.trim length) r.length
  length_le : r.length ≤ 32

/-- A text that stands for a given special network. -/
def WrittenAs (r : NetworkRule) (s : String) : Prop :=
  ∃ network mask length : String, '/' ∉ network.toList ∧ ':' ∉ mask.toList ∧
    s = network ++ "/" ++ (mask ++ ":" ++ length) ∧ Contents r network mask length

theorem octet?_eq_some_iff {s : String} {b : UInt8} :
    Decimal.octet? s = some b ↔ Decimal.Whole s b.toNat := by
  simp only [Decimal.octet?, Option.map_eq_some_iff, Decimal.below?_eq_some_iff]
  constructor
  · rintro ⟨n, ⟨hn, hlt⟩, rfl⟩
    rwa [UInt8.toNat_ofNat_of_lt' hlt]
  · intro h
    exact ⟨b.toNat, ⟨h, b.toNat_lt⟩, UInt8.ofNat_toNat⟩

theorem bitCount?_eq_some_iff {s : String} {n : Nat} :
    bitCount? s = some n ↔ Decimal.Whole (Text.trim s) n ∧ n ≤ 32 := by
  simp only [bitCount?, Option.filter_eq_some_iff, Decimal.below?_eq_some_iff, decide_eq_true_eq]
  exact ⟨fun h => ⟨h.1.1, h.2⟩, fun h => ⟨⟨h.1, by omega⟩, h.2⟩⟩

/-- A list is read in full exactly if every item is read. -/
theorem mapM_eq_some_iff {α β : Type} {read? : α → Option β} {items : List α} {results : List β} :
    items.mapM read? = some results ↔
      List.Forall₂ (fun item b => read? item = some b) items results := by
  induction items generalizing results with
  | nil => cases results <;> simp
  | cons item items ih =>
    simp only [List.mapM_cons, Option.bind_eq_bind, Option.bind_eq_some_iff, Option.pure_def,
      Option.some.injEq, ih, List.forall₂_cons_left_iff]
    constructor
    · rintro ⟨b, hb, bs, hbs, rfl⟩
      exact ⟨b, bs, hb, hbs, rfl⟩
    · rintro ⟨b, bs, hb, hbs, rfl⟩
      exact ⟨b, hb, bs, hbs, rfl⟩

/-- The reader of one item, once it is cut into its three parts. -/
theorem ofText?_append_eq_some_iff {r : NetworkRule} {network mask length : String}
    (hnetwork : '/' ∉ network.toList) (hmask : ':' ∉ mask.toList) :
    ofText? (network ++ "/" ++ (mask ++ ":" ++ length)) = some r ↔
      Contents r network mask length := by
  have hslash : Text.cutFirst? '/' (network ++ "/" ++ (mask ++ ":" ++ length)) =
      some (network, mask ++ ":" ++ length) := Text.cutFirst?_append hnetwork _
  have hcolon : Text.cutFirst? ':' (mask ++ ":" ++ length) = some (mask, length) :=
    Text.cutFirst?_append hmask _
  simp only [ofText?, hslash, hcolon, Option.bind_eq_bind, Option.bind_some,
    Option.bind_eq_some_iff, Option.ite_none_left_eq_some, Option.pure_def, Option.some.injEq,
    mapM_eq_some_iff, octet?_eq_some_iff, bitCount?_eq_some_iff]
  constructor
  · rintro ⟨octets, hoctets, hcount, bits, hbits, count, hlength, rfl⟩
    exact ⟨hoctets, Nat.not_lt.mp (not_or.mp hcount).2, hbits.1, hbits.2, hlength.1, hlength.2⟩
  · intro h
    have hne : r.network.isEmpty = false := by
      rw [List.isEmpty_eq_false_iff, ← List.length_pos_iff, ← h.octets.length_eq]
      simp [Text.fields, List.length_pos_iff, List.splitOn_ne_nil]
    exact ⟨r.network, h.octets, by simp [hne, h.atMostFour], r.mask, ⟨h.maskBits, h.mask_le⟩,
      r.length, ⟨h.lengthBits, h.length_le⟩, rfl⟩

/-- The reader gives exactly the special network that a text stands for. -/
theorem ofText?_eq_some_iff {r : NetworkRule} {s : String} :
    ofText? s = some r ↔ r.WrittenAs s := by
  constructor
  · intro h
    rcases Text.cutFirst?_cases '/' s with ⟨-, hcut⟩ | ⟨network, info, hnetwork, rfl, hcut⟩
    · simp [ofText?, hcut] at h
    rcases Text.cutFirst?_cases ':' info with ⟨-, hcut'⟩ | ⟨mask, length, hmask, rfl, hcut'⟩
    · rw [ofText?, hcut] at h
      simp [hcut'] at h
    exact ⟨network, mask, length, hnetwork, hmask, rfl,
      (ofText?_append_eq_some_iff hnetwork hmask).mp h⟩
  · rintro ⟨network, mask, length, hnetwork, hmask, rfl, hcontents⟩
    exact (ofText?_append_eq_some_iff hnetwork hmask).mpr hcontents

/-- Three parts stand for a special network exactly if each of them has the right form. -/
theorem exists_contents_iff {network mask length : String} :
    (∃ r, Contents r network mask length) ↔ Parts network mask length := by
  constructor
  · rintro ⟨r, h⟩
    have hlength := h.octets.length_eq
    refine ⟨fun part hpart => ?_, hlength ▸ h.atMostFour, ⟨_, h.maskBits, h.mask_le⟩,
      ⟨_, h.lengthBits, h.length_le⟩⟩
    obtain ⟨i, hi, rfl⟩ := List.getElem_of_mem hpart
    exact ⟨_, (List.forall₂_iff_get.mp h.octets).2 i hi (hlength ▸ hi), UInt8.toNat_lt _⟩
  · intro h
    obtain ⟨bits, hbits, hbits_le⟩ := h.maskBits
    obtain ⟨count, hcount, hcount_le⟩ := h.lengthBits
    choose! value hvalue using h.octets
    refine ⟨⟨(Text.fields '.' network).map (UInt8.ofNat <| value ·), bits, count⟩, ?_, ?_, hbits,
      hbits_le, hcount, hcount_le⟩
    · rw [List.forall₂_map_right_iff, List.forall₂_same]
      intro part hpart
      obtain ⟨hwhole, hlt⟩ := hvalue part hpart
      rwa [UInt8.toNat_ofNat_of_lt' hlt]
    · simpa using h.atMostFour

/-- The reader accepts exactly the texts of special networks. -/
theorem isSome_ofText?_iff {s : String} : (ofText? s).isSome ↔ Written s := by
  simp only [Option.isSome_iff_exists, ofText?_eq_some_iff, WrittenAs, Written,
    ← exists_contents_iff]
  constructor
  · rintro ⟨r, network, mask, length, hnetwork, hmask, rfl, h⟩
    exact ⟨network, mask, length, hnetwork, hmask, rfl, r, h⟩
  · rintro ⟨network, mask, length, hnetwork, hmask, rfl, r, h⟩
    exact ⟨r, network, mask, length, hnetwork, hmask, rfl, h⟩

/-! ## What can be written -/

/-- A special network that some text stands for. -/
structure Valid (r : NetworkRule) : Prop where
  ne_nil : r.network ≠ []
  atMostFour : r.network.length ≤ 4
  mask_le : r.mask ≤ 32
  length_le : r.length ≤ 32

theorem WrittenAs.valid {r : NetworkRule} {s : String} (h : r.WrittenAs s) : r.Valid := by
  obtain ⟨network, mask, length, -, -, -, hcontents⟩ := h
  refine ⟨fun hnil => ?_, hcontents.atMostFour, hcontents.mask_le, hcontents.length_le⟩
  have hlength := hcontents.octets.length_eq
  simp [Text.fields, hnil, List.splitOn_ne_nil] at hlength

/-- Apart from blanks, the text of a special network has only digits, plus signs, and the marks
between its parts. -/
theorem WrittenAs.not_mem {r : NetworkRule} {s : String} (h : r.WrittenAs s) {c : Char}
    (hblank : Text.isBlank c = false) (hdigit : c.isDigit = false)
    (hmarks : c ∉ ['+', '.', '/', ':']) : c ∉ s.toList := by
  obtain ⟨network, mask, length, -, -, rfl, hcontents⟩ := h
  simp only [List.mem_cons, List.not_mem_nil, or_false, not_or] at hmarks
  obtain ⟨hplus, hpoint, hslash, hcolon⟩ := hmarks
  have hnumber {part : String} {n : Nat} (hn : Decimal.Whole (Text.trim part) n) :
      c ∉ part.toList := fun hc => by
    rcases hn.isDigit_or_plus c (Text.mem_trim_of_mem hblank hc) with h | h
    · exact absurd (hdigit.symm.trans h) Bool.false_ne_true
    · exact hplus h
  have hnetwork : c ∉ network.toList := by
    intro hc
    obtain ⟨part, hpart, hc⟩ := Text.exists_field_of_mem hpoint hc
    obtain ⟨n, hn, -⟩ := (exists_contents_iff.mp ⟨r, hcontents⟩).octets part hpart
    exact hnumber hn hc
  simp [hnetwork, hslash, hcolon, hnumber hcontents.maskBits, hnumber hcontents.lengthBits]

theorem text_eq (r : NetworkRule) :
    r.text = ".".intercalate (r.network.map fun b => toString b.toNat) ++ "/" ++
      (toString r.mask ++ ":" ++ toString r.length) := by
  simp only [text, String.append_assoc]
  rfl

/-- The text of a special network has digits and marks only. -/
theorem not_blank_of_mem_text {r : NetworkRule} {c : Char} (h : c ∈ r.text.toList) :
    Text.isBlank c = false := by
  have hdigits (n : Nat) : ∀ c ∈ (toString n).toList, Text.isBlank c = false := fun _ hc =>
    Decimal.isBlank_of_isDigit (Decimal.isDigit_of_mem_toString hc)
  rw [text_eq] at h
  simp only [String.toList_append, List.mem_append] at h
  rcases h with (h | h) | (h | h) | h
  · have hpoint : ∀ c ∈ ".".toList, Text.isBlank c = false := by
      intro c hc
      rw [show c = '.' by simpa using hc]
      decide
    refine Text.forall_mem_intercalate hpoint (fun part hpart => ?_) c h
    obtain ⟨b, -, rfl⟩ := List.mem_map.mp hpart
    exact hdigits b.toNat
  · rw [show c = '/' by simpa using h]
    decide
  · exact hdigits _ c h
  · rw [show c = ':' by simpa using h]
    decide
  · exact hdigits _ c h

theorem trim_text (r : NetworkRule) : Text.trim r.text = r.text :=
  Text.trim_eq_self_of_forall fun _ => not_blank_of_mem_text

/-- Every special network that can be read is written as a text that stands for it. -/
theorem Valid.writtenAs_text {r : NetworkRule} (h : r.Valid) : r.WrittenAs r.text := by
  have hfields : Text.fields '.' (".".intercalate (r.network.map fun b => toString b.toNat)) =
      r.network.map fun b => toString b.toNat :=
    (Text.fields_eq_iff (by simpa using h.ne_nil) (Ipv4.not_mem_octet (by decide) _)).mpr rfl
  refine ⟨_, _, _, fun hslash => ?_, fun hcolon => ?_, r.text_eq, ?_, h.atMostFour, ?_, h.mask_le,
    ?_, h.length_le⟩
  · have hne : '/' ≠ '.' := by decide
    obtain ⟨part, hpart, hslash⟩ := Text.exists_field_of_mem hne hslash
    rw [hfields] at hpart
    exact Ipv4.not_mem_octet (by decide) _ part hpart hslash
  · exact absurd (Decimal.isDigit_of_mem_toString hcolon) (by decide)
  · rw [hfields, List.forall₂_map_left_iff, List.forall₂_same]
    intro b _
    rw [Decimal.trim_toString]
    exact Decimal.whole_toString _
  · rw [Decimal.trim_toString]
    exact Decimal.whole_toString _
  · rw [Decimal.trim_toString]
    exact Decimal.whole_toString _

end PvNet.NetworkRule
