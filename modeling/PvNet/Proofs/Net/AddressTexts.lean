import Mathlib.Data.List.Basic
import PvNet.Net.AddressText
import PvNet.Proofs.Text.Cuts
import PvNet.Proofs.Text.Decimals
set_option autoImplicit false

/-!
# Addresses in texts

A text stands for an IPv4 address only if it is the very text of that address
(`Ipv4.ofText?_eq_some_iff`): four octets without leading zeros and nothing else.  So
the words that give an endpoint in an address list are such texts and the names of hosts
that have an IPv4 address (`Resolver.Knows`), alone or with a colon and a port behind
them (`Endpoint.isSome_ofWord?_iff`).  What a list gives can be written as a list that
gives it again, whatever names stand for by then
(`Endpoint.Listed.addressList_intercalate`).
-/

namespace PvNet

namespace Ipv4

/-! ## IPv4 addresses -/

theorem octets_ofOctets (a b c d : UInt8) : (ofOctets a b c d).octets = [a, b, c, d] := by
  have hlt := Nat.lt_of_lt_of_eq (ByteOrder.big.decode_lt [a, b, c, d])
    (show Nat.pow 256 4 = 2 ^ 32 by decide)
  rw [octets, ofOctets, BitVec.toNat_ofNat, Nat.mod_eq_of_lt hlt]
  exact ByteOrder.big.encode_decode [a, b, c, d]

theorem ofOctets_of_octets {a : Ipv4} {p q r t : UInt8} (h : a.octets = [p, q, r, t]) :
    ofOctets p q r t = a := by
  have hlt : a.bits.toNat < Nat.pow 256 4 := a.bits.isLt
  rw [ofOctets, ← h, octets, ByteOrder.decode_encode, Nat.mod_eq_of_lt hlt, BitVec.ofNat_toNat,
    BitVec.setWidth_eq]

theorem exists_eq_ofOctets (a : Ipv4) : ∃ p q r t, a = ofOctets p q r t := by
  have hlength := a.length_octets
  rcases ho : a.octets with _ | ⟨p, _ | ⟨q, _ | ⟨r, _ | ⟨t, _ | ⟨u, bs⟩⟩⟩⟩⟩ <;>
    simp [ho] at hlength
  exact ⟨p, q, r, t, (ofOctets_of_octets ho).symm⟩

theorem toNat_bits_ofOctets (a b c d : UInt8) :
    (ofOctets a b c d).bits.toNat =
      d.toNat + 256 * (c.toNat + 256 * (b.toNat + 256 * a.toNat)) := by
  have ha := a.toNat_lt
  have hb := b.toNat_lt
  have hc := c.toNat_lt
  have hd := d.toNat_lt
  simp [ofOctets, ByteOrder.decode, Wire.ofDigits]
  omega

/-- The first octet says whether an address belongs to the own host. -/
theorem isLoopback_ofOctets_iff {a b c d : UInt8} :
    (ofOctets a b c d).isLoopback ↔ a = 127 := by
  have hnet : (localhost.bits >>> 24).toNat = 127 := by decide
  rw [isLoopback, isWithin, beq_iff_eq, ← BitVec.toNat_inj, hnet, BitVec.toNat_ushiftRight,
    toNat_bits_ofOctets, Nat.shiftRight_eq_div_pow, ← UInt8.toNat_inj]
  have hb := b.toNat_lt
  have hc := c.toNat_lt
  have hd := d.toNat_lt
  simp
  omega

/-- The first octet says whether an address names a group. -/
theorem isMulticast_ofOctets_iff {a b c d : UInt8} :
    (ofOctets a b c d).isMulticast ↔ 224 ≤ a ∧ a ≤ 239 := by
  have hnet : ((ofOctets 224 0 0 0).bits >>> 28).toNat = 14 := by decide
  rw [isMulticast, isWithin, beq_iff_eq, ← BitVec.toNat_inj, hnet, BitVec.toNat_ushiftRight,
    toNat_bits_ofOctets, Nat.shiftRight_eq_div_pow, UInt8.le_iff_toNat_le, UInt8.le_iff_toNat_le]
  have hb := b.toNat_lt
  have hc := c.toNat_lt
  have hd := d.toNat_lt
  simp
  omega

theorem octetOf?_eq_some_iff {s : String} {b : UInt8} :
    octetOf? s = some b ↔ s = toString b.toNat := by
  rw [Nat.toString_eq_ofList_toDigits, ← String.toList_inj, String.toList_ofList]
  simp only [octetOf?, Option.ite_none_left_eq_some, Option.bind_eq_bind, Option.bind_eq_some_iff,
    Option.ite_none_right_eq_some, Option.some.injEq, Decimal.ofDigits?_eq_some_iff]
  constructor
  · rintro ⟨hform, n, hn, hlt, rfl⟩
    have hzero : s.toList.length = 1 ∨ s.toList.head? ≠ some '0' := by
      have hlength := List.length_pos_iff.mpr hn.ne_nil
      by_cases hhead : s.toList.head? = some '0'
      · have hshort := (not_or.mp hform).2
        exact .inl (Nat.le_antisymm (Nat.not_lt.mp fun h => hshort ⟨h, hhead⟩) hlength)
      · exact .inr hhead
    rw [UInt8.toNat_ofNat_of_lt' hlt]
    exact hn.eq_toDigits hzero
  · intro h
    rw [h]
    refine ⟨?_, b.toNat, Decimal.digits_toDigits _, b.toNat_lt, UInt8.ofNat_toNat⟩
    have hthree : (Nat.toDigits 10 b.toNat).length ≤ 3 :=
      (Nat.length_toDigits_le_iff (by decide) (by decide)).mpr (Nat.lt_trans b.toNat_lt (by decide))
    rintro (hlong | ⟨hlong, hzero⟩)
    · omega
    · rcases Nat.eq_zero_or_pos b.toNat with h0 | hpos
      · rw [h0] at hlong
        exact absurd hlong (by decide)
      · exact Decimal.head?_toDigits hpos hzero

theorem mapM_octetOf?_eq_some_iff {parts : List String} {bs : Bytes} :
    parts.mapM octetOf? = some bs ↔ parts = bs.map fun b => toString b.toNat := by
  induction parts generalizing bs with
  | nil => cases bs <;> simp
  | cons part parts ih =>
    cases bs with
    | nil =>
      simp only [List.mapM_cons, Option.bind_eq_bind, Option.bind_eq_some_iff]
      simp
    | cons b bs =>
      simp only [List.mapM_cons, Option.bind_eq_bind, Option.bind_eq_some_iff, Option.pure_def,
        Option.some.injEq, List.cons.injEq, octetOf?_eq_some_iff, ih, List.map_cons]
      constructor
      · rintro ⟨_, rfl, _, rfl, rfl, rfl⟩
        exact ⟨rfl, rfl⟩
      · rintro ⟨rfl, rfl⟩
        exact ⟨b, rfl, bs, rfl, rfl, rfl⟩

/-- Octets are written with digits only. -/
theorem not_mem_octet {c : Char} (hc : c.isDigit = false) (bs : Bytes) :
    ∀ part ∈ bs.map fun b => toString b.toNat, c ∉ part.toList := by
  intro part hpart hmem
  obtain ⟨b, -, rfl⟩ := List.mem_map.mp hpart
  rw [Nat.toString_eq_ofList_toDigits, String.toList_ofList] at hmem
  rw [Nat.isDigit_of_mem_toDigits (by decide) (by decide) hmem] at hc
  cases hc

/-- The text of an address is the only one that stands for it. -/
theorem ofText?_eq_some_iff {s : String} {a : Ipv4} : ofText? s = some a ↔ s = a.text := by
  have hfields (bs : Bytes) (hbs : bs ≠ []) : (Text.fields '.' s).mapM octetOf? = some bs ↔
      s = ".".intercalate (bs.map fun b => toString b.toNat) := by
    rw [mapM_octetOf?_eq_some_iff]
    exact Text.fields_eq_iff (by simpa using hbs) (not_mem_octet (by decide) bs)
  constructor
  · intro h
    cases hparse : (Text.fields '.' s).mapM octetOf? with
    | none => simp [ofText?, hparse] at h
    | some bs =>
      rcases bs with _ | ⟨p, _ | ⟨q, _ | ⟨r, _ | ⟨t, _ | ⟨u, bs⟩⟩⟩⟩⟩ <;>
        simp only [ofText?, hparse, Option.some.injEq, reduceCtorEq] at h
      subst h
      rw [text, octets_ofOctets]
      exact (hfields _ (by simp)).mp hparse
  · rintro rfl
    obtain ⟨p, q, r, t, rfl⟩ := a.exists_eq_ofOctets
    have hparse := (hfields [p, q, r, t] (by simp)).mpr (by rw [text, octets_ofOctets])
    rw [ofText?, hparse]

/-- The text of an address has digits and points only. -/
theorem not_mem_text {a : Ipv4} {c : Char} (hdigit : c.isDigit = false) (hpoint : c ≠ '.') :
    c ∉ a.text.toList := by
  intro hmem
  rw [text, String.toList_intercalate] at hmem
  rcases Text.mem_intercalate hmem with h | ⟨cs, hcs, hc⟩
  · exact hpoint (by simpa using h)
  · obtain ⟨part, hpart, rfl⟩ := List.mem_map.mp hcs
    exact not_mem_octet hdigit a.octets part hpart hc

theorem not_blank_of_mem_text {a : Ipv4} {c : Char} (h : c ∈ a.text.toList) :
    Text.isBlank c = false := by
  cases hdigit : c.isDigit with
  | true => exact Decimal.isBlank_of_isDigit hdigit
  | false =>
    by_cases hpoint : c = '.'
    · rw [hpoint]
      decide
    · exact absurd h (not_mem_text hdigit hpoint)

end Ipv4

namespace Resolver

variable {names : Resolver} {host : String}

/-- A host has an IPv4 address: it is one, or it is the name of a host that has one. -/
def Knows (names : Resolver) (host : String) : Prop :=
  (∃ a : Ipv4, host = a.text) ∨ (IpAddress.ofText? host = none ∧ ∃ a, IpAddress.v4 a ∈ names host)

theorem addresses_text_v4 (names : Resolver) (a : Ipv4) : names.addresses a.text = [.v4 a] := by
  rw [addresses, IpAddress.ofText?, Ipv4.ofText?_eq_some_iff.mpr rfl]

theorem ipv4?_text (names : Resolver) (a : Ipv4) : names.ipv4? a.text = some a := by
  rw [ipv4?, addresses_text_v4]
  rfl

theorem isSome_ipv4?_iff : (names.ipv4? host).isSome ↔ names.Knows host := by
  have hfound : ∀ as : List IpAddress,
      (as.findSome? IpAddress.v4?).isSome ↔ ∃ a : Ipv4, IpAddress.v4 a ∈ as := by
    intro as
    rw [List.isSome_findSome?, List.any_eq_true]
    constructor
    · rintro ⟨_ | _, hmem, hsome⟩
      · exact ⟨_, hmem⟩
      · cases hsome
    · rintro ⟨a, hmem⟩
      exact ⟨_, hmem, rfl⟩
  rw [ipv4?, hfound, Knows, addresses]
  cases hv4 : Ipv4.ofText? host with
  | some a =>
    have htext := Ipv4.ofText?_eq_some_iff.mp hv4
    simp only [IpAddress.ofText?, hv4]
    exact iff_of_true ⟨a, List.mem_singleton_self _⟩ (.inl ⟨a, htext⟩)
  | none =>
    have hno : ¬ ∃ a : Ipv4, host = a.text := by
      rintro ⟨a, rfl⟩
      rw [Ipv4.ofText?_eq_some_iff.mpr rfl] at hv4
      cases hv4
    rw [or_iff_right hno]
    cases hv6 : Ipv6.ofText? host with
    | some a => simp [IpAddress.ofText?, hv4, hv6]
    | none => simp [IpAddress.ofText?, hv4, hv6]

end Resolver

namespace Endpoint

/-- A word is a host, alone or with a colon and something else behind it. -/
def NamesHost (word host : String) : Prop :=
  (':' ∉ word.toList ∧ host = word) ∨ ∃ own : String, ':' ∉ own.toList ∧ word = host ++ ":" ++ own

theorem namesHost_iff (port : UInt16) {word host : String} :
    NamesHost word host ↔ (hostAndPort port word).1 = host := by
  rcases Text.cutLast?_cases ':' word with ⟨hmem, hcut⟩ | ⟨front, own, hown, rfl, hcut⟩
  · rw [hostAndPort, hcut]
    constructor
    · rintro (⟨-, rfl⟩ | ⟨own, -, rfl⟩)
      · rfl
      · exact absurd (by simp) hmem
    · rintro rfl
      exact .inl ⟨hmem, rfl⟩
  · rw [hostAndPort, hcut]
    constructor
    · rintro (⟨hnone, -⟩ | ⟨own', hown', htext⟩)
      · exact absurd (by simp) hnone
      · rw [htext, show host ++ ":" ++ own' = host ++ String.singleton ':' ++ own' from rfl,
          Text.cutLast?_append hown' host] at hcut
        cases hcut
        rfl
    · rintro rfl
      exact .inr ⟨own, hown, rfl⟩

/-- A word gives an endpoint exactly if its host has an IPv4 address. -/
theorem isSome_ofWord?_iff {names : Resolver} {port : UInt16} {word : String} :
    (ofWord? names port word).isSome ↔ ∃ host, NamesHost word host ∧ names.Knows host := by
  simp only [namesHost_iff port, exists_eq_left', ofWord?, Option.isSome_map,
    Resolver.isSome_ipv4?_iff]

/-- The first IPv4 address of a name counts. -/
example :
    ofWord? (fun name => if name = "ioc" then [.v6 (.ofGroups []), .v4 .localhost] else [])
      5076 "ioc:7" = some ⟨.v4 .localhost, 7⟩ := by
  cbv

/-! ## IPv4 endpoints -/

theorem text_v4 (a : Ipv4) (port : UInt16) :
    (⟨.v4 a, port⟩ : Endpoint).text = a.text ++ String.singleton ':' ++ toString port.toNat := rfl

theorem isWord_text_v4 (a : Ipv4) (port : UInt16) :
    Text.IsWord (⟨.v4 a, port⟩ : Endpoint).text := by
  rw [text_v4]
  refine ⟨by simp, fun c hc => ?_⟩
  simp only [String.toList_append, String.toList_singleton, List.mem_append,
    List.mem_singleton] at hc
  rcases hc with (hc | rfl) | hc
  · exact Ipv4.not_blank_of_mem_text hc
  · decide
  · exact Decimal.isBlank_of_isDigit (Decimal.isDigit_of_mem_toString hc)

/-- The text of an IPv4 endpoint gives this endpoint, whatever the default port is and whatever
names stand for. -/
theorem ofWord?_text_v4 (names : Resolver) (port : UInt16) (a : Ipv4) (own : UInt16) :
    ofWord? names port (⟨.v4 a, own⟩ : Endpoint).text = some ⟨.v4 a, own⟩ := by
  have hport : ':' ∉ (toString own.toNat).toList := fun h =>
    absurd (Decimal.isDigit_of_mem_toString h) (by decide)
  have hparts : hostAndPort port (⟨.v4 a, own⟩ : Endpoint).text = (a.text, own) := by
    rw [text_v4, hostAndPort, Text.cutLast?_append hport a.text]
    simp only [Decimal.word16?_toString, Option.getD_some]
  simp only [ofWord?, hparts, Resolver.ipv4?_text, Option.map_some]

theorem exists_v4_of_ofWord? {names : Resolver} {port : UInt16} {word : String} {e : Endpoint}
    (h : ofWord? names port word = some e) : ∃ a own, e = ⟨.v4 a, own⟩ := by
  rw [ofWord?, Option.map_eq_some_iff] at h
  obtain ⟨a, -, rfl⟩ := h
  exact ⟨a, _, rfl⟩

/-! ## Address lists -/

/-- What an address list gives: IPv4 endpoints, each one once. -/
structure Listed (es : List Endpoint) : Prop where
  v4 : ∀ e ∈ es, ∃ a port, e = ⟨.v4 a, port⟩
  nodup : es.Nodup

theorem nodup_eraseDups (es : List Endpoint) : es.eraseDups.Nodup := by
  cases es with
  | nil => simp
  | cons e es =>
    rw [List.eraseDups_cons, List.nodup_cons]
    exact ⟨by simp, nodup_eraseDups _⟩
termination_by es.length
decreasing_by exact Nat.lt_succ_of_le (List.length_filter_le _ _)

theorem eraseDups_eq_self {es : List Endpoint} (h : es.Nodup) : es.eraseDups = es := by
  induction es with
  | nil => rfl
  | cons e es ih =>
    rw [List.nodup_cons] at h
    have hothers : es.filter (fun other => !other == e) = es := by
      rw [List.filter_eq_self]
      intro other hother
      have hne : other ≠ e := fun heq => h.1 (heq ▸ hother)
      simpa using hne
    rw [List.eraseDups_cons, hothers, ih h.2]

theorem listed_addressList (names : Resolver) (list : String) (port : UInt16) :
    Listed (addressList names list port) := by
  refine ⟨fun e he => ?_, nodup_eraseDups _⟩
  rw [addressList, List.mem_eraseDups] at he
  obtain ⟨word, -, hword⟩ := List.mem_filterMap.mp he
  exact exists_v4_of_ofWord? hword

/-- The texts of such endpoints, with one blank between them, make a list that gives them. -/
theorem Listed.addressList_intercalate {es : List Endpoint} (h : Listed es) (names : Resolver)
    (port : UInt16) : addressList names (" ".intercalate (es.map text)) port = es := by
  have hwords : ∀ word ∈ es.map text, Text.IsWord word := by
    intro word hword
    obtain ⟨e, he, rfl⟩ := List.mem_map.mp hword
    obtain ⟨a, own, rfl⟩ := h.v4 e he
    exact isWord_text_v4 a own
  have hread : (es.map text).filterMap (ofWord? names port) = es := by
    have hsome : ∀ e ∈ es, ofWord? names port e.text = some e := by
      intro e he
      obtain ⟨a, own, rfl⟩ := h.v4 e he
      exact ofWord?_text_v4 names port a own
    simp only [List.filterMap_map, Function.comp_def]
    rw [List.filterMap_congr hsome, List.filterMap_some]
  rw [addressList, Text.words_intercalate hwords, hread, eraseDups_eq_self h.nodup]

end Endpoint

theorem addressList_eq_nil_iff {names : Resolver} {list : String} {port : UInt16} :
    addressList names list port = [] ↔
      ∀ word ∈ Text.words list, Endpoint.ofWord? names port word = none := by
  rw [← List.filterMap_eq_nil_iff, addressList]
  cases (Text.words list).filterMap (Endpoint.ofWord? names port) with
  | nil => simp
  | cons e es => simp [List.eraseDups_cons]

end PvNet
