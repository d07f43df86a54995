import Mathlib.Data.List.Forall2
import PvNet.Proofs.Discovery.Batches
set_option autoImplicit false

/-!
# Searches in as few datagrams as possible

A datagram is begun only when the next search does not fit into the one that is being
filled.  How many more datagrams are needed depends on how full that one is, but a full
one costs no more than one datagram extra (`length_groupsFrom_le`).  So whatever group
another division takes off the front, the division made here has used up as much, and no
other division needs fewer datagrams (`length_groups_le`).

Each datagram is one search message.  It is accepted as such unless it carries a single
search that is too large for any datagram.
-/

namespace PvNet

namespace SearchManager

variable {m : SearchManager} {sequence : UInt32} {budget headSize size size' : Nat}
  {group group' entries front : List SearchEntry} {e : SearchEntry}

/-! ## Filling a datagram -/

theorem groupsFrom_nil_of_ne_nil (hgroup : group ≠ []) :
    groupsFrom budget headSize group size [] = [group.reverse] := by
  rw [groupsFrom, List.isEmpty_eq_false_iff.2 hgroup]
  rfl

theorem groupsFrom_of_full (hgroup : group ≠ []) (hfull : budget < size + e.wireSize) :
    groupsFrom budget headSize group size (e :: entries) =
      group.reverse :: groupsFrom budget headSize [e] (headSize + e.wireSize) entries := by
  rw [groupsFrom, List.isEmpty_eq_false_iff.2 hgroup]
  exact if_pos ⟨rfl, hfull⟩

theorem groupsFrom_of_room (hroom : group = [] ∨ size + e.wireSize ≤ budget) :
    groupsFrom budget headSize group size (e :: entries) =
      groupsFrom budget headSize (e :: group) (size + e.wireSize) entries := by
  rw [groupsFrom, if_neg]
  rintro ⟨hsome, hfull⟩
  rcases hroom with rfl | hroom
  · cases hsome
  · omega

/-- The emptier the datagram that is being filled, the fewer datagrams are needed; but however full
it is, the difference is at most one datagram.  One half is proved with the other: where only the
fuller datagram is closed, the emptier one is ahead of a fresh one. -/
theorem length_groupsFrom_le (hgroup : group ≠ []) (hgroup' : group' ≠ [])
    (hsize : headSize ≤ size) (hsize' : headSize ≤ size') :
    (size ≤ size' → (groupsFrom budget headSize group size entries).length ≤
        (groupsFrom budget headSize group' size' entries).length) ∧
      (groupsFrom budget headSize group size entries).length ≤
        (groupsFrom budget headSize group' size' entries).length + 1 := by
  induction entries generalizing group group' size size' with
  | nil =>
    rw [groupsFrom_nil_of_ne_nil hgroup, groupsFrom_nil_of_ne_nil hgroup']
    exact ⟨fun _ => Nat.le_refl _, Nat.le_succ _⟩
  | cons e es ih =>
    have hfresh : headSize ≤ headSize + e.wireSize := Nat.le_add_right _ _
    have hgrown : headSize ≤ size + e.wireSize := Nat.le_add_right_of_le hsize
    have hgrown' : headSize ≤ size' + e.wireSize := Nat.le_add_right_of_le hsize'
    have hone : [e] ≠ [] := List.cons_ne_nil _ _
    have hmore : e :: group ≠ [] := List.cons_ne_nil _ _
    have hmore' : e :: group' ≠ [] := List.cons_ne_nil _ _
    rcases Nat.lt_or_ge budget (size + e.wireSize) with hfull | hroom
    · rw [groupsFrom_of_full hgroup hfull, List.length_cons]
      rcases Nat.lt_or_ge budget (size' + e.wireSize) with hfull' | hroom'
      · rw [groupsFrom_of_full hgroup' hfull', List.length_cons]
        exact ⟨fun _ => Nat.le_refl _, Nat.le_succ _⟩
      · rw [groupsFrom_of_room (.inr hroom')]
        have hahead := (ih hone hmore' hfresh hgrown').1 (by omega)
        exact ⟨fun hle => by omega, Nat.succ_le_succ hahead⟩
    · rw [groupsFrom_of_room (.inr hroom)]
      rcases Nat.lt_or_ge budget (size' + e.wireSize) with hfull' | hroom'
      · rw [groupsFrom_of_full hgroup' hfull', List.length_cons]
        have hclose := (ih hmore hone hgrown hfresh).2
        exact ⟨fun _ => hclose, Nat.le_succ_of_le hclose⟩
      · rw [groupsFrom_of_room (.inr hroom')]
        obtain ⟨hahead, hclose⟩ := ih hmore hmore' hgrown hgrown'
        exact ⟨fun hle => hahead (by omega), hclose⟩

/-- A datagram that has been begun is at most one more than those for the entries that are left. -/
theorem length_groupsFrom_le_succ (hgroup : group ≠ []) (hsize : headSize ≤ size) :
    (groupsFrom budget headSize group size entries).length ≤
      (groupsFrom budget headSize [] headSize entries).length + 1 := by
  cases entries with
  | nil =>
    rw [groupsFrom_nil_of_ne_nil hgroup]
    exact Nat.le_add_left _ _
  | cons e es =>
    have hfresh : headSize ≤ headSize + e.wireSize := Nat.le_add_right _ _
    rw [groupsFrom_of_room (.inl rfl)]
    rcases Nat.lt_or_ge budget (size + e.wireSize) with hfull | hroom
    · rw [groupsFrom_of_full hgroup hfull]
      exact Nat.le_refl _
    · rw [groupsFrom_of_room (.inr hroom)]
      exact (length_groupsFrom_le (List.cons_ne_nil _ _) (List.cons_ne_nil _ _)
        (Nat.le_add_right_of_le hsize) hfresh).2

/-- Entries for which there is room go into the datagram that is being filled. -/
theorem groupsFrom_append (hroom : size + total SearchEntry.wireSize front ≤ budget) :
    groupsFrom budget headSize group size (front ++ entries) =
      groupsFrom budget headSize (front.reverse ++ group)
        (size + total SearchEntry.wireSize front) entries := by
  induction front generalizing group size with
  | nil => rfl
  | cons e front ih =>
    rw [total_cons] at hroom ⊢
    rw [List.cons_append, groupsFrom_of_room (.inr (by omega)), ih (by omega), List.reverse_cons,
      List.append_assoc, Nat.add_assoc]
    rfl

/-- Whatever can travel together costs at most one datagram in front of the entries behind it. -/
theorem length_groupsFrom_append_le (h : front = [] ∨ Together budget headSize front) :
    (groupsFrom budget headSize [] headSize (front ++ entries)).length ≤
      (groupsFrom budget headSize [] headSize entries).length + 1 := by
  rcases h with rfl | ⟨e, rfl⟩ | ⟨hne, hfits⟩
  · exact Nat.le_succ _
  · rw [List.singleton_append, groupsFrom_of_room (.inl rfl)]
    exact length_groupsFrom_le_succ (List.cons_ne_nil _ _) (Nat.le_add_right _ _)
  · rw [groupsFrom_append hfits, List.append_nil]
    exact length_groupsFrom_le_succ (fun hnil => hne (List.reverse_eq_nil_iff.1 hnil))
      (Nat.le_add_right _ _)

/-- No division into groups that can travel together has fewer groups. -/
theorem length_groups_le {division : List (List SearchEntry)}
    (h : ∀ group ∈ division, group = [] ∨
      Together (m.config.maxDatagram - Header.wireSize) (m.request 0 []).headSize group) :
    (m.groups division.flatten).length ≤ division.length := by
  induction division with
  | nil => exact Nat.le_refl _
  | cons group division ih =>
    obtain ⟨hgroup, hrest⟩ := List.forall_mem_cons.1 h
    rw [List.flatten_cons, List.length_cons]
    exact Nat.le_trans (length_groupsFrom_append_le hgroup) (Nat.succ_le_succ (ih hrest))

/-! ## Datagrams -/

/-- A group of entries may go out in one datagram: it can be written, and the datagram stays within
the limit unless the group is a single entry. -/
def Admissible (m : SearchManager) (sequence : UInt32) (group : List SearchEntry) : Prop :=
  ∃ datagram, frame? (m.request sequence group) = some datagram ∧
    (datagram.length ≤ m.config.maxDatagram ∨ ∃ e, group = [e])

/-- The longest name, in octets, with which a search on its own is accepted. -/
def longestName : Nat := 65445

/-- A datagram is a message that asks for a group of entries. -/
structure Asks (m : SearchManager) (sequence : UInt32) (group : List SearchEntry)
    (message : Message) (datagram : Bytes) : Prop where
  nonempty : group ≠ []
  size : datagram.length ≤ m.config.maxDatagram ∨ ∃ e, group = [e]
  search : message.isApplication Command.search = true
  request : message.read SearchRequest.decode = .ok (m.request sequence group).canonical
  /-- Whoever accepts a payload of that size takes the whole datagram as the message. -/
  whole : ∀ limit rest, message.payload.length ≤ limit →
    Message.decode? limit (datagram ++ rest) = .ok (some (message, rest))
  /-- The message is all that the datagram is split into. -/
  accepted : (∀ e ∈ group, e.name.utf8ByteSize ≤ longestName) →
    Message.ofDatagram datagram = .ok [message]
  /-- A name that is too long travels alone, and its payload is too large for a datagram. -/
  refused : ∀ e ∈ group, longestName < e.name.utf8ByteSize →
    group = [e] ∧ Message.ofDatagram datagram =
      .error (.payloadTooLarge (datagram.length - Header.wireSize) Message.maxDatagram)

theorem headSize_request (m : SearchManager) : (m.request 0 []).headSize = 33 := by
  show SearchRequest.fixedSize + Wire.lengthSize 1 + total Wire.stringSize [tcpProtocol] + 2 = 33
  decide

theorem length_octets_message {r : SearchRequest} (hsize : r.wireSize ≤ Message.maxDeclared) :
    r.message.octets.length = Header.wireSize + r.wireSize := by
  rw [← SearchRequest.length_octets .big] at hsize ⊢
  have hm : r.message.Transmissible (r.octets .big).length :=
    Message.transmissible_application (Nat.le_refl _) hsize
  exact hm.length_octets

/-- A group that may go out can travel together, as its size is computed. -/
theorem Admissible.together (h : m.Admissible sequence group) :
    group = [] ∨
      Together (m.config.maxDatagram - Header.wireSize) (m.request 0 []).headSize group := by
  obtain ⟨datagram, hframe, hsize⟩ := h
  rcases group with _ | ⟨e, es⟩
  · exact .inl rfl
  rcases hsize with hsize | hsingle
  · obtain ⟨-, hm, rfl⟩ := SearchRequest.exists_of_frame? hframe
    have hdeclared := hm.sendable.length_le_declared
    rw [show (m.request sequence (e :: es)).message.payload.length = _ from
      SearchRequest.length_octets .big _] at hdeclared
    rw [length_octets_message hdeclared, wireSize_request] at hsize
    exact .inr (.inr ⟨List.cons_ne_nil _ _, by omega⟩)
  · exact .inr (.inl hsingle)

/-- A group is within the limit for datagrams, header included, or a single entry. -/
theorem size_of_mem_groups (sequence : UInt32) (hgroup : group ∈ m.groups entries) :
    Header.wireSize + (m.request sequence group).wireSize ≤ m.config.maxDatagram ∨
      ∃ e, group = [e] := by
  rcases together_of_mem_groupsFrom rfl (.inl rfl) group hgroup with hsingle | ⟨hne, hsize⟩
  · exact .inr hsingle
  · rw [headSize_request] at hsize
    rw [wireSize_request, headSize_request]
    exact .inl (by omega)

/-- The size of a request for a single entry. -/
theorem wireSize_request_singleton (m : SearchManager) (sequence : UInt32) (e : SearchEntry) :
    (m.request sequence [e]).wireSize = 37 + Wire.stringSize e.name := by
  rw [wireSize_request, headSize_request, total_cons, total_nil, SearchEntry.wireSize]
  omega

section

variable (hlimit : m.config.maxDatagram ≤ Message.maxDatagram)
  (hnames : ∀ e ∈ entries, e.name.utf8ByteSize ≤ Wire.maxSize)

include hlimit

/-- A group that is too large to be accepted is a single entry with a name that is too long. -/
theorem wireSize_le_of_mem_groups (sequence : UInt32) (hgroup : group ∈ m.groups entries)
    (hshort : ∀ e ∈ group, e.name.utf8ByteSize ≤ longestName) :
    (m.request sequence group).wireSize ≤ Message.maxDatagram := by
  rcases size_of_mem_groups sequence hgroup with hsize | ⟨e, rfl⟩
  · omega
  · have hname := hshort e List.mem_cons_self
    rw [wireSize_request_singleton, Wire.stringSize, Wire.lengthSize]
    unfold longestName at hname
    unfold Message.maxDatagram
    split
    · omega
    · omega

/-- An entry with a name that is too long is a group of its own, which is too large. -/
theorem eq_singleton_of_longestName_lt (sequence : UInt32) (hgroup : group ∈ m.groups entries)
    (he : e ∈ group) (hlong : longestName < e.name.utf8ByteSize) :
    group = [e] ∧ Message.maxDatagram < (m.request sequence group).wireSize := by
  have hlarge : Message.maxDatagram < (m.request sequence [e]).wireSize := by
    rw [wireSize_request_singleton, Wire.stringSize, Wire.lengthSize]
    unfold longestName at hlong
    unfold Message.maxDatagram
    rw [if_neg (by omega)]
    omega
  have hentry := wireSize_le_total he
  rcases size_of_mem_groups sequence hgroup with hsize | ⟨e', rfl⟩
  · rw [wireSize_request, total_cons, total_nil] at hlarge
    rw [wireSize_request] at hsize
    omega
  · obtain rfl := List.mem_singleton.1 he
    exact ⟨rfl, hlarge⟩

include hnames

/-- Every group can be written. -/
theorem wireSize_le_maxDeclared (sequence : UInt32) (hgroup : group ∈ m.groups entries) :
    (m.request sequence group).wireSize ≤ Message.maxDeclared := by
  have hmax := Message.maxDatagram_le_maxDeclared
  rcases size_of_mem_groups sequence hgroup with hsize | ⟨e, rfl⟩
  · omega
  · have he := mem_of_mem_groups hgroup List.mem_cons_self
    exact of_decide_eq_true (m.carries_of_le (hnames e he))

/-- What goes out for a group asks for it. -/
theorem asks_of_mem_groups (sequence : UInt32) (hgroup : group ∈ m.groups entries) :
    m.Asks sequence group (m.request sequence group).message
      (m.request sequence group).message.octets := by
  have hdeclared := wireSize_le_maxDeclared hlimit hnames sequence hgroup
  have hlength := length_octets_message hdeclared
  have hpayload : (m.request sequence group).message.payload.length =
      (m.request sequence group).wireSize := SearchRequest.length_octets .big _
  have htransmissible : ∀ limit, (m.request sequence group).wireSize ≤ limit →
      (m.request sequence group).message.Transmissible limit := fun limit hle =>
    Message.transmissible_application (hpayload.symm ▸ hle) (hpayload.symm ▸ hdeclared)
  constructor
  case nonempty => exact (together_of_mem_groups hlimit hgroup).ne_nil
  case size =>
    rw [hlength]
    exact size_of_mem_groups sequence hgroup
  case search => exact Message.isApplication_application
  case request =>
    exact SearchRequest.read_message (length_lt_of_mem_groups hlimit hgroup) rfl
      fun e he => hnames e (mem_of_mem_groups hgroup he)
  case whole => exact fun limit rest hle => (htransmissible limit (hpayload ▸ hle)).decode? rest
  case accepted =>
    intro hshort
    have hsize := wireSize_le_of_mem_groups hlimit sequence hgroup hshort
    have hdatagram := Message.ofDatagram_octets
      (List.forall_mem_singleton.2 (htransmissible _ hsize))
    rwa [List.flatMap_singleton] at hdatagram
  case refused =>
    intro e he hlong
    obtain ⟨hsingle, hlarge⟩ :=
      eq_singleton_of_longestName_lt hlimit sequence hgroup he hlong
    have hrefused := Message.ofDatagram_of_lt (htransmissible _ (Nat.le_refl _)) (hpayload ▸ hlarge)
    rw [hpayload] at hrefused
    rw [hlength, Nat.add_sub_cancel_left]
    exact ⟨hsingle, hrefused⟩

theorem datagrams_eq_map (sequence : UInt32) :
    m.datagrams sequence entries =
      (m.groups entries).map fun group => (m.request sequence group).message.octets := by
  rw [datagrams, ← List.filterMap_eq_map']
  refine List.filterMap_congr fun group hgroup => ?_
  rw [SearchRequest.frame?_eq (length_lt_of_mem_groups hlimit hgroup)]
  exact if_pos (wireSize_le_maxDeclared hlimit hnames sequence hgroup)

end

/-- The datagrams for a list of searches ask for them group by group, in order; they stay within the
limit unless they carry a single search; and no division into groups that may go out has fewer. -/
theorem searches_packed (m : SearchManager) (sequence : UInt32) (entries : List SearchEntry)
    (hlimit : m.config.maxDatagram ≤ Message.maxDatagram)
    (hnames : ∀ e ∈ entries, e.name.utf8ByteSize ≤ Wire.maxSize) :
    (∃ division : List (List SearchEntry), division.flatten = entries ∧
      List.Forall₂ (fun group datagram => ∃ message, m.Asks sequence group message datagram)
        division (m.datagrams sequence entries)) ∧
    ∀ division : List (List SearchEntry), division.flatten = entries →
      (∀ group ∈ division, m.Admissible sequence group) →
      (m.datagrams sequence entries).length ≤ division.length := by
  rw [datagrams_eq_map hlimit hnames sequence]
  constructor
  · refine ⟨m.groups entries, m.flatten_groups entries, ?_⟩
    rw [List.forall₂_map_right_iff, List.forall₂_same]
    exact fun group hgroup => ⟨_, asks_of_mem_groups hlimit hnames sequence hgroup⟩
  · rintro division rfl hadmissible
    rw [List.length_map]
    exact length_groups_le fun group hgroup => (hadmissible group hgroup).together

/-- A client with little room in its datagrams. -/
def crowded : SearchManager where
  config := { maxDatagram := 60 }
  destinations := []
  replyTo := .any 0

/-- The third search has a datagram of its own, although the fourth one would fit to the first two;
no division of the four needs fewer than three datagrams. -/
theorem crowded_in_three :
    crowded.config.maxDatagram ≤ Message.maxDatagram ∧
      (∀ e ∈ [⟨1, "a"⟩, ⟨2, "b"⟩, ⟨3, "a name that fills a datagram"⟩, (⟨4, "c"⟩ : SearchEntry)],
        e.name.utf8ByteSize ≤ Wire.maxSize) ∧
      (crowded.datagrams 9 [⟨1, "a"⟩, ⟨2, "b"⟩, ⟨3, "a name that fills a datagram"⟩, ⟨4, "c"⟩]).length
        = 3 ∧
      ∀ division : List (List SearchEntry),
        division.flatten = [⟨1, "a"⟩, ⟨2, "b"⟩, ⟨3, "a name that fills a datagram"⟩, ⟨4, "c"⟩] →
        (∀ group ∈ division, crowded.Admissible 9 group) → 3 ≤ division.length := by
  have hlimit : crowded.config.maxDatagram ≤ Message.maxDatagram := by decide
  have hnames : ∀ e ∈ [⟨1, "a"⟩, ⟨2, "b"⟩, ⟨3, "a name that fills a datagram"⟩,
      (⟨4, "c"⟩ : SearchEntry)], e.name.utf8ByteSize ≤ Wire.maxSize := by decide
  have hgroups : (crowded.groups [⟨1, "a"⟩, ⟨2, "b"⟩, ⟨3, "a name that fills a datagram"⟩,
      ⟨4, "c"⟩]).length = 3 := by decide
  have hlength : (crowded.datagrams 9 [⟨1, "a"⟩, ⟨2, "b"⟩, ⟨3, "a name that fills a datagram"⟩,
      ⟨4, "c"⟩]).length = 3 := by
    rw [datagrams_eq_map hlimit hnames, List.length_map, hgroups]
  have hfewest := (crowded.searches_packed 9 _ hlimit hnames).2
  rw [hlength] at hfewest
  exact ⟨hlimit, hnames, hlength, hfewest⟩

theorem utf8ByteSize_replicate (n : Nat) :
    (String.ofList (List.replicate n 'x')).utf8ByteSize = n := by
  induction n with
  | zero => rfl
  | succ n ih =>
    rw [← String.size_toByteArray, String.toByteArray_ofList] at ih ⊢
    rw [List.replicate_succ, List.utf8Encode_cons, ByteArray.size_append, ih, Nat.add_comm]
    rfl

/-- A search whose name is longer by one octet than the longest one that is accepted. -/
def overlong : SearchEntry := ⟨7, String.ofList (List.replicate 65446 'x')⟩

/-- A search with too long a name goes out, but no receiver that splits datagrams into messages ever
sees it. -/
theorem overlong_refused :
    crowded.config.maxDatagram ≤ Message.maxDatagram ∧
      overlong.name.utf8ByteSize ≤ Wire.maxSize ∧
      ∃ datagram, crowded.datagrams 9 [overlong] = [datagram] ∧
        Message.ofDatagram datagram = .error (.payloadTooLarge 65488 65487) := by
  have hlimit : crowded.config.maxDatagram ≤ Message.maxDatagram := by decide
  have hsize : overlong.name.utf8ByteSize = 65446 := utf8ByteSize_replicate 65446
  have hnames : ∀ e ∈ [overlong], e.name.utf8ByteSize ≤ Wire.maxSize := by
    rw [List.forall_mem_singleton, hsize]
    decide
  have hgroups : crowded.groups [overlong] = [[overlong]] := rfl
  have hgroup : [overlong] ∈ crowded.groups [overlong] := by
    rw [hgroups]
    exact List.mem_singleton_self _
  have hlong : longestName < overlong.name.utf8ByteSize := by
    rw [hsize]
    decide
  have hlength := length_octets_message (wireSize_le_maxDeclared hlimit hnames 9 hgroup)
  have hwire : (crowded.request 9 [overlong]).wireSize = 65488 := by
    rw [wireSize_request_singleton, Wire.stringSize, hsize]
    rfl
  obtain ⟨-, hrefused⟩ := (asks_of_mem_groups hlimit hnames 9 hgroup).refused
    overlong List.mem_cons_self hlong
  rw [hlength, hwire] at hrefused
  refine ⟨hlimit, hnames overlong List.mem_cons_self, _, ?_, hrefused⟩
  rw [datagrams_eq_map hlimit hnames, hgroups]
  rfl

end SearchManager

end PvNet
