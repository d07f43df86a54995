import Mathlib.Data.List.Basic
import PvNet.Proofs.Discovery.Exchange
import PvNet.Proofs.Discovery.SearchSizes
set_option autoImplicit false

/-!
# Searches that share a datagram

Searches that are due together are split into requests.  A request for several channels
stays within the limit for datagrams, hence it can be written; a request for a single
channel can be written unless no message is large enough for it.  So every other entry
is sent, and sent once (`outgoing_eq`, `flatMap_channels_requests`).
-/

namespace PvNet

namespace SearchRequest

variable {r : SearchRequest}

/-- A request can be written if its channels can be counted and a message can be as large. -/
theorem frame?_eq (hcount : r.channels.length < 65536) :
    SearchManager.frame? r =
      if r.wireSize ≤ Message.maxDeclared then some r.message.octets else none := by
  rw [← length_octets .big]
  split
  · rename_i hlength
    exact frame?_of_lt hcount hlength
  · rename_i hlength
    rw [SearchManager.frame?, encode_of_lt hcount, Emission.toExcept_ofBytes]
    show (Message.application Command.search .big false (r.octets .big)).encode.toOption = none
    rw [Message.encode_application_of_lt _ _ _ (Nat.lt_of_not_le hlength)]
    rfl

/-- A request for tcp servers is read back from its message if the strings that it asks for have
sizes that can be written. -/
theorem read_message (hcount : r.channels.length < 65536) (hprotocols : r.protocols = [tcpProtocol])
    (hnames : ∀ e ∈ r.channels, e.name.utf8ByteSize ≤ Wire.maxSize) :
    r.message.read SearchRequest.decode = .ok r.canonical := by
  have htcp : tcpProtocol.utf8ByteSize ≤ Wire.maxSize := by decide
  refine Message.read_application (reads_decode .big () hcount ⟨?_, ?_, hnames⟩)
  · rw [hprotocols]
    decide
  · rw [hprotocols]
    exact List.forall_mem_singleton.2 htcp

end SearchRequest

namespace SearchManager

variable {m : SearchManager} {budget headSize : Nat} {group entries : List SearchEntry}

/-- A group that can travel together: a single entry, or several that stay within a budget. -/
def Together (budget headSize : Nat) (group : List SearchEntry) : Prop :=
  (∃ e, group = [e]) ∨ (group ≠ [] ∧ headSize + total SearchEntry.wireSize group ≤ budget)

theorem total_reverse {α : Type} (size : α → Nat) (as : List α) :
    total size as.reverse = total size as := by
  induction as with
  | nil => rfl
  | cons a as ih =>
    rw [List.reverse_cons, total_append, ih, total_cons, total_cons, total_nil, Nat.add_comm]
    rfl

theorem Together.ne_nil (h : Together budget headSize group) : group ≠ [] := by
  rcases h with ⟨e, rfl⟩ | ⟨hne, -⟩
  · exact List.cons_ne_nil _ _
  · exact hne

theorem Together.reverse (h : Together budget headSize group) :
    Together budget headSize group.reverse := by
  rcases h with ⟨e, rfl⟩ | ⟨hne, hsize⟩
  · exact .inl ⟨e, rfl⟩
  · refine .inr ⟨fun hnil => hne (List.reverse_eq_nil_iff.1 hnil), ?_⟩
    rwa [total_reverse]

/-- The induction is on the entries that are left; the group that has begun can travel together, and
its size is known. -/
theorem together_of_mem_groupsFrom {size : Nat}
    (hsize : size = headSize + total SearchEntry.wireSize group)
    (hgroup : group = [] ∨ Together budget headSize group) :
    ∀ g ∈ groupsFrom budget headSize group size entries, Together budget headSize g := by
  induction entries generalizing group size with
  | nil =>
    intro g hg
    rcases hgroup with rfl | hgroup
    · cases hg
    · have hne : group.isEmpty = false := List.isEmpty_eq_false_iff.2 hgroup.ne_nil
      rw [groupsFrom, hne, if_neg Bool.false_ne_true, List.mem_singleton] at hg
      rw [hg]
      exact hgroup.reverse
  | cons e es ih =>
    have hsingle : Together budget headSize [e] := .inl ⟨e, rfl⟩
    intro g hg
    rw [groupsFrom] at hg
    split at hg
    · rename_i hfull
      rcases List.mem_cons.1 hg with rfl | hg
      · rcases hgroup with rfl | hgroup
        · cases hfull.1
        · exact hgroup.reverse
      · exact ih (by rw [total_cons, total_nil]; rfl) (.inr hsingle) g hg
    · rename_i hroom
      refine ih (by rw [hsize, total_cons]; omega) (.inr ?_) g hg
      rcases hgroup with rfl | hgroup
      · exact hsingle
      · have hne : group.isEmpty = false := List.isEmpty_eq_false_iff.2 hgroup.ne_nil
        have hfits : ¬ budget < size + e.wireSize := fun hlt => hroom ⟨by rw [hne]; rfl, hlt⟩
        refine .inr ⟨List.cons_ne_nil _ _, ?_⟩
        rw [total_cons]
        omega

theorem flatten_groups (m : SearchManager) (entries : List SearchEntry) :
    (m.groups entries).flatten = entries := by
  rw [groups, flatten_groupsFrom]
  rfl

/-- Whether a message can be large enough for an entry. -/
def carries (m : SearchManager) (e : SearchEntry) : Bool :=
  (m.request 0 [e]).wireSize ≤ Message.maxDeclared

/-- The request for a group, if a message can be large enough for it. -/
def request? (m : SearchManager) (sequence : UInt32) (group : List SearchEntry) :
    Option SearchRequest :=
  if (m.request sequence group).wireSize ≤ Message.maxDeclared then some (m.request sequence group)
  else none

/-- The requests that are sent for some entries. -/
def requests (m : SearchManager) (sequence : UInt32) (entries : List SearchEntry) :
    List SearchRequest :=
  (m.groups entries).filterMap (m.request? sequence)

/-- The octets in front of the channels are the same in all requests. -/
theorem wireSize_request (m : SearchManager) (sequence : UInt32) (group : List SearchEntry) :
    (m.request sequence group).wireSize =
      (m.request 0 []).headSize + total SearchEntry.wireSize group := rfl

theorem five_le_wireSize (e : SearchEntry) : 5 ≤ e.wireSize := by
  unfold SearchEntry.wireSize Wire.stringSize Wire.lengthSize
  split
  · omega
  · omega

theorem five_mul_length_le (group : List SearchEntry) :
    5 * group.length ≤ total SearchEntry.wireSize group := by
  induction group with
  | nil => exact Nat.zero_le _
  | cons e es ih =>
    have he := five_le_wireSize e
    rw [List.length_cons, total_cons]
    omega

theorem wireSize_le_total {e : SearchEntry} (he : e ∈ group) :
    e.wireSize ≤ total SearchEntry.wireSize group := by
  induction group with
  | nil => cases he
  | cons first es ih =>
    rw [total_cons]
    rcases List.mem_cons.1 he with rfl | he
    · exact Nat.le_add_right _ _
    · exact Nat.le_trans (ih he) (Nat.le_add_left _ _)

/-- An entry whose name has a size that can be written is not too large for a message. -/
theorem carries_of_le (m : SearchManager) {e : SearchEntry}
    (h : e.name.utf8ByteSize ≤ Wire.maxSize) : m.carries e = true := by
  have hhead : (m.request 0 []).headSize = 33 := by
    show SearchRequest.fixedSize + Wire.lengthSize 1 + total Wire.stringSize [tcpProtocol] + 2 = 33
    decide
  refine decide_eq_true ?_
  rw [wireSize_request, hhead, total_cons, total_nil]
  unfold SearchEntry.wireSize Wire.stringSize Wire.lengthSize
  unfold Wire.maxSize at h
  unfold Message.maxDeclared
  split
  · omega
  · omega

section

variable (hlimit : m.config.maxDatagram ≤ Message.maxDatagram)

include hlimit

theorem together_of_mem_groups (hgroup : group ∈ m.groups entries) :
    Together Message.maxDatagram (m.request 0 []).headSize group := by
  rcases together_of_mem_groupsFrom rfl (.inl rfl) group hgroup with hsingle | ⟨hne, hsize⟩
  · exact .inl hsingle
  · exact .inr ⟨hne, by omega⟩

theorem length_lt_of_mem_groups (hgroup : group ∈ m.groups entries) : group.length < 65536 := by
  rcases together_of_mem_groups hlimit hgroup with ⟨e, rfl⟩ | ⟨-, hsize⟩
  · exact show 1 < 65536 by decide
  · have hlength := five_mul_length_le group
    unfold Message.maxDatagram at hsize
    omega

/-- A group is sent unless it is a single entry that no message is large enough for. -/
theorem channels_request? (hgroup : group ∈ m.groups entries) (sequence : UInt32) :
    (m.request? sequence group).toList.flatMap (·.channels) = group.filter m.carries := by
  have hcarried : ∀ e ∈ group, (m.request sequence group).wireSize ≤ Message.maxDeclared →
      m.carries e = true := by
    intro e he hsize
    have hentry := wireSize_le_total he
    rw [wireSize_request] at hsize
    refine decide_eq_true ?_
    rw [wireSize_request, total_cons, total_nil]
    omega
  by_cases hsize : (m.request sequence group).wireSize ≤ Message.maxDeclared
  · rw [request?, if_pos hsize, List.filter_eq_self.2 fun e he => hcarried e he hsize]
    exact List.append_nil _
  · rw [request?, if_neg hsize]
    rcases together_of_mem_groups hlimit hgroup with ⟨e, rfl⟩ | ⟨-, hfits⟩
    · have hlarge : m.carries e = false := decide_eq_false hsize
      rw [List.filter_cons_of_neg (Bool.eq_false_iff.1 hlarge)]
      rfl
    · have hmax := Message.maxDatagram_le_maxDeclared
      rw [wireSize_request] at hsize
      omega

/-- The requests ask for every entry that a message is large enough for, in the same order. -/
theorem flatMap_channels_requests (sequence : UInt32) (entries : List SearchEntry) :
    (m.requests sequence entries).flatMap (·.channels) = entries.filter m.carries := by
  calc (m.requests sequence entries).flatMap (·.channels)
    _ = (m.groups entries).flatMap fun group =>
          (m.request? sequence group).toList.flatMap (·.channels) := by
        rw [requests, List.filterMap_eq_flatMap_toList, List.flatMap_assoc]
    _ = (m.groups entries).flatMap (List.filter m.carries) :=
        List.flatMap_congr fun group hgroup => channels_request? hlimit hgroup sequence
    _ = (m.groups entries).flatten.filter m.carries := by
        rw [List.filter_flatten, List.flatMap_def]
    _ = entries.filter m.carries := by rw [flatten_groups]

theorem mem_requests {r : SearchRequest} {sequence : UInt32}
    (hr : r ∈ m.requests sequence entries) :
    ∃ group, r = m.request sequence group ∧ group ≠ [] ∧ group.length < 65536 ∧
      r.wireSize ≤ Message.maxDeclared := by
  obtain ⟨group, hgroup, hrequest⟩ := List.mem_filterMap.1 hr
  unfold request? at hrequest
  split at hrequest
  · rename_i hsize
    cases hrequest
    exact ⟨group, rfl, (together_of_mem_groups hlimit hgroup).ne_nil,
      length_lt_of_mem_groups hlimit hgroup, hsize⟩
  · cases hrequest

theorem datagrams_eq (sequence : UInt32) (entries : List SearchEntry) :
    m.datagrams sequence entries = (m.requests sequence entries).map (·.message.octets) := by
  rw [datagrams, requests, List.map_filterMap]
  refine List.filterMap_congr fun group hgroup => ?_
  have hcount : (m.request sequence group).channels.length < 65536 :=
    length_lt_of_mem_groups hlimit hgroup
  rw [SearchRequest.frame?_eq hcount, request?]
  split
  · rfl
  · rfl

/-- What is sent for some entries: every request to every destination, each with the flag for its
destination. -/
theorem outgoing_eq (sequence : UInt32) (entries : List SearchEntry) :
    m.outgoing sequence entries =
      (m.requests sequence entries).flatMap fun r => m.destinations.map fun destination =>
        ⟨destination.address, ({ r with unicast := destination.unicast }).message.octets⟩ := by
  rw [outgoing, datagrams_eq hlimit, List.flatMap_map]
  refine List.flatMap_congr fun r hr => List.map_congr_left fun destination _ => ?_
  obtain ⟨group, rfl, -, hcount, hsize⟩ := mem_requests hlimit hr
  refine congrArg (Outgoing.mk destination.address) (Option.some.inj ?_)
  have hframe : frame? (m.request sequence group) =
      some (m.request sequence group).message.octets := by
    rw [SearchRequest.frame?_eq hcount, if_pos hsize]
  have hcount' : ({ m.request sequence group with unicast := destination.unicast }).channels.length
      < 65536 := hcount
  rw [← SearchRequest.frame?_withUnicast hframe destination.unicast,
    SearchRequest.frame?_eq hcount']
  exact if_pos hsize

end

end SearchManager

end PvNet
