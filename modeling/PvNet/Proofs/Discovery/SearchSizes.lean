import PvNet.Proofs.Discovery.SearchMessages
set_option autoImplicit false

/-!
# Sizes of searches

A client splits its searches over datagrams by sizes that it computes before it writes
anything.  The sizes are exact: they are those of the octets that are written, whatever
the strings and lists in the request are.
-/

namespace PvNet

namespace Wire

/-- Sizes beyond the largest one are written like it. -/
theorem length_of_gt (o : ByteOrder) {n : Nat} (h : maxSize < n) : length o n = length o maxSize := by
  unfold length
  rw [Nat.min_eq_right (Nat.le_of_lt h), Nat.min_self]

theorem length_length (o : ByteOrder) (n : Nat) : (length o n).length = lengthSize n := by
  have hlong : ∀ m, 254 ≤ m → m ≤ maxSize → (length o m).length = 5 := by
    intro m hm hmax
    rw [length_of_ge o hm hmax, List.length_cons, word32, ByteOrder.length_encode]
  unfold lengthSize
  split
  · rename_i hshort
    rw [length_of_lt o hshort]
    rfl
  · rename_i hge
    rcases Nat.lt_or_ge maxSize n with hgt | hle
    · rw [length_of_gt o hgt]
      exact hlong maxSize (by decide) (Nat.le_refl _)
    · exact hlong n (Nat.le_of_not_lt hge) hle

theorem length_string (o : ByteOrder) (text : String) :
    (string o text).length = stringSize text := by
  have hutf8 : (utf8 text).length = text.utf8ByteSize := rfl
  rw [string, List.length_append, length_length, hutf8]
  rfl

end Wire

theorem length_flatMap_eq_total {α : Type} {encode : α → Bytes} {size : α → Nat}
    (h : ∀ a, (encode a).length = size a) (as : List α) :
    (as.flatMap encode).length = total size as := by
  induction as with
  | nil => rfl
  | cons a as ih => rw [List.flatMap_cons, List.length_append, h, ih, total_cons]

theorem SearchEntry.length_encode (o : ByteOrder) (e : SearchEntry) :
    (e.encode o).length = e.wireSize := by
  rw [encode, List.length_append, Wire.length_string, Wire.word32, ByteOrder.length_encode]
  rfl

namespace SearchRequest

variable {o : ByteOrder} {r : SearchRequest}

/-- The octets in front of the channels. -/
def headOctets (o : ByteOrder) (r : SearchRequest) : Bytes :=
  Wire.word32 o r.sequence ++ ((if r.unicast then unicastFlag else 0) :: ([0, 0, 0] ++
    (r.replyTo.encode o ++ (Wire.length o r.protocols.length ++
      (r.protocols.flatMap (Wire.string o) ++ Wire.word16 o (UInt16.ofNat r.channels.length))))))

theorem octets_eq_headOctets_append (o : ByteOrder) (r : SearchRequest) :
    r.octets o = r.headOctets o ++ r.channels.flatMap (SearchEntry.encode o) := by
  simp only [octets, headOctets, List.append_assoc, List.cons_append]

theorem length_headOctets (o : ByteOrder) (r : SearchRequest) :
    (r.headOctets o).length = r.headSize := by
  have hprotocols := length_flatMap_eq_total (Wire.length_string o) r.protocols
  simp only [headOctets, List.length_append, List.length_cons, List.length_nil, Wire.word32,
    Wire.word16, ByteOrder.length_encode, Endpoint.length_encode, Wire.length_length, hprotocols]
  unfold headSize fixedSize
  omega

theorem length_octets (o : ByteOrder) (r : SearchRequest) : (r.octets o).length = r.wireSize := by
  rw [octets_eq_headOctets_append, List.length_append, length_headOctets,
    length_flatMap_eq_total (SearchEntry.length_encode o)]
  rfl

/-- What is written of a request that can be written at all. -/
theorem bytes_encode_of_fault (h : (r.encode o).fault = none) : (r.encode o).bytes = r.octets o := by
  rcases Nat.lt_or_ge r.channels.length 65536 with hcount | hcount
  · rw [encode_of_lt hcount]
    rfl
  · rw [fault_encode_of_le hcount] at h
    cases h

end SearchRequest

end PvNet
