import PvNet.Proofs.Connection.Handshake
import PvNet.Proofs.Discovery.Beacons
import PvNet.Proofs.Discovery.SearchSizes
set_option autoImplicit false

/-!
# Payloads that arrive

The payloads of discovery and of the validation are written without failure as long as
their entries can be counted, and they are read back as they were.  What changes on the
way is the form of an address only: an IPv4 address in its IPv6 form arrives as what it
is.  An endpoint is an address and a port; flow labels and scopes do not travel.
-/

namespace PvNet

/-- What is written without failure is read back as an item, whatever follows it. -/
def Emission.ReadAs {σ α : Type} (written : Emission) (d : Decoder σ α) (o : ByteOrder) (s : σ)
    (a : α) : Prop :=
  ∃ bytes, written = .ofBytes bytes ∧ d.Reads o s bytes a s

/-- What can be relied on when payloads are sent in a byte order. -/
structure FaithfulPayloads {σ : Type} (o : ByteOrder) (s : σ) : Prop where
  /-- Searches are read back. -/
  request : ∀ r : SearchRequest, r.channels.length ≤ 65535 → r.Fits →
    (r.encode o).ReadAs SearchRequest.decode o s r.canonical
  /-- Searches for more channels than can be counted are refused. -/
  request_refused : ∀ r : SearchRequest, 65535 < r.channels.length →
    (r.encode o).fault = some (.mismatch (.tooManyEntries r.channels.length))
  /-- The sizes of a search are those of its octets, in front of the channels and as a whole. -/
  request_sizes : ∀ r : SearchRequest, (r.encode o).fault = none →
    ∃ head, (r.encode o).bytes = head ++ r.channels.flatMap (SearchEntry.encode o) ∧
      head.length = r.headSize ∧ (r.encode o).bytes.length = r.wireSize
  /-- Answers are read back. -/
  response : ∀ r : SearchResponse, r.cids.length ≤ 65535 →
    r.protocol.utf8ByteSize ≤ Wire.maxSize →
    (r.encode o).ReadAs SearchResponse.decode o s r.canonical
  /-- Answers for more channels than can be counted are refused. -/
  response_refused : ∀ r : SearchResponse, 65535 < r.cids.length →
    (r.encode o).fault = some (.mismatch (.tooManyEntries r.cids.length))
  /-- Beacons are read back. -/
  beacon : ∀ b : Beacon, b.Fits → (b.encode o).ReadAs Beacon.decode o s b.canonical
  /-- Greetings are read back. -/
  greeting : ∀ g : Greeting, g.authPlugins.length ≤ Wire.maxSize →
    (∀ name ∈ g.authPlugins, name.utf8ByteSize ≤ Wire.maxSize) →
    (Emission.ofBytes (g.encode o)).ReadAs Greeting.decode o s g
  /-- Replies are read back. -/
  reply : ∀ r : Reply, r.authPlugin.utf8ByteSize ≤ Wire.maxSize →
    (Emission.ofBytes (r.encode o)).ReadAs Reply.decode o s r
  /-- Verdicts are read back. -/
  status : ∀ status : Status, status.message.utf8ByteSize ≤ Wire.maxSize →
    status.callTree.utf8ByteSize ≤ Wire.maxSize →
    (Emission.ofBytes (status.encode o)).ReadAs Status.decode o s status
  /-- IPv4 addresses arrive as such, whatever form they are given in. -/
  canonical_v4 : ∀ (a : Ipv4) (port : UInt16) (ip : IpAddress),
    ip = .v4 a ∨ ip = .v6 ⟨IpAddress.mappedPrefix ++ a.bits⟩ →
    Endpoint.canonical ⟨ip, port⟩ = ⟨.v4 a, port⟩
  /-- All other addresses arrive as they are. -/
  canonical_v6 : ∀ (a : Ipv6) (port : UInt16),
    (∀ a' : Ipv4, a.bits ≠ IpAddress.mappedPrefix ++ a'.bits) →
    Endpoint.canonical ⟨.v6 a, port⟩ = ⟨.v6 a, port⟩

/-- Whatever is sent in whatever byte order arrives. -/
theorem payloads_faithful {σ : Type} (o : ByteOrder) (s : σ) : FaithfulPayloads o s where
  request r hcount hfits := by
    have hlt : r.channels.length < 65536 := Nat.lt_succ_of_le hcount
    exact ⟨r.octets o, SearchRequest.encode_of_lt hlt, SearchRequest.reads_decode o s hlt hfits⟩
  request_refused r h := SearchRequest.fault_encode_of_le h
  request_sizes r h := by
    rw [SearchRequest.bytes_encode_of_fault h]
    exact ⟨r.headOctets o, r.octets_eq_headOctets_append o, r.length_headOctets o,
      r.length_octets o⟩
  response r hcount hprotocol := by
    have hlt : r.cids.length < 65536 := Nat.lt_succ_of_le hcount
    exact ⟨r.octets o, SearchResponse.encode_of_lt hlt,
      SearchResponse.reads_decode o s hlt hprotocol⟩
  response_refused r h := SearchResponse.fault_encode_of_le h
  beacon b h := b.exists_encode o s h
  greeting g hcount hnames := ⟨_, rfl, Greeting.reads_decode o s hcount hnames⟩
  reply r hname := ⟨_, rfl, Reply.reads_decode o s hname⟩
  status status hmessage htree := ⟨_, rfl, Status.reads_decode o s hmessage htree⟩
  canonical_v4 a port ip h := by
    rcases h with rfl | rfl
    · exact congrArg (Endpoint.mk · port) (IpAddress.canonical_v4 a)
    · exact congrArg (Endpoint.mk · port) (IpAddress.canonical_mapped a)
  canonical_v6 a port h :=
    congrArg (Endpoint.mk · port) (IpAddress.canonical_of_not_mapped h)

/-- A search from an IPv4 address in its IPv6 form. -/
def mappedSearch : SearchRequest where
  sequence := 7
  unicast := true
  replyTo := ⟨.v6 ⟨IpAddress.mappedPrefix ++ Ipv4.localhost.bits⟩, 5076⟩
  protocols := ["tcp", ""]
  channels := [⟨1, "temperature"⟩, ⟨2, "pressure"⟩]

/-- A beacon with a status that reaches the nesting limit. -/
def deepBeacon : Beacon where
  guid := ⟨1⟩
  flags := 0
  sequence := 255
  changeCount := 3
  server := .any 5075
  protocol := "tcp"
  status := some ⟨Field.nested 64, Value.nested (-1) 64⟩

/-- Both arrive, the search with the address that is meant. -/
theorem mappedSearch_and_deepBeacon_arrive :
    (mappedSearch.channels.length ≤ 65535 ∧ mappedSearch.Fits ∧
      (mappedSearch.encode .little).ReadAs SearchRequest.decode .little ()
        { mappedSearch with replyTo := ⟨.v4 .localhost, 5076⟩ }) ∧
      deepBeacon.Fits ∧ (deepBeacon.encode .big).ReadAs Beacon.decode .big () deepBeacon := by
  have hcount : mappedSearch.channels.length ≤ 65535 := by decide
  have hfits : mappedSearch.Fits := ⟨by decide, by decide, by decide⟩
  have hbeacon : deepBeacon.Fits := by
    refine ⟨by decide, ?_⟩
    intro d hd
    rw [← Option.some.inj hd]
    exact Described.announceable_nested (-1) (Nat.le_refl _)
  have hlittle := payloads_faithful .little ()
  have hbig := payloads_faithful .big ()
  have haddress : mappedSearch.replyTo.canonical = ⟨.v4 .localhost, 5076⟩ :=
    hlittle.canonical_v4 .localhost 5076 _ (.inr rfl)
  have hany : deepBeacon.canonical = deepBeacon :=
    congrArg (fun server => { deepBeacon with server }) (Endpoint.canonical_any 5075)
  have hsearch := hlittle.request mappedSearch hcount hfits
  have hannounced := hbig.beacon deepBeacon hbeacon
  rw [SearchRequest.canonical, haddress] at hsearch
  rw [hany] at hannounced
  exact ⟨⟨hcount, hfits, hsearch⟩, hbeacon, hannounced⟩

end PvNet
