import PvNet.Proofs.Discovery.RelayedAnswers
set_option autoImplicit false

/-!
# What a relay changes in a datagram

A relay accepts the datagrams that start with the header of a search and with the payload
that the header declares, and no others; segments are accepted as well, and nothing else
in the payload has to make sense.  In an accepted datagram it clears the unicast flag and
names the sender where the reply address is a wildcard.  All other octets stay, so the
request, if there is one, is the same in all other respects, and once the address is named
another relay finds nothing to change.
-/

namespace PvNet

namespace SearchPayload

theorem isWildcard_replyIp_iff (p : SearchPayload) :
    p.replyIp.isWildcard = true ↔ p.address ∈ IpAddress.wildcardOctets :=
  IpAddress.isWildcard_ofOctets_iff p.length_address

theorem address_readdressed (source : Endpoint) (p : SearchPayload) :
    (p.readdressed source).address =
      if p.address ∈ IpAddress.wildcardOctets then source.ip.octets else p.address := by
  simp only [readdressed, isWildcard_replyIp_iff]

theorem fixedSize_le_length_octets (p : SearchPayload) :
    SearchRequest.fixedSize ≤ p.octets.length := by
  have hsome := isSome_ofBytes? p.octets
  rw [ofBytes?_octets] at hsome
  exact of_decide_eq_true hsome.symm

/-- What one relay has readdressed to a specific address, another one leaves alone. -/
theorem readdressed_readdressed {source : Endpoint} (h : source.ip.isWildcard = false)
    (via : Endpoint) (p : SearchPayload) :
    (p.readdressed source).readdressed via = p.readdressed source := by
  have hspecific := p.isWildcard_readdressed h
  have hflags : (p.flags &&& 0x7F) &&& 0x7F = p.flags &&& 0x7F := UInt8.and_assoc ..
  rw [readdressed, mk.injEq]
  exact ⟨rfl, hflags, rfl, if_neg (Bool.eq_false_iff.1 hspecific), rfl⟩

end SearchPayload

namespace Relay

variable {source : Endpoint} {datagram changed : Bytes}

/-- A datagram starts with the header of a search and, behind it, the payload that the header
declares, which has room for a reply address. -/
structure StartsWithSearch (datagram : Bytes) (h : Header) (p : SearchPayload) (behind : Bytes) :
    Prop where
  octets : datagram = h.encode ++ (p.octets ++ behind)
  application : h.isControl = false
  command : h.command = Command.search
  declared : h.payloadSize.toNat = p.octets.length

theorem exists_encode_append_of_isSearch (h : isSearch datagram = true) :
    ∃ (header : Header) (body : Bytes), datagram = header.encode ++ body := by
  rcases Header.encode_or_not_magic datagram with hshort | ⟨first, rest, rfl, hmagic, hlength⟩ | hheader
  · rcases datagram with _ | ⟨first, _ | ⟨version, _ | ⟨flags, _ | ⟨command, _ | ⟨a, _ | ⟨b, _ |
      ⟨c, _ | ⟨d, body⟩⟩⟩⟩⟩⟩⟩⟩
    case cons.cons.cons.cons.cons.cons.cons.cons =>
      simp only [List.length_cons, Header.wireSize] at hshort
      omega
    all_goals cases h
  · rcases rest with _ | ⟨version, _ | ⟨flags, _ | ⟨command, _ | ⟨a, _ | ⟨b, _ | ⟨c, _ |
      ⟨d, body⟩⟩⟩⟩⟩⟩⟩
    case cons.cons.cons.cons.cons.cons.cons => simp [isSearch, hmagic] at h
    all_goals cases h
  · exact hheader

/-- A relay looks for exactly the datagrams that start with a search. -/
theorem isSearch_iff :
    isSearch datagram = true ↔ ∃ h p behind, StartsWithSearch datagram h p behind := by
  constructor
  · intro h
    obtain ⟨header, body, rfl⟩ := exists_encode_append_of_isSearch h
    rw [isSearch_encode_append] at h
    simp only [Bool.and_eq_true, decide_eq_true_iff, Bool.not_eq_true'] at h
    obtain ⟨⟨⟨happlication, hcommand⟩, hroom⟩, hcomplete⟩ := h
    let size := header.payloadSize.toNat
    have hlength : (body.take size).length = size := List.length_take_of_le hcomplete
    have hsome := SearchPayload.isSome_ofBytes? (body.take size)
    rw [hlength, decide_eq_true hroom] at hsome
    obtain ⟨p, hp⟩ := Option.isSome_iff_exists.1 hsome
    have hpayload := SearchPayload.octets_of_ofBytes? hp
    refine ⟨header, p, body.drop size, ?_, happlication, hcommand, ?_⟩
    · rw [← hpayload, List.take_append_drop]
    · rw [← hpayload, hlength]
  · rintro ⟨h, p, behind, rfl, happlication, hcommand, hdeclared⟩
    have hroom := p.fixedSize_le_length_octets
    rw [isSearch_encode_append, happlication, hdeclared, List.length_append]
    simp [hcommand, hroom]

theorem readdress?_of_startsWithSearch {h : Header} {p : SearchPayload} {behind : Bytes}
    (hsearch : StartsWithSearch datagram h p behind) (source : Endpoint) :
    readdress? source datagram = some (h.encode ++ ((p.readdressed source).octets ++ behind)) ∧
      StartsWithSearch (h.encode ++ ((p.readdressed source).octets ++ behind)) h
        (p.readdressed source) behind := by
  have hlooked := isSearch_iff.2 ⟨h, p, behind, hsearch⟩
  obtain ⟨rfl, happlication, hcommand, hdeclared⟩ := hsearch
  refine ⟨readdress?_of_isSearch h.length_encode hlooked source, rfl, happlication, hcommand, ?_⟩
  rw [hdeclared, p.length_octets_readdressed]

/-- A datagram that is not accepted stays as it is, and it does not start with a search.  An
accepted one does, and its header, the octets behind its payload and the payload stay, except that
the unicast flag is clear and that the octets of a wildcard in the place of the reply address are
replaced by those of the sender.  If the payload is read as a request, it is read as the same one
afterwards, but not for a single host, and with the sender for a wildcard.  Once the address of a
sender that is not a wildcard itself is there, rewriting changes nothing more. -/
theorem rewrite_changes_target_only (source : Endpoint) (datagram : Bytes) :
    (∀ changed, (rewrite source).run datagram = (false, changed) →
      changed = datagram ∧ ¬ ∃ h p behind, StartsWithSearch datagram h p behind) ∧
    ∀ changed, (rewrite source).run datagram = (true, changed) →
      ∃ h p q behind, StartsWithSearch datagram h p behind ∧ StartsWithSearch changed h q behind ∧
        q.sequence = p.sequence ∧ q.flags = p.flags &&& 0x7F ∧ q.reserved = p.reserved ∧
        q.address = (if p.address ∈ IpAddress.wildcardOctets then source.ip.octets
          else p.address) ∧
        q.body = p.body ∧
        (∀ r rest, SearchRequest.decode.run h.order () p.octets = ⟨.ok r, (), rest⟩ →
          SearchRequest.decode.run h.order () q.octets = ⟨.ok { r with
            unicast := false
            replyTo := { r.replyTo with
              ip := if r.replyTo.ip.isWildcard then .ofOctets source.ip.octets
                else r.replyTo.ip } }, (), rest⟩) ∧
        (source.ip.isWildcard = false → ∀ via, (rewrite via).run changed = (true, changed)) := by
  by_cases hsearch : ∃ h p behind, StartsWithSearch datagram h p behind
  · obtain ⟨h, p, behind, hsearch⟩ := hsearch
    obtain ⟨hreaddress, hafter⟩ := readdress?_of_startsWithSearch hsearch source
    rw [run_rewrite_of_some hreaddress]
    refine ⟨fun changed heq => absurd (Prod.mk.inj heq).1 (by decide), fun changed heq => ?_⟩
    obtain rfl := (Prod.mk.inj heq).2
    refine ⟨h, p, p.readdressed source, behind, hsearch, hafter, rfl, rfl, rfl,
      p.address_readdressed source, rfl, fun r rest hr => ?_, fun hsource via => ?_⟩
    · rw [SearchRequest.run_decode_readdressed, IpAddress.ofOctets_octets]
      exact Decoder.run_bind_of_ok hr
    · obtain ⟨hagain, _⟩ := readdress?_of_startsWithSearch hafter via
      rw [run_rewrite_of_some hagain, p.readdressed_readdressed hsource]
  · have hnone : readdress? source datagram = none :=
      if_neg fun h => hsearch (isSearch_iff.1 h)
    rw [run_rewrite_of_none hnone]
    refine ⟨fun changed heq => ⟨((Prod.mk.inj heq).2).symm, hsearch⟩, fun changed heq => ?_⟩
    exact absurd (Prod.mk.inj heq).1 (by decide)

/-- A search in a segment, in little-endian order, with an octet behind it. -/
def segmentedSearch (flags : UInt8) (address : Bytes) : Bytes :=
  [0xCA, 2, 0x10, 3, 35, 0, 0, 0] ++ [1, 0, 0, 0] ++ [flags, 1, 2, 3] ++ address ++
    [0, 0, 0, 1, 0, 7, 0, 0, 0, 1, 0x78] ++ [9]

/-- The IPv6 wildcard is replaced, all flags but one stay, and it happens once; a datagram that is
an octet too short for its payload is refused. -/
theorem segmentedSearch_rewritten :
    (rewrite remoteClient).run (segmentedSearch 0x85 (List.replicate 16 0)) =
        (true, segmentedSearch 0x05 remoteClient.ip.octets) ∧
      (∀ via, (rewrite via).run (segmentedSearch 0x05 remoteClient.ip.octets) =
        (true, segmentedSearch 0x05 remoteClient.ip.octets)) ∧
      ¬ ∃ h p behind,
        StartsWithSearch ((segmentedSearch 0x85 (List.replicate 16 0)).take 42) h p behind := by
  have hrewritten : (rewrite remoteClient).run (segmentedSearch 0x85 (List.replicate 16 0)) =
      (true, segmentedSearch 0x05 remoteClient.ip.octets) := rfl
  obtain ⟨_, _, _, _, _, _, _, _, _, _, _, _, hagain⟩ :=
    (rewrite_changes_target_only remoteClient _).2 _ hrewritten
  have hrefused : (rewrite remoteClient).run ((segmentedSearch 0x85 (List.replicate 16 0)).take 42) =
      (false, (segmentedSearch 0x85 (List.replicate 16 0)).take 42) := rfl
  exact ⟨hrewritten, hagain (by decide),
    ((rewrite_changes_target_only remoteClient _).1 _ hrefused).2⟩

end Relay

end PvNet
