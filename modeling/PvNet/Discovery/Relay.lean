import PvNet.Discovery.Search
import PvNet.Message.Command
import PvNet.Message.Header
set_option autoImplicit false

/-!
# Relaying searches

A search sent to a single host reaches only one of the servers there, so it is sent
on to the others.  On the way its unicast flag is cleared and a wildcard reply
address is replaced by the address of the sender, so that answers still reach the
client.  All other octets, and every other datagram, stay as they are.
-/

namespace PvNet.Relay

/-- Where the octet with the unicast flag stands in a datagram. -/
def flagsOffset : Nat := Header.wireSize + 4

/-- Where the reply address stands in a datagram. -/
def addressOffset : Nat := Header.wireSize + 8

/-- Whether a datagram starts with a search message that has room for a reply address. -/
def isSearch (datagram : Bytes) : Bool :=
  match datagram with
  | magic :: _ :: flags :: command :: a :: b :: c :: d :: body =>
    let size := (Header.orderOfFlags flags).decode [a, b, c, d]
    magic == Header.magic && flags &&& Header.controlFlag == 0 && command == Command.search &&
      SearchRequest.fixedSize ≤ size && size ≤ body.length
  | _ => false

/-- The datagram with `bytes` in place of as many octets at `offset`. -/
def patch (offset : Nat) (bytes datagram : Bytes) : Bytes :=
  datagram.take offset ++ bytes ++ datagram.drop (offset + bytes.length)

/-- The datagram to send on in place of one from `source`, if it is a search. -/
def readdress? (source : Endpoint) (datagram : Bytes) : Option Bytes :=
  if isSearch datagram then
    let cleared := datagram.modify flagsOffset (· &&& ~~~SearchRequest.unicastFlag)
    let replyTo := IpAddress.ofOctets ((datagram.drop addressOffset).take 16)
    some (if replyTo.isWildcard then patch addressOffset source.ip.octets cleared else cleared)
  else none

/-- Readdresses a datagram from `source` in place and says whether it is to be sent on; one that is
not a search stays as it is. -/
def rewrite (source : Endpoint) : StateM Bytes Bool := do
  if !isSearch (← get) then return false
  modify (·.modify flagsOffset (· &&& ~~~SearchRequest.unicastFlag))
  let replyTo := IpAddress.ofOctets (((← get).drop addressOffset).take 16)
  if replyTo.isWildcard then modify (patch addressOffset source.ip.octets)
  return true

theorem run_rewrite_of_none {source : Endpoint} {datagram : Bytes}
    (h : readdress? source datagram = none) :
    (rewrite source).run datagram = (false, datagram) := by
  unfold readdress? at h
  split at h
  · cases h
  · rename_i hsearch
    simp only [rewrite, Bool.eq_false_iff.2 hsearch, StateT.run_bind, StateT.run_get, pure_bind]
    rfl

theorem run_rewrite_of_some {source : Endpoint} {datagram changed : Bytes}
    (h : readdress? source datagram = some changed) :
    (rewrite source).run datagram = (true, changed) := by
  -- The flags stand in front of the address, so it is still the received one when it is looked at.
  have hreply : (datagram.modify flagsOffset (· &&& ~~~SearchRequest.unicastFlag)).drop
      addressOffset = datagram.drop addressOffset := List.drop_modify_of_lt _ _ _ _ (by decide)
  unfold readdress? at h
  split at h
  · rename_i hsearch
    obtain rfl := Option.some.inj h
    by_cases hwildcard : (IpAddress.ofOctets ((datagram.drop addressOffset).take 16)).isWildcard
    · simp only [rewrite, hsearch, hreply, hwildcard, StateT.run_bind, StateT.run_get,
        StateT.run_modify, pure_bind, Bool.not_true, Bool.false_eq_true, if_true, if_false]
      rfl
    · simp only [rewrite, hsearch, hreply, hwildcard, StateT.run_bind, StateT.run_get,
        StateT.run_modify, pure_bind, Bool.not_true, Bool.false_eq_true, if_false]
      rfl
  · cases h

end PvNet.Relay
