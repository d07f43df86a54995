import PvNet.Discovery.Guid
import PvNet.Net.AddressText
import PvNet.Number.Duration
import PvNet.Text.Document
import PvNet.Text.Hex
set_option autoImplicit false

/-!
# Values as documents

Numbers, texts and truth values stand for themselves.  Octets are given in hexadecimal
digits, addresses and identities in their usual text, and a duration as the text of its
nanoseconds.  What is not there is null, and a pair is an array of two.
-/

namespace PvNet

/-- Values that documents show. -/
class ToDocument (α : Type) where
  /-- The value as a document. -/
  toDocument : α → Document

export ToDocument (toDocument)

instance : ToDocument Document := ⟨id⟩

instance : ToDocument Bool := ⟨.bool⟩

instance : ToDocument Int := ⟨.number⟩

instance : ToDocument Nat := ⟨fun n => .number n⟩

instance : ToDocument UInt8 := ⟨fun n => .number n.toNat⟩

instance : ToDocument UInt16 := ⟨fun n => .number n.toNat⟩

instance : ToDocument UInt32 := ⟨fun n => .number n.toNat⟩

instance : ToDocument UInt64 := ⟨fun n => .number n.toNat⟩

instance : ToDocument Int16 := ⟨fun n => .number n.toInt⟩

instance : ToDocument String := ⟨.text⟩

instance {α : Type} [ToDocument α] : ToDocument (Option α) := ⟨fun x => x.elim .null toDocument⟩

instance {α : Type} [ToDocument α] : ToDocument (List α) := ⟨fun xs => .array (xs.map toDocument)⟩

instance {α β : Type} [ToDocument α] [ToDocument β] : ToDocument (α × β) :=
  ⟨fun p => .array [toDocument p.1, toDocument p.2]⟩

instance (priority := high) : ToDocument Bytes := ⟨fun bs => .text (Hex.render bs)⟩

instance : ToDocument ByteOrder :=
  ⟨fun
    | .big => .text "big"
    | .little => .text "little"⟩

instance : ToDocument Guid := ⟨fun g => .text g.text⟩

instance : ToDocument Ipv4 := ⟨fun a => .text a.text⟩

instance : ToDocument Endpoint := ⟨fun e => .text e.text⟩

instance : ToDocument Duration := ⟨fun d => .text (toString d.nanoseconds)⟩

end PvNet
