import PvNet.Discovery.BeaconTracker
import PvNet.Discovery.SearchManager
import PvNet.Message.Basic
import PvNet.Notation.Schema
import PvNet.Status
import PvNet.Validation
set_option autoImplicit false

/-!
# A notation for messages

Headers, messages and the contents of the messages of discovery and validation as
documents, with one member for each of their parts.
-/

namespace PvNet

instance : ToDocument Header where
  toDocument h :=
    .object
      [ ("version", toDocument h.version), ("flags", toDocument h.flags),
        ("command", toDocument h.command), ("payload_size", toDocument h.payloadSize),
        ("order", toDocument h.order), ("control", toDocument h.isControl),
        ("from_server", toDocument h.isFromServer), ("segmented", toDocument h.isSegmented),
        ("payload_len", toDocument h.payloadLength), ("control_data", toDocument h.payloadSize) ]

instance : ToDocument Message where
  toDocument m :=
    .object
      [ ("header", toDocument m.header), ("payload", toDocument m.payload),
        ("wire_size", toDocument m.wireSize) ]

instance : ToDocument Status where
  toDocument s :=
    .object
      [ ("kind", .text s.kind.title.toLower), ("message", .text s.message),
        ("call_tree", .text s.callTree), ("success", .bool s.isSuccess), ("text", .text s.text) ]

instance : ToDocument SearchEntry := ⟨fun e => toDocument (e.cid, e.name)⟩

instance : ToDocument SearchRequest where
  toDocument r :=
    .object
      [ ("sequence", toDocument r.sequence), ("unicast", .bool r.unicast),
        ("reply_to", toDocument r.replyTo), ("protocols", toDocument r.protocols),
        ("channels", toDocument r.channels) ]

instance : ToDocument SearchResponse where
  toDocument r :=
    .object
      [ ("guid", toDocument r.guid), ("sequence", toDocument r.sequence),
        ("server", toDocument r.server), ("protocol", .text r.protocol),
        ("found", .bool r.found), ("cids", toDocument r.cids) ]

instance : ToDocument SearchResult where
  toDocument r :=
    .object
      [ ("cid", toDocument r.cid), ("name", .text r.name), ("guid", toDocument r.guid),
        ("server", toDocument r.server), ("minor_revision", toDocument r.minorRevision),
        ("sequence", toDocument r.sequence) ]

instance : ToDocument Described := ⟨fun d => toDocument (d.field, d.value)⟩

instance : ToDocument Beacon where
  toDocument b :=
    .object
      [ ("guid", toDocument b.guid), ("flags", toDocument b.flags),
        ("sequence", toDocument b.sequence), ("change_count", toDocument b.changeCount),
        ("server", toDocument b.server), ("protocol", .text b.protocol),
        ("status", toDocument b.status) ]

instance : ToDocument Outgoing := ⟨fun d => toDocument (d.target, d.bytes)⟩

/-- The known servers, in the order of their endpoints. -/
instance : ToDocument BeaconTracker where
  toDocument t :=
    .array ((t.servers.entries.mergeSort fun a b => a.1.rank ≤ b.1.rank).map fun (server, s) =>
      .array [toDocument server, toDocument s.guid, toDocument s.changeCount])

instance : ToDocument Greeting where
  toDocument g :=
    .object
      [ ("receive_buffer_size", toDocument g.receiveBufferSize),
        ("introspection_capacity", toDocument g.introspectionCapacity),
        ("auth_plugins", toDocument g.authPlugins) ]

instance : ToDocument Reply where
  toDocument r :=
    .object
      [ ("receive_buffer_size", toDocument r.receiveBufferSize),
        ("introspection_capacity", toDocument r.introspectionCapacity), ("qos", toDocument r.qos),
        ("auth_plugin", .text r.authPlugin) ]

instance : ToDocument PeerInfo where
  toDocument p :=
    .object
      [ ("revision", toDocument p.revision),
        ("receive_buffer_size", toDocument p.receiveBufferSize),
        ("introspection_capacity", toDocument p.introspectionCapacity) ]

end PvNet
