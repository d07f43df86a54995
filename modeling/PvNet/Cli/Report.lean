import PvNet.Cli.CommandLine
import PvNet.Discovery.BeaconTracker
import PvNet.Discovery.SearchManager
import PvNet.Text.Document
import PvNet.Text.Grid
set_option autoImplicit false

/-!
# Reports

What commands print: the events of a beacon watch, where searched channels are, and
summaries of names and values.  Every report has a form for each output format and is
given as the lines to print.
-/

namespace PvNet.Cli

/-- Where the schemas of the reports are. -/
def schemaBase : String := "https://schemas.3leaps.dev/pvaccess/cli/v1/"

def schema (name : String) : String := schemaBase ++ name ++ ".schema.json"

/-- A document with the schema it follows. -/
def documentOf (name : String) (members : List (String × Document)) : Document :=
  .object (("schema_id", .text (schema name)) :: members)

/-! ## Beacons -/

/-- A server that appears or changes. -/
structure BeaconEvent where
  outcome : BeaconOutcome
  server : Endpoint
  guid : Guid
  changeCount : UInt16
  sequence : UInt8

namespace BeaconEvent

def ofSighting (s : BeaconTracker.Sighting) : BeaconEvent :=
  ⟨s.outcome, s.server, s.beacon.guid, s.beacon.changeCount, s.beacon.sequence⟩

/-- The name of what happened. -/
def title : BeaconOutcome → String
  | .firstSighting => "new"
  | .changed => "changed"
  | .unchanged => "beacon"

def lines (e : BeaconEvent) (timestamp : String) : OutputFormat → List String
  | .json =>
    [ (documentOf "beacon-event"
        [ ("event", .text (title e.outcome)), ("server", .text e.server.text),
          ("guid", .text e.guid.text), ("change_count", .number e.changeCount.toNat),
          ("sequence", .number e.sequence.toNat), ("timestamp", .text timestamp) ]).render ]
  | .table =>
    Text.Grid.lines
      ⟨["EVENT", "SERVER", "GUID", "CHANGES", "SEQ"],
        [[ title e.outcome, e.server.text, e.guid.text, toString e.changeCount.toNat,
           toString e.sequence.toNat ]]⟩
  | .pretty =>
    [ title e.outcome ++ " server=" ++ e.server.text ++ " guid=" ++ e.guid.text ++
        " change_count=" ++ toString e.changeCount.toNat ++ " seq=" ++
        toString e.sequence.toNat ]
  | .raw => [e.server.text]

end BeaconEvent

/-! ## Channels -/

/-- Where a searched channel is. -/
structure ChannelLocation where
  channel : String
  found : Option SearchResult
  /-- Whether a connection to the server came about, if that was tried. -/
  connected : Option Bool

namespace ChannelLocation

def document (l : ChannelLocation) : Document :=
  .object
    [ ("channel", .text l.channel), ("found", .bool l.found.isSome),
      ("server", .ofText? (l.found.map (·.server.text))),
      ("guid", .ofText? (l.found.map (·.guid.text))),
      ("minor_revision", l.found.elim .null fun r => .number r.minorRevision.toNat),
      ("connected", l.connected.elim .null .bool) ]

/-- The location as a row of a table. -/
def row (l : ChannelLocation) : List String :=
  [ l.channel, (l.found.map (·.server.text)).getD "(not found)",
    (l.found.map (·.guid.text)).getD "",
    l.connected.elim "-" fun ok => if ok then "true" else "false" ]

/-- The report on some channels as lines. -/
def lines (locations : List ChannelLocation) (timestamp : String) : OutputFormat → List String
  | .json =>
    [ (documentOf "search-report"
        [ ("channels", .array (locations.map document)),
          ("timestamp", .text timestamp) ]).render ]
  | .table =>
    Text.Grid.lines ⟨["CHANNEL", "SERVER", "GUID", "CONNECTED"], locations.map row⟩
  | .pretty =>
    locations.map fun l =>
      match l.found with
      | some r => l.channel ++ " found at " ++ r.server.text
      | none => l.channel ++ " not found"
  | .raw => locations.map fun l => l.channel ++ " " ++ (l.found.map (·.server.text)).getD "-"

end ChannelLocation

/-! ## Summaries -/

/-- Names and values that sum up a command. -/
structure Summary where
  /-- The name of its schema. -/
  name : String
  fields : List (String × String)

namespace Summary

/-- The summary as lines; a document has its members in the order of their names. -/
def lines (s : Summary) : OutputFormat → List String
  | .json =>
    let members := ("schema_id", schema s.name) :: s.fields
    [ (Document.object
        ((members.mergeSort fun a b => a.1 ≤ b.1).map fun f => (f.1, .text f.2))).render ]
  | .table => Text.Grid.lines ⟨["KEY", "VALUE"], s.fields.map fun f => [f.1, f.2]⟩
  | .pretty => [" ".intercalate (s.fields.map fun f => f.1 ++ "=" ++ f.2)]
  | .raw => s.fields.map (·.2)

end Summary

end PvNet.Cli
