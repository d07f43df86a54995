import PvNet.Cli.Report
import PvNet.Net.Interface
set_option autoImplicit false

/-!
# Diagnostics

The version of the program, how it was built, and the settings and the network that
it finds.
-/

namespace PvNet.Cli

def programName : String := "pvaccess"

def programVersion : String := "0.3.0"

def programTitle : String := programName ++ " " ++ programVersion

/-- How the program was built and where it runs. -/
structure Host where
  os : String := "linux"
  arch : String := "x86_64"
  target : String := "x86_64-unknown-linux-gnu"
  compiler : String := "unknown"
  revision : String := "unknown"
  interfaces : List Interface := []
  /-- The broadcast addresses of the interfaces. -/
  broadcast : List Endpoint := []
  /-- What the names of hosts stand for. -/
  names : Resolver := fun _ => []

/-- What the program can do. -/
def features : List String := ["cli", "poller"]

/-- The lines about the version. -/
def versionLines (host : Host) (extended : Bool) : List String :=
  if extended then
    [ "name: " ++ programName, "version: " ++ programVersion,
      "protocol_revision: " ++ toString Header.revision.toNat, "target_os: " ++ host.os,
      "target_arch: " ++ host.arch, "rustc: " ++ host.compiler,
      "git_hash: " ++ host.revision, "features: cli=true, poller=true" ]
  else [programTitle]

/-- The variable that filters the log. -/
def logFilterKey : String := "RUST_LOG"

/-- The environment variables that concern the program, in order of their names. -/
def environmentVariables : List String :=
  [ Config.networkRulesKey, Config.addressesKey, Config.autoAddressesKey, Config.beaconPeriodKey,
    Config.broadcastPortKey, Config.connectionTimeoutKey, Config.multicastGroupKey,
    Config.receiveBufferSizeKey, Config.serverPortKey, logFilterKey ]

/-- The effective settings in the order of their names. -/
def settings (c : Config) : List (String × String) := c.entries.mergeSort fun a b => a.1 ≤ b.1

def interfaceDocument (i : Interface) : Document :=
  .object
    [ ("name", .text i.name), ("address", .text i.address.text),
      ("broadcast", .ofText? (i.broadcast.map Ipv4.text)), ("up", .bool i.up),
      ("loopback", .bool i.loopback), ("multicast", .bool i.multicast) ]

/-- The word for a truth value. -/
def truthWord (b : Bool) : String := if b then "true" else "false"

def interfaceLine (i : Interface) : String :=
  "    " ++ Text.aligned 12 i.name ++ " " ++ Text.aligned 16 i.address.text ++ " bcast=" ++
    (i.broadcast.map Ipv4.text).getD "-" ++ " up=" ++ truthWord i.up ++ " loopback=" ++
    truthWord i.loopback ++ " multicast=" ++ truthWord i.multicast

def settingLine (name value : String) : String := "    " ++ Text.aligned 32 name ++ " " ++ value

/-- The settings and the network as lines. -/
def environmentLines (host : Host) (c : Config) (environment : String → Option String) :
    OutputFormat → List String
  | .json =>
    [ (documentOf "envinfo"
        [ ("version", .text programVersion), ("target", .text host.target),
          ("rust_version", .text host.compiler), ("git_hash", .text host.revision),
          ("platform", .object [("os", .text host.os), ("arch", .text host.arch)]),
          ("features", .array (features.map .text)),
          ("configuration", .object ((settings c).map fun s => (s.1, .text s.2))),
          ("broadcast_addresses", .array (host.broadcast.map fun a => .text a.text)),
          ("interfaces", .array (host.interfaces.map interfaceDocument)),
          ("environment",
            .object (environmentVariables.map fun v => (v, .ofText? (environment v)))) ]).render ]
  | .raw => [programVersion]
  | _ =>
    [ programName ++ " environment", "", "  Version:    " ++ programVersion,
      "  Target:     " ++ host.target, "  Rust:       " ++ host.compiler,
      "  Git hash:   " ++ host.revision,
      "  Platform:   " ++ host.os ++ " (" ++ host.arch ++ ")",
      "  Features:   " ++ ", ".intercalate features, "", "  Configuration:" ] ++
    ((settings c).map fun s => settingLine s.1 s.2) ++
    [ "", "  Broadcast:  " ++ " ".intercalate (host.broadcast.map Endpoint.text), "",
      "  Interfaces:" ] ++
    host.interfaces.map interfaceLine ++ ["", "  Environment:"] ++
    environmentVariables.map fun v => settingLine v ((environment v).getD "(not set)")

end PvNet.Cli
