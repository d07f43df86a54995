import PvNet.Discovery.SearchManager
set_option autoImplicit false

/-!
# Searching through a socket

A search manager together with the socket that it sends through.  Once it runs, it
sends by itself whatever becomes due at once; a service that does not run sends when
it is told that time has passed.  A service that runs into the end of the clock stops
to run for good.
-/

namespace PvNet

/-- A search manager with its socket. -/
structure SearchService where
  manager : SearchManager
  socket : DatagramSocket
  /-- Whether the service was told to send by itself what is due. -/
  started : Bool := false
  /-- Whether it does so. -/
  running : Bool := false

namespace SearchService

/-- Sends every search that is due. -/
def tick (s : SearchService) (now : Instant) : TickOutcome × SearchService :=
  let (outcome, sent, manager) := s.manager.tick now
  (outcome, { s with manager, socket := (s.socket.sendAll sent).2 })

/-- Whether a service that is told to wait does so; it waits no longer than the longest period. -/
def goesOn (s : SearchService) (now : Instant) : TickOutcome → Bool
  | .waits delay => (now.after? (delay.min s.manager.config.maxPeriod)).isSome
  | .canceled | .failed => false

/-- Goes on with other searches, and sends what is due if the service runs. -/
def withManager (s : SearchService) (now : Instant) (manager : SearchManager) : SearchService :=
  let s := { s with manager }
  if s.running then
    let (outcome, s) := s.tick now
    { s with running := s.goesOn now outcome }
  else s

/-- Starts to send. -/
def start (s : SearchService) (now : Instant) : SearchService :=
  if s.started then s
  else { s with started := true, running := true }.withManager now s.manager

/-- Registers a search, unless it would wait for longer than the clock can tell. -/
def register? (s : SearchService) (now : Instant) (cid : UInt32) (name : String)
    (penalize : Bool) : Option SearchService :=
  (s.manager.register? now cid name penalize).map (s.withManager now)

/-- Makes every search due at once. -/
def boost (s : SearchService) (now : Instant) : SearchService :=
  s.withManager now (s.manager.boost now)

/-- Ends a search; says whether there was one. -/
def unregister (s : SearchService) (cid : UInt32) : Bool × SearchService :=
  let (found, manager) := s.manager.unregister cid
  (found, { s with manager })

/-- Ends the searches that a response answers.  Returns what was found. -/
def respond (s : SearchService) (r : SearchResponse) (source : Endpoint)
    (minorRevision : UInt8) : List SearchResult × SearchService :=
  let (found, manager) := s.manager.respond r source minorRevision
  (found, { s with manager })

/-- Ends all searches for good and closes the socket. -/
def cancel (s : SearchService) : SearchService :=
  { s with
    manager := s.manager.cancel, socket := s.socket.close, started := false, running := false }

end SearchService

end PvNet
