import PvNet.Net.Address
import PvNet.Number.Total
import PvNet.Table
set_option autoImplicit false

/-!
# The registry of connections

The open connections by the address of the peer and, for each address, by priority.
A connection is removed only if it is itself the registered one, not merely one with
the same address and priority.
-/

namespace PvNet

/-- Connections, known by some kind of name, by address and priority. -/
structure Registry (α : Type) where
  peers : Table Endpoint (Table Int16 α) := .empty

namespace Registry

variable {α : Type}

instance : Inhabited (Registry α) := ⟨{}⟩

/-- The connections to an address, by priority. -/
def peer (r : Registry α) (address : Endpoint) : Table Int16 α :=
  (r.peers.get? address).getD .empty

/-- The connection to an address with a priority. -/
def get? (r : Registry α) (address : Endpoint) (priority : Int16) : Option α :=
  (r.peer address).get? priority

/-- The connections to an address. -/
def getAll (r : Registry α) (address : Endpoint) : List α := (r.peer address).values

/-- All connections. -/
def all (r : Registry α) : List α := r.peers.values.flatMap Table.values

/-- The number of connections. -/
def size (r : Registry α) : Nat := total Table.size r.peers.values

/-- Whether there is no connection. -/
def isEmpty (r : Registry α) : Bool := r.size = 0

/-- Registers a connection.  Returns the one it displaces. -/
def put (r : Registry α) (address : Endpoint) (priority : Int16) (c : α) :
    Option α × Registry α :=
  (r.get? address priority, ⟨r.peers.put address ((r.peer address).put priority c)⟩)

/-- Removes a connection if it is the registered one.  Returns whether it was. -/
def remove [DecidableEq α] (r : Registry α) (address : Endpoint) (priority : Int16) (c : α) :
    Bool × Registry α :=
  if r.get? address priority = some c then
    let rest := (r.peer address).erase priority
    (true, ⟨if rest.isEmpty then r.peers.erase address else r.peers.put address rest⟩)
  else (false, r)

/-- Removes every connection and returns them. -/
def clear (r : Registry α) : List α × Registry α := (r.all, {})

end Registry

end PvNet
