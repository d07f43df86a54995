set_option autoImplicit false

/-!
# Command numbers

Application messages and control messages number their commands independently;
the control flag of the header says which numbering a command octet belongs to.
-/

namespace PvNet.Command

/-- A server announces itself. -/
def beacon : UInt8 := 0

/-- Both ends agree on a connection's parameters. -/
def validation : UInt8 := 1

/-- The payload is to be sent back. -/
def echo : UInt8 := 2

/-- A client looks for channels. -/
def search : UInt8 := 3

/-- A server answers a search. -/
def searchResponse : UInt8 := 4

/-- The server accepts or refuses a connection. -/
def validated : UInt8 := 9

/-- Control: the receiver is to send in the order of this message. -/
def setByteOrder : UInt8 := 2

/-- Control: the data is to be sent back. -/
def echoRequest : UInt8 := 3

/-- Control: the data of an echo request. -/
def echoResponse : UInt8 := 4

/-- The name of a command in the numbering that the control flag selects. -/
def name (command : UInt8) (control : Bool) : String :=
  if control then
    if command = setByteOrder then "SET_BYTE_ORDER"
    else if command = echoRequest then "ECHO_REQUEST"
    else if command = echoResponse then "ECHO_RESPONSE"
    else "CONTROL"
  else
    if command = beacon then "BEACON"
    else if command = validation then "CONNECTION_VALIDATION"
    else if command = echo then "ECHO"
    else if command = search then "SEARCH"
    else if command = searchResponse then "SEARCH_RESPONSE"
    else if command = validated then "CONNECTION_VALIDATED"
    else "APPLICATION"

/-- Whether an application command travels in datagrams. -/
def isDatagram (command : UInt8) : Bool :=
  command = beacon || command = search || command = searchResponse

end PvNet.Command
