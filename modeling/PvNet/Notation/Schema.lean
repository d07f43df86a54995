import PvNet.Notation.Basic
import PvNet.Value.Basic
set_option autoImplicit false

/-!
# A notation for descriptors and values

A descriptor of a scalar is the name of its type, and that of a scalar array has
brackets behind it.  A structure is an object of its name and its members, and an array
of structures an object of its element.  A scalar value is an array of its type's name
and its content; arrays and structures are objects with one member that tells them
apart.  Objects have their members in the order of their names.

`Field.ofDocument?` and `Value.ofDocument?` read what `Field.document` and
`Value.document` write; integers are also read from their decimal text.
-/

namespace PvNet

/-! ## Descriptors -/

mutual

/-- A descriptor as a document. -/
def Field.document : Field → Document
  | .scalar t => .text t.name
  | .scalarArray t => .text (t.name ++ "[]")
  | .struct s => s.document
  | .structArray s => .object [("array", s.document)]
termination_by structural f => f

def Structure.document : Structure → Document
  | ⟨id, members⟩ =>
    .object [("fields", .array (Structure.memberDocuments members)), ("id", .text id)]
termination_by structural s => s

/-- Named members as documents. -/
def Structure.memberDocuments : List (String × Field) → List Document
  | [] => []
  | (name, f) :: members =>
    .array [.text name, f.document] :: Structure.memberDocuments members
termination_by structural members => members

end

instance : ToDocument Field := ⟨Field.document⟩

/-- The descriptor of a scalar or a scalar array with a name. -/
def Field.ofLeafName? (s : String) : Option Field :=
  ((ScalarType.ofName? s).map .scalar).or
    ((ScalarType.all.find? fun t => t.name ++ "[]" = s).map .scalarArray)

mutual

/-- The descriptor that a document stands for. -/
def Field.ofDocument? : Document → Option Field
  | .text s => Field.ofLeafName? s
  | .object [("array", d)] =>
    match Field.ofDocument? d with
    | some (.struct s) => some (.structArray s)
    | _ => none
  | .object [("fields", .array items), ("id", .text id)] =>
    (Field.membersOfDocuments? items).map fun members => .struct ⟨id, members⟩
  | _ => none

/-- The named members that documents stand for. -/
def Field.membersOfDocuments? : List Document → Option (List (String × Field))
  | [] => some []
  | .array [.text name, d] :: items => do
    let f ← Field.ofDocument? d
    let members ← Field.membersOfDocuments? items
    return (name, f) :: members
  | _ :: _ => none

end

/-! ## Scalars -/

namespace ScalarValue

/-- The content of a scalar.  The long integers are given as text, since few readers of documents
hold all of their digits. -/
def content : ScalarValue → Document
  | .boolean b => .bool b
  | .byte n => .number n.toInt
  | .short n => .number n.toInt
  | .int n => .number n.toInt
  | .long n => .text (toString n.toInt)
  | .ubyte n => .number n.toNat
  | .ushort n => .number n.toNat
  | .uint n => .number n.toNat
  | .ulong n => .text (toString n.toNat)
  | .float bits => .text (Hex.render (ByteOrder.big.encode 4 bits.toNat))
  | .double bits => .text (Hex.render (ByteOrder.big.encode 8 bits.toNat))
  | .string s => .text s

/-- The scalar of an integer type that an integer stands for; it wraps around. -/
def ofInt? (t : ScalarType) (n : Int) : Option ScalarValue :=
  match t with
  | .byte => some (.byte (.ofInt n))
  | .short => some (.short (.ofInt n))
  | .int => some (.int (.ofInt n))
  | .long => some (.long (.ofInt n))
  | .ubyte => some (.ubyte (.ofInt n))
  | .ushort => some (.ushort (.ofInt n))
  | .uint => some (.uint (.ofInt n))
  | .ulong => some (.ulong (.ofInt n))
  | .boolean | .float | .double | .string => none

/-- The scalar of a type that a text stands for. -/
def ofText? (t : ScalarType) (s : String) : Option ScalarValue :=
  match t with
  | .string => some (.string s)
  | .float => (Hex.parse? s).map fun bs => .float (.ofNat (ByteOrder.big.decode bs))
  | .double => (Hex.parse? s).map fun bs => .double (.ofNat (ByteOrder.big.decode bs))
  | t => s.toInt?.bind (ofInt? t)

def ofContent? (t : ScalarType) : Document → Option ScalarValue
  | .bool b => if t = .boolean then some (.boolean b) else none
  | .number n => ofInt? t n
  | .text s => ofText? t s
  | _ => none

def document (v : ScalarValue) : Document := .array [.text v.type.name, v.content]

/-- The scalar that a document stands for. -/
def ofDocument? : Document → Option ScalarValue
  | .array [.text t, content] => (ScalarType.ofName? t).bind fun t => ofContent? t content
  | _ => none

end ScalarValue

/-! ## Values -/

mutual

def Value.document : Value → Document
  | .scalar v => v.document
  | .scalarArray vs => .object [("a", .array (vs.map ScalarValue.document))]
  | .struct vs => .object [("s", .array (Value.documents vs))]
  | .structArray es => .object [("sa", .array (Value.elementDocuments es))]
termination_by structural v => v

def Value.documents : List Value → List Document
  | [] => []
  | v :: vs => v.document :: Value.documents vs
termination_by structural vs => vs

/-- The elements of an array of structures as documents. -/
def Value.elementDocuments : List (Option (List Value)) → List Document
  | [] => []
  | none :: es => .null :: Value.elementDocuments es
  | some vs :: es => .array (Value.documents vs) :: Value.elementDocuments es
termination_by structural es => es

end

instance : ToDocument Value := ⟨Value.document⟩

mutual

/-- The value that a document stands for. -/
def Value.ofDocument? : Document → Option Value
  | .object [("a", .array items)] => (items.mapM ScalarValue.ofDocument?).map .scalarArray
  | .object [("s", .array items)] => (Value.ofDocuments? items).map .struct
  | .object [("sa", .array items)] => (Value.elementsOfDocuments? items).map .structArray
  | d => (ScalarValue.ofDocument? d).map .scalar

/-- The values that documents stand for. -/
def Value.ofDocuments? : List Document → Option (List Value)
  | [] => some []
  | d :: ds => do
    let v ← Value.ofDocument? d
    let vs ← Value.ofDocuments? ds
    return v :: vs

/-- The elements of an array of structures that documents stand for. -/
def Value.elementsOfDocuments? : List Document → Option (List (Option (List Value)))
  | [] => some []
  | .null :: ds => (Value.elementsOfDocuments? ds).map (none :: ·)
  | .array items :: ds => do
    let vs ← Value.ofDocuments? items
    let es ← Value.elementsOfDocuments? ds
    return some vs :: es
  | _ :: _ => none

end

end PvNet
