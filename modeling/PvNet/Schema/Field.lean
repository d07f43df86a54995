import PvNet.Wire.Bytes
set_option autoImplicit false

/-!
# Field descriptors

A descriptor says what a value looks like: a scalar, an array of scalars, a
structure of named members or an array of structures.  Equality of descriptors is
decided by recursion on the descriptor.

Offsets number a structure and everything below it in pre-order, the structure
itself being 0; an array of structures counts one, whatever its elements hold.
-/

namespace PvNet

/-- The scalar types. -/
inductive ScalarType where
  | boolean
  | byte
  | short
  | int
  | long
  | ubyte
  | ushort
  | uint
  | ulong
  | float
  | double
  | string
  deriving DecidableEq, Repr, Inhabited

namespace ScalarType

/-- Every scalar type, by ascending type code. -/
def all : List ScalarType :=
  [.boolean, .byte, .short, .int, .long, .ubyte, .ushort, .uint, .ulong, .float, .double, .string]

def code : ScalarType → UInt8
  | .boolean => 0x00
  | .byte => 0x20
  | .short => 0x21
  | .int => 0x22
  | .long => 0x23
  | .ubyte => 0x24
  | .ushort => 0x25
  | .uint => 0x26
  | .ulong => 0x27
  | .float => 0x42
  | .double => 0x43
  | .string => 0x60

def ofCode? (c : UInt8) : Option ScalarType := all.find? fun t => t.code = c

theorem ofCode?_code (t : ScalarType) : ofCode? t.code = some t := by cases t <;> rfl

def name : ScalarType → String
  | .boolean => "boolean"
  | .byte => "byte"
  | .short => "short"
  | .int => "int"
  | .long => "long"
  | .ubyte => "ubyte"
  | .ushort => "ushort"
  | .uint => "uint"
  | .ulong => "ulong"
  | .float => "float"
  | .double => "double"
  | .string => "string"

def ofName? (s : String) : Option ScalarType := all.find? fun t => t.name = s

end ScalarType

mutual

/-- What a value looks like. -/
inductive Field where
  | scalar (type : ScalarType)
  | scalarArray (type : ScalarType)
  | struct (shape : Structure)
  | structArray (element : Structure)

/-- A type name and the named members, in order. -/
inductive Structure where
  | mk (id : String) (members : List (String × Field))

end

instance : Inhabited Field := ⟨.scalar .boolean⟩

instance : Inhabited Structure := ⟨.mk "" []⟩

namespace Structure

/-- The type name, which may be empty. -/
def id : Structure → String
  | ⟨id, _⟩ => id

/-- The named members, in order. -/
def members : Structure → List (String × Field)
  | ⟨_, members⟩ => members

/-- The number of members. -/
def size (s : Structure) : Nat := s.members.length

/-- The position of the first member with a name. -/
def indexOf? (s : Structure) (name : String) : Option Nat :=
  s.members.findIdx? fun m => m.1 = name

/-- The first member with a name. -/
def find? (s : Structure) (name : String) : Option Field :=
  (s.members.find? fun m => m.1 = name).map (·.2)

end Structure

/-! ## Equality -/

mutual

/-- Whether two descriptors are the same. -/
def Field.same : Field → Field → Bool
  | .scalar s, .scalar t => s == t
  | .scalarArray s, .scalarArray t => s == t
  | .struct s, .struct t => s.same t
  | .structArray s, .structArray t => s.same t
  | _, _ => false
termination_by structural f => f

/-- Whether two structures are the same. -/
def Structure.same : Structure → Structure → Bool
  | ⟨a, ms⟩, ⟨b, ns⟩ => a == b && Structure.sameMembers ms ns
termination_by structural s => s

/-- Whether two lists of members are the same. -/
def Structure.sameMembers : List (String × Field) → List (String × Field) → Bool
  | [], [] => true
  | (a, f) :: ms, (b, g) :: ns => a == b && f.same g && Structure.sameMembers ms ns
  | _, _ => false
termination_by structural ms => ms

end

mutual

theorem Field.eq_of_same : ∀ {f g : Field}, f.same g = true → f = g
  | .scalar _, .scalar _, h => by simpa [Field.same] using h
  | .scalarArray _, .scalarArray _, h => by simpa [Field.same] using h
  | .struct s, .struct t, h => by
    rw [Structure.eq_of_same (s := s) (t := t) (by simpa [Field.same] using h)]
  | .structArray s, .structArray t, h => by
    rw [Structure.eq_of_same (s := s) (t := t) (by simpa [Field.same] using h)]
  | .scalar _, .scalarArray _, h => by simp [Field.same] at h
  | .scalar _, .struct _, h => by simp [Field.same] at h
  | .scalar _, .structArray _, h => by simp [Field.same] at h
  | .scalarArray _, .scalar _, h => by simp [Field.same] at h
  | .scalarArray _, .struct _, h => by simp [Field.same] at h
  | .scalarArray _, .structArray _, h => by simp [Field.same] at h
  | .struct _, .scalar _, h => by simp [Field.same] at h
  | .struct _, .scalarArray _, h => by simp [Field.same] at h
  | .struct _, .structArray _, h => by simp [Field.same] at h
  | .structArray _, .scalar _, h => by simp [Field.same] at h
  | .structArray _, .scalarArray _, h => by simp [Field.same] at h
  | .structArray _, .struct _, h => by simp [Field.same] at h

theorem Structure.eq_of_same : ∀ {s t : Structure}, s.same t = true → s = t
  | ⟨a, ms⟩, ⟨b, ns⟩, h => by
    simp only [Structure.same, Bool.and_eq_true, beq_iff_eq] at h
    rw [h.1, Structure.eq_of_sameMembers h.2]

theorem Structure.eq_of_sameMembers :
    ∀ {ms ns : List (String × Field)}, Structure.sameMembers ms ns = true → ms = ns
  | [], [], _ => rfl
  | (a, f) :: ms, (b, g) :: ns, h => by
    simp only [Structure.sameMembers, Bool.and_eq_true, beq_iff_eq] at h
    rw [h.1.1, Field.eq_of_same h.1.2, Structure.eq_of_sameMembers h.2]
  | [], _ :: _, h => by simp [Structure.sameMembers] at h
  | _ :: _, [], h => by simp [Structure.sameMembers] at h

end

mutual

theorem Field.same_self : ∀ f : Field, f.same f = true
  | .scalar _ => by simp [Field.same]
  | .scalarArray _ => by simp [Field.same]
  | .struct s => by simpa [Field.same] using Structure.same_self s
  | .structArray s => by simpa [Field.same] using Structure.same_self s

theorem Structure.same_self : ∀ s : Structure, s.same s = true
  | ⟨a, ms⟩ => by simpa [Structure.same] using Structure.sameMembers_self ms

theorem Structure.sameMembers_self :
    ∀ ms : List (String × Field), Structure.sameMembers ms ms = true
  | [] => rfl
  | (a, f) :: ms => by
    simp [Structure.sameMembers, Field.same_self f, Structure.sameMembers_self ms]

end

instance : DecidableEq Field := fun f g =>
  decidable_of_iff (f.same g = true) ⟨Field.eq_of_same, fun h => h ▸ Field.same_self f⟩

instance : DecidableEq Structure := fun s t =>
  decidable_of_iff (s.same t = true) ⟨Structure.eq_of_same, fun h => h ▸ Structure.same_self s⟩

/-! ## Type codes -/

namespace Field

/-- The type code of a structure. -/
def structCode : UInt8 := 0x80

/-- The type code of an array of structures. -/
def structArrayCode : UInt8 := 0x88

/-- The bit that turns a scalar's type code into that of an array of it. -/
def arrayBit : UInt8 := 0x08

/-- The type code in front of a descriptor. -/
def typeCode : Field → UInt8
  | .scalar t => t.code
  | .scalarArray t => t.code ||| arrayBit
  | .struct _ => structCode
  | .structArray _ => structArrayCode

/-- The scalar or array of scalars with a type code. -/
def ofLeafCode? (c : UInt8) : Option Field :=
  match ScalarType.ofCode? c with
  | some t => some (.scalar t)
  | none =>
    if c &&& arrayBit ≠ 0 then (ScalarType.ofCode? (c &&& ~~~arrayBit)).map .scalarArray
    else none

/-- Whether a connection numbers this descriptor: scalars and arrays of them are a single octet
and never numbered. -/
def isNumbered : Field → Bool
  | .struct _ | .structArray _ => true
  | .scalar _ | .scalarArray _ => false

/-- The structure, if the descriptor is one. -/
def asStruct? : Field → Option Structure
  | .struct s => some s
  | _ => none

end Field

/-! ## Offsets -/

mutual

/-- How many offsets a field takes up. -/
def Field.offsetCount : Field → Nat
  | .struct s => s.offsetCount
  | .scalar _ | .scalarArray _ | .structArray _ => 1
termination_by structural f => f

/-- How many offsets a structure and everything below it take up. -/
def Structure.offsetCount : Structure → Nat
  | ⟨_, ms⟩ => 1 + Structure.memberOffsets ms
termination_by structural s => s

/-- How many offsets a list of members takes up. -/
def Structure.memberOffsets : List (String × Field) → Nat
  | [] => 0
  | (_, f) :: ms => f.offsetCount + Structure.memberOffsets ms
termination_by structural ms => ms

end

namespace Structure

/-- The first member with a name and its offset, the first of the given members being at
`offset`. -/
def locate? (name : String) : Nat → List (String × Field) → Option (Nat × Field)
  | _, [] => none
  | offset, (n, f) :: ms =>
    if n = name then some (offset, f) else locate? name (offset + f.offsetCount) ms

/-- The offset of the member that a path of names leads to, `base` being that of the structure. -/
def offsetAlong (base : Nat) (s : Structure) : List String → Option Nat
  | [] => none
  | [name] => (locate? name (base + 1) s.members).map (·.1)
  | name :: path => do
    let (offset, f) ← locate? name (base + 1) s.members
    offsetAlong offset (← f.asStruct?) path

/-- The offset of the member that a dotted path leads to. -/
def offsetOf? (s : Structure) (path : String) : Option Nat := s.offsetAlong 0 (path.splitOn ".")

end Structure

end PvNet
