import PvNet.Schema.Field
set_option autoImplicit false

/-!
# Values

A value knows its own scalar types, so whether it suits a descriptor is a question
that `Field.admits` answers.  Floating-point numbers are their IEEE bits, and
therefore compared and transported bit by bit.

The value of a structure is the list of its members' values, in the order of the
descriptor.
-/

namespace PvNet

inductive ScalarValue where
  | boolean (value : Bool)
  | byte (value : Int8)
  | short (value : Int16)
  | int (value : Int32)
  | long (value : Int64)
  | ubyte (value : UInt8)
  | ushort (value : UInt16)
  | uint (value : UInt32)
  | ulong (value : UInt64)
  /-- The bits of a 32-bit floating-point number. -/
  | float (bits : UInt32)
  /-- The bits of a 64-bit floating-point number. -/
  | double (bits : UInt64)
  | string (value : String)
  deriving DecidableEq, Repr, Inhabited

namespace ScalarValue

def type : ScalarValue → ScalarType
  | .boolean _ => .boolean
  | .byte _ => .byte
  | .short _ => .short
  | .int _ => .int
  | .long _ => .long
  | .ubyte _ => .ubyte
  | .ushort _ => .ushort
  | .uint _ => .uint
  | .ulong _ => .ulong
  | .float _ => .float
  | .double _ => .double
  | .string _ => .string

def zero : ScalarType → ScalarValue
  | .boolean => .boolean false
  | .byte => .byte 0
  | .short => .short 0
  | .int => .int 0
  | .long => .long 0
  | .ubyte => .ubyte 0
  | .ushort => .ushort 0
  | .uint => .uint 0
  | .ulong => .ulong 0
  | .float => .float 0
  | .double => .double 0
  | .string => .string ""

@[simp] theorem type_zero (t : ScalarType) : (zero t).type = t := by cases t <;> rfl

end ScalarValue

/-- A value of any shape. -/
inductive Value where
  | scalar (value : ScalarValue)
  | scalarArray (items : List ScalarValue)
  | struct (members : List Value)
  /-- The elements of an array of structures, each of which may be absent. -/
  | structArray (elements : List (Option (List Value)))
  deriving Inhabited

/-! ## Zero values -/

mutual

/-- The zero value of a field: zero scalars, empty arrays and structures of zeros. -/
def Field.zero : Field → Value
  | .scalar t => .scalar (.zero t)
  | .scalarArray _ => .scalarArray []
  | .struct s => .struct s.zero
  | .structArray _ => .structArray []
termination_by structural f => f

def Structure.zero : Structure → List Value
  | ⟨_, ms⟩ => Structure.memberZeros ms
termination_by structural s => s

def Structure.memberZeros : List (String × Field) → List Value
  | [] => []
  | (_, f) :: ms => f.zero :: Structure.memberZeros ms
termination_by structural ms => ms

end

theorem Structure.length_memberZeros (ms : List (String × Field)) :
    (Structure.memberZeros ms).length = ms.length := by
  induction ms with
  | nil => rfl
  | cons m ms ih => simp [Structure.memberZeros, ih]

@[simp] theorem Structure.length_zero (s : Structure) : s.zero.length = s.size := by
  cases s
  simp [Structure.zero, Structure.size, Structure.members, Structure.length_memberZeros]

/-! ## Suitability -/

mutual

/-- Whether a value has the shape that a descriptor asks for, down to every scalar. -/
def Field.admits : Field → Value → Bool
  | .scalar t, .scalar v => v.type = t
  | .scalarArray t, .scalarArray items => items.all fun v => v.type = t
  | .struct s, .struct members => s.admits members
  | .structArray s, .structArray elements => elements.all fun
    | none => true
    | some members => s.admits members
  | _, _ => false
termination_by structural f => f

/-- Whether a list of values suits the members of a structure. -/
def Structure.admits : Structure → List Value → Bool
  | ⟨_, ms⟩, members => Structure.admitsMembers ms members
termination_by structural s => s

/-- Whether a list of values suits a list of members, one by one. -/
def Structure.admitsMembers : List (String × Field) → List Value → Bool
  | [], [] => true
  | (_, f) :: ms, v :: vs => f.admits v && Structure.admitsMembers ms vs
  | _, _ => false
termination_by structural ms => ms

end

mutual

theorem Field.admits_zero : ∀ f : Field, f.admits f.zero = true
  | .scalar t => by simp [Field.admits, Field.zero]
  | .scalarArray _ => by simp [Field.admits, Field.zero]
  | .struct s => by simpa [Field.admits, Field.zero] using Structure.admits_zero s
  | .structArray _ => by simp [Field.admits, Field.zero]

theorem Structure.admits_zero : ∀ s : Structure, s.admits s.zero = true
  | ⟨_, ms⟩ => by simpa [Structure.admits, Structure.zero] using Structure.admitsMembers_zeros ms

theorem Structure.admitsMembers_zeros :
    ∀ ms : List (String × Field), Structure.admitsMembers ms (Structure.memberZeros ms) = true
  | [] => rfl
  | (_, f) :: ms => by
    simp [Structure.admitsMembers, Structure.memberZeros, Field.admits_zero f,
      Structure.admitsMembers_zeros ms]

end

/-! ## Members by name -/

namespace Structure

/-- The value of the first member with a name. -/
def memberOf? (s : Structure) (members : List Value) (name : String) : Option Value := do
  members[← s.indexOf? name]?

/-- Replaces the value of the first member with a name; nothing happens if there is none. -/
def setMember (s : Structure) (members : List Value) (name : String) (v : Value) : List Value :=
  match s.indexOf? name with
  | some i => members.set i v
  | none => members

end Structure

end PvNet
