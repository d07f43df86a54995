import PvNet.Schema.Field
import PvNet.Wire.Decode
set_option autoImplicit false

/-!
# Numbered descriptors

A connection writes a structure descriptor in full only once.  The sender numbers
it; afterwards the number stands for it.  Each direction has a table of its own,
and a number means nothing outside the connection.

    0xFF                    no descriptor
    0xFE number             the descriptor with this number
    0xFD number descriptor  the descriptor, numbered from now on
    descriptor              a scalar, an array of scalars, or the table is full

A received descriptor spans at most `maxLevels` levels.  A structure, an array of
structures, its element and a leaf count one level each, and a reference counts the
levels of what it stands for; a leaf that arrives in full is not counted.  Decoding
carries the number of levels still allowed, `room`, and recurses on it.
-/

namespace PvNet

/-- The octet that stands for the absence of a descriptor. -/
def nullCode : UInt8 := 0xFF

/-- The octet in front of a number that stands for a descriptor. -/
def referenceCode : UInt8 := 0xFE

/-- The octet in front of a number and the descriptor it stands for from now on. -/
def definitionCode : UInt8 := 0xFD

/-- How many levels a received descriptor may span. -/
def maxLevels : Nat := 64

/-! ## Sending -/

/-- The numbers that a sender has given to descriptors. -/
structure SentTypes where
  /-- The descriptors with their numbers, latest first. -/
  entries : List (Field × UInt16)
  /-- The number that is given next. -/
  next : UInt16
  /-- How many descriptors can be numbered. -/
  capacity : Nat
  deriving DecidableEq

namespace SentTypes

/-- The capacity that applies unless another is configured. -/
def defaultCapacity : Nat := 0x7FFF

/-- An empty table; no table can number more descriptors than there are 16-bit words. -/
def withCapacity (capacity : Nat) : SentTypes := ⟨[], 1, min capacity 65535⟩

instance : Inhabited SentTypes := ⟨withCapacity defaultCapacity⟩

/-- How many descriptors are numbered. -/
def size (t : SentTypes) : Nat := t.entries.length

/-- Whether no descriptor is numbered. -/
def isEmpty (t : SentTypes) : Bool := t.entries.isEmpty

/-- Whether no further descriptor can be numbered. -/
def isFull (t : SentTypes) : Bool := t.capacity ≤ t.size

/-- The number of a descriptor. -/
def number? (t : SentTypes) (f : Field) : Option UInt16 :=
  (t.entries.find? fun e => e.1 = f).map (·.2)

/-- Numbers a descriptor, unless the table is full. -/
def add (t : SentTypes) (f : Field) : Option UInt16 × SentTypes :=
  if t.isFull then (none, t)
  else (some t.next, { t with entries := (f, t.next) :: t.entries, next := t.next + 1 })

/-- Forgets every number. -/
def clear (t : SentTypes) : SentTypes := { t with entries := [], next := 1 }

end SentTypes

/-- What stands in front of a descriptor that has to be numbered: either it is already numbered,
or it is to be written in full behind what is returned. -/
def SentTypes.introduce (o : ByteOrder) (f : Field) (t : SentTypes) : Bytes × Bool × SentTypes :=
  match t.number? f with
  | some n => (referenceCode :: Wire.word16 o n, false, t)
  | none =>
    match t.add f with
    | (some n, t') => (definitionCode :: Wire.word16 o n, true, t')
    | (none, t') => ([], true, t')

mutual

/-- Writes a descriptor, numbering what is new. -/
def Field.encode (o : ByteOrder) : Field → SentTypes → Bytes × SentTypes
  | .scalar s, t => ([(Field.scalar s).typeCode], t)
  | .scalarArray s, t => ([(Field.scalarArray s).typeCode], t)
  | .struct s, t => s.encode o t
  | .structArray s, t =>
    match t.introduce o (.structArray s) with
    | (front, false, t') => (front, t')
    | (front, true, t') =>
      let (body, t'') := s.encode o t'
      (front ++ Field.structArrayCode :: body, t'')
termination_by structural f => f

/-- Writes the descriptor of a structure, numbering what is new. -/
def Structure.encode (o : ByteOrder) : Structure → SentTypes → Bytes × SentTypes
  | ⟨id, ms⟩, t =>
    match t.introduce o (.struct ⟨id, ms⟩) with
    | (front, false, t') => (front, t')
    | (front, true, t') =>
      let (body, t'') := Structure.encodeMembers o ms t'
      (front ++ Field.structCode :: (Wire.string o id ++ Wire.length o ms.length ++ body), t'')
termination_by structural s => s

/-- Writes the members of a structure, each after its name. -/
def Structure.encodeMembers (o : ByteOrder) :
    List (String × Field) → SentTypes → Bytes × SentTypes
  | [], t => ([], t)
  | (name, f) :: ms, t =>
    let (front, t') := f.encode o t
    let (body, t'') := Structure.encodeMembers o ms t'
    (Wire.string o name ++ front ++ body, t'')
termination_by structural ms => ms

end

/-- Writes a descriptor or its absence. -/
def Field.encode? (o : ByteOrder) (f : Option Field) (t : SentTypes) : Bytes × SentTypes :=
  match f with
  | none => ([nullCode], t)
  | some f => f.encode o t

/-! ## Receiving -/

/-- A received descriptor with the number of levels it spans. -/
structure Levelled where
  field : Field
  levels : Nat
  deriving DecidableEq

/-- The descriptors that a receiver knows by number. -/
structure KnownTypes where
  entries : List (UInt16 × Levelled) := []
  deriving DecidableEq

namespace KnownTypes

instance : Inhabited KnownTypes := ⟨{}⟩

/-- How many numbers are defined. -/
def size (t : KnownTypes) : Nat := t.entries.length

/-- Whether no number is defined. -/
def isEmpty (t : KnownTypes) : Bool := t.entries.isEmpty

/-- The descriptor with a number, and its levels. -/
def find? (t : KnownTypes) (n : UInt16) : Option Levelled :=
  (t.entries.find? fun e => e.1 = n).map (·.2)

/-- The descriptor with a number. -/
def field? (t : KnownTypes) (n : UInt16) : Option Field := (t.find? n).map (·.field)

/-- Defines a number, replacing an earlier definition. -/
def define (t : KnownTypes) (n : UInt16) (d : Levelled) : KnownTypes :=
  ⟨(n, d) :: t.entries.filter fun e => e.1 ≠ n⟩

/-- Forgets every number. -/
def clear (_ : KnownTypes) : KnownTypes := {}

end KnownTypes

namespace Field

open Decoder

/-- Fails because a descriptor spans too many levels. -/
def tooDeep {α : Type} : Decoder KnownTypes α := Decoder.fail (.nestingTooDeep maxLevels)

/-- The levels of a structure, given those of its members. -/
def levelsOver (ms : List (String × Levelled)) : Nat :=
  ms.foldl (fun h m => max h (m.2.levels + 1)) 1

mutual

/-- Reads a descriptor or its absence, `room` levels being allowed. -/
def decodeLevelled (room : Nat) : Decoder KnownTypes (Option Levelled) := do
  let first ← octet
  if first = nullCode then return none
  else if first = referenceCode then
    let n ← word16
    match (← get).find? n with
    | none => fail (.unknownReference n)
    | some d => if room < d.levels then tooDeep else return some d
  else if first = definitionCode then
    let n ← word16
    let code ← octet
    let d ← decodeBody room code
    modify (·.define n d)
    return some d
  else return some (← decodeBody room first)
termination_by (room, 1)

/-- Reads what follows the type code of a descriptor. -/
def decodeBody (room : Nat) (code : UInt8) : Decoder KnownTypes Levelled :=
  if code = structCode then
    match room with
    | 0 => tooDeep
    | room + 1 => do
      let id ← string
      let count ← length
      let ms ← times count (decodeMember room)
      return ⟨.struct ⟨id, ms.map fun m => (m.1, m.2.field)⟩, levelsOver ms⟩
  else if code = structArrayCode then
    match room with
    | 0 => tooDeep
    | room + 1 => do
      match ← decodeLevelled room with
      | some ⟨.struct element, levels⟩ => return ⟨.structArray element, levels + 1⟩
      | _ => fail (.mismatch .elementNotStructure)
  else
    match ofLeafCode? code with
    | some f => return ⟨f, 1⟩
    | none => fail (.unknownTypeCode code)
termination_by (room, 0)

/-- Reads the name and the descriptor of a member. -/
def decodeMember (room : Nat) : Decoder KnownTypes (String × Levelled) := do
  let name ← string
  match ← decodeLevelled room with
  | some d => return (name, d)
  | none => fail (.mismatch (.nullMember name))
termination_by (room, 2)

end

/-- Reads a descriptor or its absence. -/
def decode? : Decoder KnownTypes (Option Field) := do
  return (← decodeLevelled maxLevels).map (·.field)

end Field

end PvNet
