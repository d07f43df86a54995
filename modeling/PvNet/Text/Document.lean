set_option autoImplicit false

/-!
# Documents

A document of the kinds that reports are made of, and its text on one line.  In a
string, quotes, backslashes and the characters below the blank are escaped; all other
characters stand for themselves.
-/

namespace PvNet

inductive Document where
  | null
  | bool (b : Bool)
  | number (n : Int)
  | text (s : String)
  | array (items : List Document)
  | object (members : List (String × Document))
  deriving Repr, Inhabited

namespace Document

/-- The characters that stand for one character of a string. -/
def escape (c : Char) : List Char :=
  if c = '"' then ['\\', '"']
  else if c = '\\' then ['\\', '\\']
  else if c.toNat = 8 then ['\\', 'b']
  else if c.toNat = 9 then ['\\', 't']
  else if c.toNat = 10 then ['\\', 'n']
  else if c.toNat = 12 then ['\\', 'f']
  else if c.toNat = 13 then ['\\', 'r']
  else if c.toNat < 32 then
    ['\\', 'u', '0', '0', Nat.digitChar (c.toNat / 16), Nat.digitChar (c.toNat % 16)]
  else [c]

def quote (s : String) : String := String.ofList ('"' :: s.toList.flatMap escape ++ ['"'])

/-- Texts between an opening and a closing mark, separated by commas. -/
def enclose (opening closing : String) (items : List String) : String :=
  opening ++ ",".intercalate items ++ closing

mutual

/-- The text of a document. -/
def render : Document → String
  | null => "null"
  | bool b => if b then "true" else "false"
  | number n => toString n
  | text s => quote s
  | array items => enclose "[" "]" (renderItems items)
  | object members => enclose "\x7b" "\x7d" (renderMembers members)

/-- The texts of documents. -/
def renderItems : List Document → List String
  | [] => []
  | item :: items => item.render :: renderItems items

/-- The texts of the members of an object. -/
def renderMembers : List (String × Document) → List String
  | [] => []
  | (key, item) :: members => (quote key ++ ":" ++ item.render) :: renderMembers members

end

/-- The text that is there, or null. -/
def ofText? (s : Option String) : Document := s.elim null text

/-- The member of an object with a name. -/
def member? : Document → String → Option Document
  | object members, key => members.lookup key
  | _, _ => none

def members : Document → List (String × Document)
  | object members => members
  | _ => []

def items : Document → List Document
  | array items => items
  | _ => []

end Document

end PvNet
