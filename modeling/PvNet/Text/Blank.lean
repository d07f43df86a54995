set_option autoImplicit false

/-!
# Blanks

The blank characters are those with the Unicode property `White_Space`.  Texts are
trimmed of them and split at runs of them.
-/

namespace PvNet.Text

/-- Whether a character is blank. -/
def isBlank (c : Char) : Bool :=
  let n := c.toNat
  (0x09 ≤ n && n ≤ 0x0D) || n == 0x20 || n == 0x85 || n == 0xA0 || n == 0x1680 ||
    (0x2000 ≤ n && n ≤ 0x200A) || n == 0x2028 || n == 0x2029 || n == 0x202F || n == 0x205F ||
    n == 0x3000

/-- A list of characters without the blanks at its start and end. -/
def trimChars (cs : List Char) : List Char :=
  ((cs.dropWhile isBlank).reverse.dropWhile isBlank).reverse

/-- A text without the blanks at its start and end. -/
def trim (s : String) : String := String.ofList (trimChars s.toList)

/-- The runs of characters between blanks, given those of the run that has begun, latest first. -/
def wordsFrom : List Char → List Char → List String
  | run, [] => if run.isEmpty then [] else [String.ofList run.reverse]
  | run, c :: cs =>
    if isBlank c then
      if run.isEmpty then wordsFrom [] cs else String.ofList run.reverse :: wordsFrom [] cs
    else wordsFrom (c :: run) cs

/-- The words of a text, that is, the runs of characters between blanks. -/
def words (s : String) : List String := wordsFrom [] s.toList

/-- A text split at every occurrence of a character. -/
def fields (separator : Char) (s : String) : List String :=
  (s.toList.splitOn separator).map String.ofList

/-- The parts before and after the first occurrence of a character. -/
def cutFirst? (separator : Char) (s : String) : Option (String × String) :=
  let before := s.toList.takeWhile (· != separator)
  match s.toList.drop before.length with
  | [] => none
  | _ :: after => some (String.ofList before, String.ofList after)

/-- The parts before and after the last occurrence of a character. -/
def cutLast? (separator : Char) (s : String) : Option (String × String) :=
  let after := (s.toList.reverse.takeWhile (· != separator)).reverse
  match s.toList.reverse.drop after.length with
  | [] => none
  | _ :: before => some (String.ofList before.reverse, String.ofList after)

/-- A text without a given ending. -/
def withoutEnd? (ending s : String) : Option String :=
  if ending.toList.isSuffixOf s.toList then
    some (String.ofList (s.toList.take (s.toList.length - ending.toList.length)))
  else none

/-- A text with its ASCII letters in capitals. -/
def capitals (s : String) : String := String.ofList (s.toList.map Char.toUpper)

end PvNet.Text
