/-! The characters of a TOML text, and what may stand between its parts:
blanks, line ends and comments. -/
namespace PlatformImage.Toml

/-- Reads a value off the front of a text and leaves the rest, or fails. -/
abbrev Parser (α : Type) := List Char → Option (α × List Char)

def isBlank (c : Char) : Bool := c == ' ' || c == '\t'

/-- What may stand in a comment: anything but the control characters other
    than a tab. -/
def isCommentChar (c : Char) : Bool := c == '\t' || (c ≥ ' ' && c != '\x7f')

def isDigit (c : Char) : Bool := '0' ≤ c && c ≤ '9'

def isHexDigit (c : Char) : Bool :=
  isDigit c || ('a' ≤ c && c ≤ 'f') || ('A' ≤ c && c ≤ 'F')

def isBareKeyChar (c : Char) : Bool :=
  isDigit c || ('a' ≤ c && c ≤ 'z') || ('A' ≤ c && c ≤ 'Z') || c == '_' || c == '-'

def hexValue (c : Char) : Nat :=
  if isDigit c then c.toNat - '0'.toNat
  else if c ≤ 'F' then c.toNat - 'A'.toNat + 10
  else c.toNat - 'a'.toNat + 10

/-- The number that digits of a base write. -/
def ofDigits (base : Nat) (cs : List Char) : Nat :=
  cs.foldl (fun n c => n * base + hexValue c) 0

def skipBlanks (cs : List Char) : List Char := cs.dropWhile isBlank

/-- What follows a line end, if the text begins with one. -/
def newline? : List Char → Option (List Char)
  | '\n' :: r => some r
  | '\r' :: '\n' :: r => some r
  | _ => none

/-- Skips blanks, line ends and comments; `comment` says whether the text
    begins inside of one. -/
def skipTrivia (comment : Bool) : List Char → List Char
  | [] => []
  | '\r' :: '\n' :: r => skipTrivia false r
  | c :: r =>
    if comment && isCommentChar c then skipTrivia true r
    else if isBlank c || c == '\n' then skipTrivia false r
    else if c == '#' then skipTrivia true r
    else c :: r

/-- The end of a line: blanks, a comment if there is one, and a line end or
    the end of the text. -/
def lineEnd (cs : List Char) : Option (List Char) :=
  let cs := skipBlanks cs
  let cs := if cs.head? = some '#' then cs.dropWhile isCommentChar else cs
  if cs.isEmpty then some [] else newline? cs

end PlatformImage.Toml
