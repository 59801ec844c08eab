import PlatformImage.Toml.Chars
/-! The four kinds of strings: basic strings with escapes and literal strings
without, each on one line or, in three quotes, on several.

A function on the body of a string gives the text it stands for and what
follows the closing quotes. -/
namespace PlatformImage.Toml

/-- A body of a string: its text and what follows the closing quotes. -/
abbrev Body := Option (List Char × List Char)

/-- One more character in front. -/
def Body.add (c : Char) (b : Body) : Body := b.map fun (text, rest) => (c :: text, rest)

/-- The character with a code point, if there is one. -/
def scalar? (n : Nat) : Option Char :=
  if h : n.isValidChar then some (Char.ofNatAux n h) else none

/-- The character that hexadecimal digits name. -/
def hexEscape (cs : List Char) : Option Char :=
  if cs.all isHexDigit then scalar? (ofDigits 16 cs) else none

/-- The character that an escape of one letter stands for. -/
def shortEscape : Char → Option Char
  | 'b' => some '\x08'
  | 't' => some '\t'
  | 'n' => some '\n'
  | 'f' => some '\x0c'
  | 'r' => some '\r'
  | '"' => some '"'
  | '\\' => some '\\'
  | _ => none

/-- An escape, after its backslash. -/
def escape : Parser Char
  | 'u' :: a :: b :: c :: d :: r => (hexEscape [a, b, c, d]).map (·, r)
  | 'U' :: a :: b :: c :: d :: e :: f :: g :: h :: r =>
    (hexEscape [a, b, c, d, e, f, g, h]).map (·, r)
  | e :: r => (shortEscape e).map (·, r)
  | [] => none

theorem length_escape {cs r : List Char} {c : Char} (h : escape cs = some (c, r)) :
    r.length < cs.length := by
  unfold escape at h
  split at h
  · obtain ⟨_, _, he⟩ := Option.map_eq_some_iff.1 h
    cases he; simp; omega
  · obtain ⟨_, _, he⟩ := Option.map_eq_some_iff.1 h
    cases he; simp; omega
  · obtain ⟨_, _, he⟩ := Option.map_eq_some_iff.1 h
    cases he; simp
  · cases h

def basicBody (cs : List Char) : Body :=
  match cs with
  | [] => none
  | c :: r =>
    if c = '"' then some ([], r)
    else if c = '\\' then
      match _h : escape r with
      | some (e, r') => (basicBody r').add e
      | none => none
    else if isCommentChar c then (basicBody r).add c
    else none
termination_by cs.length
decreasing_by
  · have := length_escape _h; simp; omega
  · simp

def literalBody : List Char → Body
  | [] => none
  | c :: r =>
    if c = '\'' then some ([], r)
    else if isCommentChar c then (literalBody r).add c
    else none

/-- After three closing quotes: up to two more of them belong to the text. -/
def extraQuotes (quote : Char) (cs : List Char) : Body :=
  let extra := (cs.takeWhile (· == quote)).take 2
  some (extra, cs.drop extra.length)

/-- What follows two quotes, if the text begins with them. -/
def afterTwo (quote : Char) : List Char → Option (List Char)
  | a :: b :: r => if a = quote ∧ b = quote then some r else none
  | _ => none

/-- How the body of a basic string of several lines goes on. -/
inductive Wrap where
  /-- As text. -/
  | none
  /-- After a backslash, with blanks and then the end of the line. -/
  | toLineEnd
  /-- With blanks and line ends that do not count. -/
  | skip
  deriving DecidableEq, Repr

/-- The body of a basic string of several lines. A backslash at the end of a
    line takes away that line end and all blanks and line ends after it. -/
def longBasicBody (wrap : Wrap) (cs : List Char) : Body :=
  match cs with
  | [] => none
  | '\r' :: '\n' :: r =>
    if wrap = .none then (longBasicBody .none r).add '\n' else longBasicBody .skip r
  | '\n' :: r =>
    if wrap = .none then (longBasicBody .none r).add '\n' else longBasicBody .skip r
  | c :: r =>
    if wrap ≠ .none ∧ isBlank c then longBasicBody wrap r
    else if wrap = .toLineEnd then none
    else if c = '"' then
      match afterTwo '"' r with
      | some rest => extraQuotes '"' rest
      | none => (longBasicBody .none r).add c
    else if c = '\\' then
      if (newline? (skipBlanks r)).isSome then longBasicBody .toLineEnd r
      else
        match _h : escape r with
        | some (e, r') => (longBasicBody .none r').add e
        | none => none
    else if isCommentChar c then (longBasicBody .none r).add c
    else none
termination_by cs.length
decreasing_by
  all_goals first
    | exact Nat.lt_succ_of_lt (length_escape _h)
    | (simp; try omega)

/-- The body of a literal string of several lines. -/
def longLiteralBody (cs : List Char) : Body :=
  match cs with
  | [] => none
  | '\r' :: '\n' :: r => (longLiteralBody r).add '\n'
  | '\'' :: '\'' :: '\'' :: r => extraQuotes '\'' r
  | c :: r =>
    if c = '\n' ∨ isCommentChar c then (longLiteralBody r).add c else none

/-- Leaves out a line end at the beginning. -/
def dropNewline (cs : List Char) : List Char := (newline? cs).getD cs

/-- A string on one line, such as a key may be. -/
def shortString : Parser String
  | '"' :: r => (basicBody r).map fun (text, rest) => (String.ofList text, rest)
  | '\'' :: r => (literalBody r).map fun (text, rest) => (String.ofList text, rest)
  | _ => none

/-- A string of any kind. -/
def string : Parser String
  | '"' :: '"' :: '"' :: r =>
    (longBasicBody .none (dropNewline r)).map fun (text, rest) => (String.ofList text, rest)
  | '\'' :: '\'' :: '\'' :: r =>
    (longLiteralBody (dropNewline r)).map fun (text, rest) => (String.ofList text, rest)
  | cs => shortString cs

end PlatformImage.Toml
