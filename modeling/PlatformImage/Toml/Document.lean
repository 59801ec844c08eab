import PlatformImage.Toml.Scalar
/-! Reading a TOML document: a list of statements, each a key with its value or
a header, and the table that they build one after the other. -/
namespace PlatformImage.Toml

/-! ## Keys -/

/-- One part of a key: bare, or a string on one line. -/
def keyPart (cs : List Char) : Option (String × List Char) :=
  match shortString cs with
  | some r => some r
  | none =>
    let bare := cs.takeWhile isBareKeyChar
    if bare.isEmpty then none else some (String.ofList bare, cs.drop bare.length)

/-- At most `n` parts of a key, with points between them and blanks around. -/
def keyParts : (n : Nat) → Parser (List String)
  | 0, _ => none
  | n + 1, cs => do
    let (part, r) ← keyPart (skipBlanks cs)
    match skipBlanks r with
    | '.' :: r => (keyParts n r).map fun (parts, r) => (part :: parts, r)
    | r => some ([part], r)

/-- The most levels of arrays and tables within one another, and the most parts
    of a key. -/
def maxDepth : Nat := 79

/-- A dotted key: the parts before the last one, and that. -/
structure Key where
  path : List String
  last : String

def key (cs : List Char) : Option (Key × List Char) := do
  let (parts, r) ← keyParts maxDepth cs
  let last ← parts.getLast?
  return (⟨parts.dropLast, last⟩, r)

/-! ## Values -/

/-- The values of an array up to its closing bracket; at most `n` of them. -/
def arrayItems (value : Parser Value) : (n : Nat) → Parser (List Value)
  | 0, _ => none
  | n + 1, cs =>
    match skipTrivia false cs with
    | ']' :: r => some ([], r)
    | cs => do
      let (v, r) ← value cs
      match skipTrivia false r with
      | ',' :: r => (arrayItems value n r).map fun (vs, r) => (v :: vs, r)
      | ']' :: r => some ([v], r)
      | _ => none

/-- A key, an equals sign and a value. -/
def pair (value : Parser Value) (cs : List Char) : Option ((Key × Value) × List Char) := do
  let (k, r) ← key cs
  let r ← only '=' r
  let (v, r) ← value (skipBlanks r)
  return ((k, v), r)

/-- The entries of a table in braces, from the first one on; at most `n`. -/
def braceItems (value : Parser Value) : (n : Nat) → Parser (List (Key × Value))
  | 0, _ => none
  | n + 1, cs => do
    let (kv, r) ← pair value cs
    match skipBlanks r with
    | ',' :: r => (braceItems value n r).map fun (kvs, r) => (kv :: kvs, r)
    | '}' :: r => some ([kv], r)
    | _ => none

/-- The entries that keys and values build. -/
def entriesOf (items : List (Key × Value)) : Option Entries :=
  items.foldlM (fun es (k, v) => Entries.insert k.last v k.path es) []

/-- A table in braces, after the opening one. It is on one line and has no
    comma at its end. -/
def braces (value : Parser Value) (cs : List Char) : Option (Value × List Char) :=
  match skipBlanks cs with
  | '}' :: r => some (.table .braces [], r)
  | cs => do
    let (items, r) ← braceItems value (cs.length + 1) cs
    return (.table .braces (← entriesOf items), r)

/-- A value with at most `levels` levels of arrays and tables in braces. -/
def value : (levels : Nat) → Parser Value
  | 0, cs => scalar cs
  | levels + 1, cs =>
    match cs with
    | '[' :: r =>
      (arrayItems (value levels) (r.length + 1) r).map fun (vs, r) => (.array vs, r)
    | '{' :: r => braces (value levels) r
    | cs => scalar cs

/-! ## Statements -/

inductive Statement where
  | assign (key : Key) (value : Value)
  | table (key : Key)
  | element (key : Key)

/-- A statement up to the end of its line. -/
def statement (cs : List Char) : Option (Statement × List Char) :=
  match cs with
  | '[' :: '[' :: r => do
    let (k, r) ← key r
    let r ← only ']' r
    let r ← only ']' r
    return (.element k, ← lineEnd r)
  | '[' :: r => do
    let (k, r) ← key r
    let r ← only ']' r
    return (.table k, ← lineEnd r)
  | cs => do
    let ((k, v), r) ← pair (value maxDepth) cs
    return (.assign k v, ← lineEnd r)

/-- The statements of a text; at most `n`. -/
def statements : (n : Nat) → List Char → Option (List Statement)
  | 0, _ => none
  | n + 1, cs =>
    match skipTrivia false cs with
    | [] => some []
    | cs => do
      let (s, r) ← statement cs
      return s :: (← statements n r)

/-! ## The document -/

/-- A document in the making: its entries, and the table that keys go into. -/
structure Draft where
  entries : Entries
  here : List String

/-- Carries out one statement. -/
def Draft.add (d : Draft) : Statement → Option Draft
  | .assign k v => do
    let es ← d.entries.within (Entries.insert k.last v k.path) d.here
    return { d with entries := es }
  | .table k => do
    let es ← d.entries.within (Entries.openTable k.last) k.path
    return ⟨es, k.path ++ [k.last]⟩
  | .element k => do
    let es ← d.entries.within (Entries.openElement k.last) k.path
    return ⟨es, k.path ++ [k.last]⟩

/-- The entries of a document. A byte order mark in front is left out. -/
def parse (text : String) : Option Entries := do
  let cs := text.toList
  let cs := if cs.head? = some (Char.ofNat 0xFEFF) then cs.tail else cs
  let ss ← statements (cs.length + 1) cs
  let d ← ss.foldlM Draft.add ⟨[], []⟩
  return d.entries

end PlatformImage.Toml
