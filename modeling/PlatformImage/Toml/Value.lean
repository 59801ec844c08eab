/-! TOML values, and the rules on which tables a key may add to.

A document is a table whose entries are added one by one. A table may be added
to by dotted keys only if dotted keys made it, and by a header only if it is so
far known from longer headers alone; a value, once given, is never added to. -/
namespace PlatformImage.Toml

/-- How a table came to be. -/
inductive Origin where
  /-- Between braces. -/
  | braces
  /-- By its own header. -/
  | header
  /-- By the header of a table within it. -/
  | longerHeader
  /-- By a dotted key. -/
  | dottedKey
  deriving DecidableEq, Repr

inductive Value where
  | string (text : String)
  | integer (n : Int)
  | float (text : String)
  | dateTime (text : String)
  | boolean (b : Bool)
  | array (items : List Value)
  | table (origin : Origin) (entries : List (String × Value))
  /-- Tables under headers in double brackets. -/
  | tables (elements : List (List (String × Value)))

/-- The entries of a table. -/
abbrev Entries := List (String × Value)

namespace Entries

/-- Gives a key a value, in place of the one it has. -/
def set (key : String) (v : Value) : Entries → Entries
  | [] => [(key, v)]
  | (k, w) :: rest => if k = key then (k, v) :: rest else (k, w) :: set key v rest

/-- Adds a value under a dotted key: the keys on the path name tables made by
    dotted keys, or ones that longer headers or double brackets made and that
    are only passed through. -/
def insert (key : String) (v : Value) : (path : List String) → Entries → Option Entries
  | [], es => if (es.lookup key).isSome then none else some (es ++ [(key, v)])
  | k :: path, es =>
    match es.lookup k with
    | none => (insert key v path []).map fun inner => es ++ [(k, .table .dottedKey inner)]
    | some (.table .dottedKey inner) =>
      (insert key v path inner).map fun inner => es.set k (.table .dottedKey inner)
    | some (.table .longerHeader inner) =>
      if path.isEmpty then none
      else (insert key v path inner).map fun inner => es.set k (.table .longerHeader inner)
    | some (.tables elements) =>
      if path.isEmpty then none
      else do
        let inner ← insert key v path (← elements.getLast?)
        return es.set k (.tables (elements.dropLast ++ [inner]))
    | some _ => none

/-- Changes the table at a path of headers. Missing tables are made on the way;
    of tables in double brackets the last one is meant. -/
def within (f : Entries → Option Entries) : (path : List String) → Entries → Option Entries
  | [], es => f es
  | k :: path, es =>
    match es.lookup k with
    | none => (within f path []).map fun inner => es ++ [(k, .table .longerHeader inner)]
    | some (.table origin inner) =>
      if origin = .braces then none
      else (within f path inner).map fun inner => es.set k (.table origin inner)
    | some (.tables elements) => do
      let inner ← within f path (← elements.getLast?)
      return es.set k (.tables (elements.dropLast ++ [inner]))
    | some _ => none

/-- A header `[key]`: the table must be new, or known from longer headers only. -/
def openTable (key : String) (es : Entries) : Option Entries :=
  match es.lookup key with
  | none => some (es ++ [(key, .table .header [])])
  | some (.table .longerHeader inner) => some (es.set key (.table .header inner))
  | some _ => none

/-- A header `[[key]]`: one more table under the key. -/
def openElement (key : String) (es : Entries) : Option Entries :=
  match es.lookup key with
  | none => some (es ++ [(key, .tables [[]])])
  | some (.tables elements) => some (es.set key (.tables (elements ++ [[]])))
  | some _ => none

end Entries

end PlatformImage.Toml
