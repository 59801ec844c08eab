import PlatformImage.Access.Rule
import PlatformImage.Toml.Document
/-! The configuration of an entry, and how a TOML document gives it. -/
namespace PlatformImage

structure Config where
  /-- The root of the module image; without it that of a Java home is used. -/
  image : Option String
  annotationPaths : List String
  accessRules : List Access.Rule
  destination : Option String
  /-- Whether the entry closes the image when it is reset. -/
  closeAtEnd : Bool
  deriving DecidableEq, Repr

namespace Config

/-- The configuration that leaves everything out. -/
def blank : Config := ⟨none, [], [], none, true⟩

/-- The fields of a configuration. -/
def fieldNames : List String :=
  ["image", "annotation-paths", "access-rules", "destination-path", "close-at-end"]

def stringOf? : Toml.Value → Option String
  | .string s => some s
  | _ => none

def booleanOf? : Toml.Value → Option Bool
  | .boolean b => some b
  | _ => none

def kindNamed? : String → Option Access.Kind
  | "accessible" => some .accessible
  | "discouraged" => some .discouraged
  | "non-accessible" => some .nonAccessible
  | _ => none

/-- A value with nothing in it: an array or a table, and no entries. -/
def isEmptyValue : Toml.Value → Bool
  | .array items => items.isEmpty
  | .table _ entries => entries.isEmpty
  | .tables elements => elements.isEmpty
  | _ => false

/-- The kind of a rule: its name, or a table whose one key is the name, with
    nothing in it. -/
def kindOf? : Toml.Value → Option Access.Kind
  | .string s => kindNamed? s
  | .table _ [(name, v)] => if isEmptyValue v then kindNamed? name else none
  | _ => none

/-- A rule of entries that may hold other keys too. -/
def ruleOfEntries? (entries : Toml.Entries) : Option Access.Rule := do
  let pattern ← stringOf? (← entries.lookup "pattern")
  let kind ← kindOf? (← entries.lookup "kind")
  return ⟨pattern, kind⟩

/-- A rule: a table, or an array whose first two items are pattern and kind. -/
def ruleOf? : Toml.Value → Option Access.Rule
  | .table _ entries => ruleOfEntries? entries
  | .array (pattern :: kind :: _) => do
    let pattern ← stringOf? pattern
    let kind ← kindOf? kind
    return ⟨pattern, kind⟩
  | _ => none

def rulesOf? : Toml.Value → Option (List Access.Rule)
  | .array items => items.mapM ruleOf?
  | .tables elements => elements.mapM ruleOfEntries?
  | _ => none

def stringsOf? : Toml.Value → Option (List String)
  | .array items => items.mapM stringOf?
  | _ => none

/-- The value of a field, read by `read?`, or the one for a field left out. -/
def fieldOr {α : Type} (entries : Toml.Entries) (name : String) (absent : α)
    (read? : Toml.Value → Option α) : Option α :=
  match entries.lookup name with
  | none => some absent
  | some v => read? v

/-- The configuration of a document. There are no other keys than its fields. -/
def ofEntries? (entries : Toml.Entries) : Option Config := do
  if !entries.all (fun (name, _) => fieldNames.contains name) then none
  let image ← fieldOr entries "image" blank.image fun v => (stringOf? v).map some
  let annotationPaths ← fieldOr entries "annotation-paths" blank.annotationPaths stringsOf?
  let accessRules ← fieldOr entries "access-rules" blank.accessRules rulesOf?
  let destination ← fieldOr entries "destination-path" blank.destination fun v =>
    (stringOf? v).map some
  let closeAtEnd ← fieldOr entries "close-at-end" blank.closeAtEnd booleanOf?
  return ⟨image, annotationPaths, accessRules, destination, closeAtEnd⟩

/-- The configuration that a TOML text holds. -/
def ofToml? (text : String) : Option Config := (Toml.parse text).bind ofEntries?

end Config

end PlatformImage
