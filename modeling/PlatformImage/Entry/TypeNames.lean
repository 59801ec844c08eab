import PlatformImage.Image.Walk
/-! Collecting the names of the types of one package on a walk.

Modules that are not admitted and folders that do not lead to the package are
not entered. A folder leads to a package if it is the package or one above it;
names are compared up to a `/`, so `a/b` does not lead to `a/bx`. -/
namespace PlatformImage.Entry

/-- What the names of the files of types end with. -/
def classEnding : String := ".class"

/-- A path of a file without the ending for types, if it has that. -/
def typePath (unit : String) : String := (Text.beforeEnd? classEnding unit).getD unit

/-- A type's name: the names of its package one by one, then its own. -/
abbrev TypeName := List String

/-- The package to collect from, in internal form, and the modules to look at. -/
structure Collector where
  package : String
  filter : Image.Filter

namespace Collector

/-- Whether a folder is the package or lies above it. -/
def leadsToPackage (c : Collector) (dir : String) : Bool :=
  match Text.afterStart? dir c.package with
  | none => false
  | some rest => rest.isEmpty || rest.toList.head? == some '/'

def answer (c : Collector) : Image.Event → Image.Answer
  | .module name => if c.filter.admits name then .enter else .skip
  | .folder path _ => if c.leadsToPackage path then .enter else .skip
  | .file _ _ => .enter

/-- The name of the type that a file right inside the package holds. -/
def typeName? (c : Collector) : Image.Event → Option TypeName
  | .file path _ =>
    if Text.parentPath path = c.package then
      (Text.beforeEnd? classEnding (Text.lastSegment path)).map fun name =>
        Text.segments c.package ++ [name]
    else none
  | _ => none

/-- The answer to an event, and the names collected so far with the one that the
    event brings. -/
def collect (c : Collector) (names : List TypeName) (e : Image.Event) :
    Image.Answer × List TypeName :=
  (c.answer e, names ++ (c.typeName? e).toList)

/-- The collector as a visitor. -/
def visit (c : Collector) (e : Image.Event) : Image.Visit (List TypeName) Image.Answer := do
  let (answer, names) := c.collect (← get) e
  set names
  return answer

end Collector

end PlatformImage.Entry
