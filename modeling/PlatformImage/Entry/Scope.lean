import PlatformImage.Entry.Basic
/-! Lookups of an entry from the point of view of one module, or of none. A
module that is not registered has lookups that find nothing. -/
namespace PlatformImage.Entry

/-- What a lookup may see. -/
inductive Scope where
  | everything
  | module (name : String)
  /-- Nothing: the module is not registered. -/
  | unserved
  deriving DecidableEq, Repr

namespace Scope

/-- The scope of a module, or that of all modules. -/
def of (module? : Option String) : ModuleStep Scope := do
  match module? with
  | none => return everything
  | some name => return if ← servesModule name then module name else unserved

/-- The modules that the lookups of a scope look at. -/
def filter? : Scope → Option Image.Filter
  | everything => some .all
  | module name => some (.named name)
  | unserved => none

def isServed (s : Scope) : Bool := s.filter?.isSome

def isPackage (s : Scope) (package : String) : Image.Step Bool :=
  match s.filter? with
  | some filter => Entry.isPackage package filter
  | none => return false

def findType (s : Scope) (e : Entry) (package unit : String) : Image.Query (Option FoundType) :=
  match s.filter? with
  | some filter => e.findType package unit filter
  | none => return none

end Scope

end PlatformImage.Entry
