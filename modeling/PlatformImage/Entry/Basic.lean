import PlatformImage.Access.Rule
import PlatformImage.Config.Source
import PlatformImage.Entry.TypeNames
import PlatformImage.Registry.Scan
/-! A classpath entry over a module image: what a compiler asks for types,
packages and modules.

Lookups fail only where the program ends: other content that cannot be read
counts as not found, and the reason is noted. Several entries may use one image;
only an entry that owns the image closes it. -/
namespace PlatformImage

structure Entry where
  /-- Whether resetting the entry closes the image. -/
  closesAtEnd : Bool
  rules : Access.RuleSet
  destination : Option String
  /-- The overlays, tried in order for every type found. -/
  annotationPaths : List String
  deriving DecidableEq, Repr

namespace Entry

open Image (Query Step)

/-- The entry that a configuration describes, for the root of its image. -/
def ofConfig (c : Config) (root : String) : Entry :=
  ⟨c.closeAtEnd, ⟨c.accessRules, root⟩, c.destination, c.annotationPaths⟩

/-- How an entry with an image is called. -/
def title (root : String) : String := "Classpath for jrt image " ++ root

/-- A type found, with the restriction on it and the module it was read from. -/
structure FoundType where
  type : ClassFile.BinaryType
  restriction : Option Access.Restriction
  module : String
  deriving DecidableEq, Repr

/-- Whether an admitted module has a package. -/
def isPackage (package : String) (filter : Image.Filter) : Step Bool := do
  match ← (Image.isPackage package filter).run with
  | .ok found => return found
  | .error _ =>
    Image.note .failedPackageLookup
    return false

/-- A file of an admitted module. -/
def readUnit? (unit : String) (filter : Image.Filter) : Query (Option Image.BinaryUnit) := do
  match ← liftM (Image.readUnit unit filter).run with
  | .ok found => return found
  | .error e =>
    if e.isFatal then throw e
    else
      liftM (Image.note .unreadUnit)
      return none

/-- A type with the annotations of the first overlay that has some for it.
    Overlays that cannot be read are passed over. -/
def attachOverlays (typePath : String) (t : ClassFile.BinaryType) :
    List String → Query ClassFile.BinaryType
  | [] => return t
  | overlay :: rest => do
    let (outcome, slot) :=
      Overlay.attach? (← read) overlay typePath (← liftM Image.current).overlay t
    liftM (Image.modifyImage fun i => { i with overlay := slot })
    match outcome with
    | .ok (some t) => return t
    | .ok none => attachOverlays typePath t rest
    | .error e =>
      if e = .fatal then throw (.fatal overlay)
      else
        liftM (Image.note .skippedOverlay)
        attachOverlays typePath t rest

/-- The type in a file of an admitted module, if the package is one of those. The
    file's path is taken as given, and need not lie in the package. -/
def findType (e : Entry) (package unit : String) (filter : Image.Filter) :
    Query (Option FoundType) := do
  if !(← liftM (isPackage package filter)) then return none
  match ← readUnit? unit filter with
  | none => return none
  | some found =>
    match ClassFile.BinaryType.parse found.content with
    | .error _ => do
      liftM (Image.note .malformedUnit)
      return none
    | .ok t => do
      let path := typePath unit
      let t ← attachOverlays path t e.annotationPaths
      return some ⟨t, e.rules.restriction? path, found.module⟩

/-- The names of the types right inside a package, in the order of a walk;
    `none` if there are none. -/
def findTypeNames (package : String) (filter : Image.Filter) :
    Step (Option (List TypeName)) := do
  let package := Image.packagePath package
  if !(← isPackage package filter) then return none
  let collector : Collector := ⟨package, filter⟩
  let (error?, names) ← Image.walkFrom [] collector.visit .everything
  if error?.isSome then Image.note .brokenNameWalk
  return if names.isEmpty then none else some names

/-- Forgets the overlays, and closes the image if it belongs to the entry. -/
def reset (e : Entry) : Step Entry := do
  if e.closesAtEnd then Image.close
  return { e with annotationPaths := [] }

/-! ## Modules -/

/-- A step that may read and change the register of modules. -/
abbrev ModuleStep := StateT Registry Step

/-- The snapshot registered for the image. -/
def snapshot? : ModuleStep (Option Registry.Snapshot) := do
  let key ← liftM Image.canonicalPath
  return (← get).snapshot? key

/-- The descriptor of a registered module. -/
def getModule (name : String) : ModuleStep (Option ClassFile.ModuleDescriptor) := do
  return (← snapshot?).bind fun s => s.get? name

/-- Whether a module is registered. -/
def servesModule (name : String) : ModuleStep Bool := do
  return ((← snapshot?).map fun s => s.contains name).getD false

end Entry

end PlatformImage
