import PlatformImage.Notice
import PlatformImage.Overlay
import PlatformImage.Image.Contents
import PlatformImage.Image.Filter
/-! A module image in use: a root, and what is known about it so far.

The contents are opened when they are first asked for, and kept until the image
is closed. Every use of an image is a step from one state to the next that may
add notices, never takes any away, and can fail without losing its state. -/
namespace PlatformImage

structure Image where
  root : String
  /-- The canonical path, once it has been asked for. -/
  canonical : Option String
  normalized : Option String
  contents : Option Image.Contents
  /-- The open archive among the overlays. -/
  overlay : Option Overlay.Handle
  /-- Whether it was noted that the layout is not known. -/
  layoutReported : Bool

namespace Image

/-- The image of a root, about which nothing is known yet. -/
def new (root : String) : Image := ⟨root, none, none, none, none, false⟩

def isOpen (i : Image) : Bool := i.contents.isSome

/-- An image and the notices about it. -/
structure Use where
  image : Image
  notices : List Notice

/-- A step in the use of an image, in a file system that stays as it is. -/
abbrev Step := ReaderT FileSystem (StateM Use)

/-- A step that may fail. -/
abbrev Query := ExceptT Error Step

def note (n : Notice) : Step Unit := modify fun u => { u with notices := u.notices ++ [n] }

def modifyImage (f : Image → Image) : Step Unit := modify fun u => { u with image := f u.image }

def current : Step Image := do return (← get).image

/-! ## Paths -/

/-- The absolute path of a root without links; if nothing is there, its absolute
    path as text; and the root itself if that fails too. -/
def canonicalOf (fs : FileSystem) (root : String) : String :=
  match fs.realPath root with
  | .ok p => p
  | .error _ => (Path.absolute? fs.currentPath root).getD root

/-- The canonical path, as it was when first asked for. -/
def canonicalPath : Step String := do
  match (← current).canonical with
  | some p => return p
  | none =>
    let p := canonicalOf (← read) (← current).root
    modifyImage fun i => { i with canonical := some p }
    return p

/-- A path without the extension of its last name, and with `/` for `\`. -/
def normalizedOf (canonical : String) : String :=
  Text.exchange '\\' '/' (Path.withoutExtension canonical)

/-- The normalized form of the canonical path. -/
def normalizedPath : Step String := do
  match (← current).normalized with
  | some p => return p
  | none =>
    let p := normalizedOf (← canonicalPath)
    modifyImage fun i => { i with normalized := some p }
    return p

/-! ## Opening and closing -/

/-- Notes once that the layout is not known. -/
def reportLayout : Step Unit := do
  if !(← current).layoutReported then
    modifyImage fun i => { i with layoutReported := true }
    note .unsupportedLayout

/-- The notice about a module that is left out. -/
def skipNotice : Layout → Notice
  | .exploded => .skippedDirectory
  | .jmods => .skippedArchive

/-- The contents, opened if they are not open yet. -/
def openContents : Query Contents := do
  match (← current).contents with
  | some c => return c
  | none =>
    match Contents.ofRoot (← read) (← current).root with
    | .error (.unsupportedLayout path) =>
      reportLayout
      throw (.unsupportedLayout path)
    | .error e => throw e
    | .ok found =>
      found.skipped.forM fun _ => note (skipNotice found.contents.layout)
      note .opened
      modifyImage fun i => { i with contents := some found.contents }
      return found.contents

/-- Lets go of the contents and of the overlay. -/
def close : Step Unit := do
  if (← current).isOpen then note .closed
  modifyImage fun i => { i with contents := none, overlay := none }

/-! ## Queries -/

def layout : Query Layout := do return (← openContents).layout

/-- The names of the modules, in ascending order. -/
def moduleNames : Query (List String) := do return (← openContents).modules.keys

/-- Whether an admitted module has a package. The empty name is that of none,
    and is answered without opening the image. -/
def isPackage (package : String) (filter : Filter) : Query Bool := do
  let path := packagePath package
  if path = "" then return false
  else
    let c ← openContents
    return (c.admitted filter.admits).any fun m => m.2.hasPackage path

/-- A file of a module, with the name of the module. -/
structure BinaryUnit where
  module : String
  content : Bytes
  deriving DecidableEq, Repr

/-- The first of some modules that holds a file in its folder. -/
def firstUnit (fs : FileSystem) (name : String) :
    List (String × Module) → Except Error (Option BinaryUnit)
  | [] => .ok none
  | (moduleName, m) :: rest =>
    if m.tree.hasFolder (Text.parentPath name) then
      match m.read fs name with
      | .error e => .error e
      | .ok (some content) => .ok (some ⟨moduleName, content⟩)
      | .ok none => firstUnit fs name rest
    else firstUnit fs name rest

/-- A file such as `java/lang/String.class` from the first admitted module that
    has its package and holds it. -/
def readUnit (name : String) (filter : Filter) : Query (Option BinaryUnit) := do
  let c ← openContents
  match firstUnit (← read) name (c.admitted filter.admits) with
  | .ok unit => return unit
  | .error e => throw e

/-- A file by its path from the root of a module. -/
def readModuleUnit (moduleName path : String) : Query (Option Bytes) := do
  let c ← openContents
  match c.modules.get? moduleName with
  | none => return none
  | some m =>
    match m.read (← read) path with
    | .ok content => return content
    | .error e => throw e

end Image

end PlatformImage
