import PlatformImage.FileSystem.Basic
import PlatformImage.Text.Escaped
import PlatformImage.Archive.Zip
import PlatformImage.ClassFile.BinaryType
/-! Annotations for types from outside: overlays.

An overlay is a directory or a zip archive with a file for each type, named
after the internal name of the type. An archive stays open in a slot and is used
again for the next type as long as the path stays the same: then its entries are
those it had when it was opened, and their contents those of the open file. -/
namespace PlatformImage.Overlay

/-- Why an overlay cannot be read. The last cause ends the program. -/
inductive Error where
  | file (cause : FileError)
  | archive (cause : Archive.ZipError)
  | content (cause : Archive.ContentError)
  | fatal
  deriving DecidableEq, Repr

/-- The error of an entry that cannot be read. -/
def Error.ofEntry : Archive.EntryError → Error
  | .header why => archive why
  | .fatal => fatal
  | .content why => content why

/-- An open archive. -/
structure Handle where
  path : String
  zip : Archive.Zip

namespace Handle

def ofPath (fs : FileSystem) (path : String) : Except Error Handle := do
  let file ← (fs.openFile path).mapError .file
  let zip ← (Archive.Zip.ofFile fs file).mapError .archive
  return ⟨path, zip⟩

/-- The content of an entry, if there is one of that name. -/
def read (fs : FileSystem) (h : Handle) (name : String) : Except Error (Option Bytes) :=
  (h.zip.read fs name).mapError .ofEntry

/-- The handle as text: its path and how many entries it has. -/
def text (h : Handle) : String :=
  "OverlayHandle \x7b path: " ++ Text.quoted h.path ++ ", entries: " ++ toString h.zip.size ++
    " \x7d"

end Handle

/-- What the name of an overlay's file ends with. -/
def fileEnding : String := ".eea"

/-- The file of a type in an overlay that is a directory. -/
def readDirectory (fs : FileSystem) (overlay name : String) : Except Error (Option Bytes) :=
  let path := Path.join overlay name
  if fs.isFile path then some <$> (fs.readFile path).mapError .file else .ok none

/-- The open archive for a path: the one in the slot if it has the same path,
    else a new one. -/
def handleFor (fs : FileSystem) (overlay : String) (slot : Option Handle) :
    Except Error Handle :=
  match slot with
  | some h => if Path.same h.path overlay then .ok h else Handle.ofPath fs overlay
  | none => Handle.ofPath fs overlay

/-- The content that an overlay has for a type, and the slot afterwards. A
    directory, or an archive that cannot be opened, leaves the slot as it is. -/
def lookUp (fs : FileSystem) (overlay typeName : String) (slot : Option Handle) :
    Except Error (Option Bytes) × Option Handle :=
  let name := typeName ++ fileEnding
  if fs.isDirectory overlay then (readDirectory fs overlay name, slot)
  else
    match handleFor fs overlay slot with
    | .error e => (.error e, slot)
    | .ok h => (h.read fs name, some h)

/-- A type with the annotations that an overlay has for it, or `none` if it has
    none; and the slot afterwards. -/
def attach? (fs : FileSystem) (overlay typeName : String) (slot : Option Handle)
    (t : ClassFile.BinaryType) : Except Error (Option ClassFile.BinaryType) × Option Handle :=
  let (found, slot) := lookUp fs overlay typeName slot
  let attached := found.map fun content => content.map fun bytes =>
    { t with annotations := some ⟨overlay, typeName, bytes⟩ }
  (attached, slot)

end PlatformImage.Overlay
