import PlatformImage.Archive.ZipWriter
import PlatformImage.Entry.Scope
import PlatformImage.Image.Recorder
/-! A session: images, entries and registers in use together over one file
system that may change between the uses.

Images and entries go by names. An entry keeps the image it was made for, also
when the name of that image is given to another one. -/
namespace PlatformImage

open ClassFile (ModuleDescriptor)

namespace Session

/-- What is put at a path. -/
inductive FileSpec where
  | bytes (content : Bytes) (executable : Bool)
  | directory
  | link (target : String)
  /-- An archive with something in front of it. -/
  | archive (front : Bytes) (items : List Archive.ZipWriter.Item)

namespace FileSpec

/-- Puts a file at a path, in place of a file or link there. -/
def addTo (spec : FileSpec) (fs : FileSystem) (path : String) : FileSystem :=
  match spec with
  | bytes content executable => fs.add path (.file content executable)
  | directory => fs.addDirectory path
  | link target => fs.add path (.link target)
  | archive front items => fs.add path (.file (front ++ Archive.ZipWriter.write items) false)

end FileSpec

/-- An entry in use: with the number of its image, and the name of its register,
    or none for the common one. -/
structure EntryUse where
  entry : Entry
  image : Nat
  register : Option String

end Session

structure Session where
  files : FileSystem
  javaVariables : JavaHome.Variables
  /-- All images ever made, by number. -/
  images : Array Image
  /-- The numbers of the images that have a name. -/
  imageNames : NameMap Nat
  entries : NameMap Session.EntryUse
  /-- The registers by name, and the common one. -/
  registers : NameMap Registry
  common : Registry
  /-- The open overlays of attachments outside of any image. -/
  handles : NameMap Overlay.Handle

namespace Session

/-- The session in a file system, before its first request. -/
def start (files : FileSystem) (javaVariables : JavaHome.Variables) : Session :=
  ⟨files, javaVariables, #[], .empty, .empty, .empty, .empty, .empty⟩

/-- The register of a name, empty before its first use. -/
def register (s : Session) : Option String → Registry
  | some name => (s.registers.get? name).getD .empty
  | none => s.common

def setRegister (s : Session) (r : Registry) : Option String → Session
  | some name => { s with registers := s.registers.insert name r }
  | none => { s with common := r }

/-- The names of the images whose contents are open, in ascending order. -/
def openImages (s : Session) : List String :=
  (s.imageNames.entries.filter fun e =>
    match s.images[e.2]? with
    | some i => i.isOpen
    | none => false).map (·.1)

/-- Gives a new image a name. -/
def addImage (s : Session) (name root : String) : Session :=
  { s with
    images := s.images.push (.new root)
    imageNames := s.imageNames.insert name s.images.size }

end Session

end PlatformImage
