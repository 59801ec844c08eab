import PlatformImage.Session.Basic
/-! What may be asked for in a session, and what is answered. -/
namespace PlatformImage.Session

open ClassFile (ModuleDescriptor)

/-- A use of an image. -/
inductive ImageRequest where
  | close
  | paths
  | layout
  | moduleNames
  | isPackage (package : String) (filter : Image.Filter)
  | readUnit (name : String) (filter : Image.Filter)
  | readModuleUnit (module path : String)
  | scan
  | walk (mode : Image.Mode) (recorder : Image.Recorder)

/-- A use of an entry. -/
inductive EntryRequest where
  | prepare
  | reset
  | setOverlays (paths : List String)
  | load
  | reload
  | snapshot
  | serves (names : List String)
  | getModule (name : String)
  | isPackage (package : String) (filter : Image.Filter)
  | findType (package unit : String) (filter : Image.Filter)
  | findTypeNames (package : String) (filter : Image.Filter)
  | lookUp (module : Option String) (package unit : String)
  | info

inductive Request where
  | write (path : String) (spec : FileSpec)
  /-- Another content for the file that is there, which stays the same file. -/
  | overwrite (path : String) (content : Bytes)
  | remove (path : String)
  | newImage (name root : String)
  | newEntry (name image : String) (entry : Entry) (register : Option String)
  | configure (name toml : String) (register : Option String)
  | publish (register : Option String) (image : String) (descriptors : List ModuleDescriptor)
  | inspect (register : Option String) (image : String)
  | registered (register : Option String) (image name : String)
  | attach (content : Bytes) (overlay typeName handle : String)
  | useImage (name : String) (request : ImageRequest)
  | useEntry (name : String) (request : EntryRequest)

/-- A snapshot as shown: that of the common register without its number. -/
structure ShownSnapshot where
  snapshot : Registry.Snapshot
  showsGeneration : Bool

/-- What an entry says about itself. -/
structure EntryInfo where
  canonical : String
  normalized : String
  entry : Entry
  title : String

inductive Answer where
  | nothing
  | flag (b : Bool)
  | flags (bs : List Bool)
  | imageError (e : Image.Error)
  | configError (e : Config.Error)
  | parseError (e : ClassFile.ParseError)
  | paths (root canonical normalized : String)
  | layout (l : Image.Layout)
  | names (ns : List String)
  | unit (u : Option Image.BinaryUnit)
  | content (c : Option Bytes)
  | scanned (ds : List ModuleDescriptor) (e : Option Image.Error)
  | walked (lines : List String) (e : Option Image.Error)
  | snapshot (s : Option ShownSnapshot)
  | register (images : Nat) (s : Option ShownSnapshot)
  | registered (found : Option (Bool × Option ModuleDescriptor × List ModuleDescriptor))
  | module (d : Option ModuleDescriptor)
  | type (t : Option Entry.FoundType)
  | typeNames (ns : Option (List Entry.TypeName))
  | lookUp (module : Option String) (served isPackage : Bool) (t : Option Entry.FoundType)
  | attached (outcome : Except Overlay.Error Bool)
      (annotations : Option ClassFile.ExternalAnnotations) (handle : Option Overlay.Handle)
  | info (i : EntryInfo)
  /-- None: the program has ended. -/
  | panicked

/-- The answer to a query that fails. -/
def Answer.ofError (e : Image.Error) : Answer := if e.isFatal then panicked else imageError e

/-- The answer to a query. -/
def Answer.of {α : Type} (f : α → Answer) : Except Image.Error α → Answer
  | .ok a => f a
  | .error e => ofError e

end PlatformImage.Session
