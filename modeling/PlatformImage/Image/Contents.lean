import PlatformImage.FileSystem.Basic
import PlatformImage.Archive.Zip
import PlatformImage.Image.Error
import PlatformImage.Image.Tree
/-! The modules of an image as found under its root.

An image is either exploded, with a directory for each module, or made of
archives, with a file named `*.jmod` for each. Either way a module is a tree of
folders with names, and a place to read files from. -/
namespace PlatformImage.Image

inductive Layout where
  | exploded
  | jmods
  deriving DecidableEq, Repr

/-- Where the files of a module are. -/
inductive Source where
  | directory (path : String)
  | archive (path : String) (zip : Archive.Zip)

structure Module where
  source : Source
  tree : Tree

/-- The modules of an image by name. -/
structure Contents where
  layout : Layout
  modules : NameMap Module

/-- The file that describes a module. -/
def descriptorFile : String := "module-info.class"

/-- What the names of a module's files begin with in an archive. -/
def classesFolder : String := "classes/"

/-- Whether a path has the extension of module archives, in any case. -/
def isJmod (path : String) : Bool :=
  match Path.extension? path with
  | some extension => extension.toList.map Char.toLower == "jmod".toList
  | none => false

namespace Module

/-- The paths of the entries of an archive, from the folder of its classes on. -/
def entryPaths (zip : Archive.Zip) : List String :=
  (zip.entries.map (·.name)).filterMap (Text.afterStart? classesFolder)

/-- The module that an archive holds. -/
def ofArchive (path : String) (zip : Archive.Zip) : Module :=
  ⟨.archive path zip, .ofEntries (entryPaths zip)⟩

/-- Adds what is in a directory to a tree, where it is the folder `dir`. Links to
    directories are left out, and links to files count as files. -/
def scan (fs : FileSystem) (path dir : String) (tree : Tree) : List (String × Node) → Tree
  | [] => tree
  | (name, node) :: rest =>
    let child := Tree.join dir name
    let tree := match node with
      | .file _ _ => tree.addFile child
      | .directory inner => scan fs (Path.join path name) child (tree.addFolder child) inner
      | .link _ => if fs.isFile (Path.join path name) then tree.addFile child else tree
    scan fs path dir tree rest

/-- Whether everything in a directory has a path that is short enough to be asked
    for. -/
def fits (path : String) : List (String × Node) → Bool
  | [] => true
  | (name, node) :: rest =>
    let child := Path.join path name
    let inside := match node with
      | .directory inner => fits child inner
      | _ => true
    decide (child.utf8ByteSize ≤ FileSystem.maxPathSize) && inside && fits path rest

/-- The module that a directory holds, if all of it can be listed. -/
def ofDirectory? (fs : FileSystem) (path : String) : Option Module :=
  let entries := match fs.node? path with
    | .ok n => n.entries
    | .error _ => []
  if fits path entries then some ⟨.directory path, scan fs path "" .root entries⟩ else none

/-- Whether a module has a package: any folder but the root. -/
def hasPackage (m : Module) (package : String) : Bool :=
  package != "" && m.tree.hasFolder package

/-- The content of a file, by its path from the root of the module. In a
    directory any path may be given that leads to a file; in an archive it is
    that of an entry, which is read from the file that was opened. -/
def read (fs : FileSystem) (m : Module) (path : String) : Except Error (Option Bytes) :=
  match m.source with
  | .directory base =>
    let file := Path.join base path
    if fs.isFile file then
      match fs.readFile file with
      | .ok content => .ok (some content)
      | .error _ => .error (.unreadable file)
    else .ok none
  | .archive archive zip =>
    match zip.read fs (classesFolder ++ path) with
    | .ok found => .ok found
    | .error (.header _) => .error (.badArchive archive)
    | .error .fatal => .error (.fatal archive)
    | .error (.content _) => .error (.unreadable archive)

end Module

namespace Contents

/-- What opening a root finds: the modules, and the directories or archives that
    are left out because they cannot be read. -/
structure Found where
  contents : Contents
  skipped : List String

/-- The children of a directory as paths, in ascending order. -/
def children (fs : FileSystem) (base : String) : Except Error (List String) :=
  match fs.listDirectory base with
  | .ok names => .ok (names.map (Path.join base))
  | .error _ => .error (.unreadable base)

/-- Adds the module of a directory, or the path of one that cannot be listed. -/
def addDirectory (fs : FileSystem) (found : NameMap Module × List String) (path : String) :
    NameMap Module × List String :=
  match Path.fileName? path with
  | none => found
  | some name =>
    match Module.ofDirectory? fs path with
    | some m => (found.1.insert name m, found.2)
    | none => (found.1, found.2 ++ [path])

/-- A module for each directory. -/
def ofDirectories (fs : FileSystem) (base : String) : Except Error Found := do
  let paths := (← children fs base).filter fs.isDirectory
  let (modules, skipped) := paths.foldl (addDirectory fs) (.empty, [])
  return ⟨⟨.exploded, modules⟩, skipped⟩

/-- Opens the archive in a file, if it is one. -/
def archive? (fs : FileSystem) (path : String) : Option Archive.Zip :=
  match fs.openFile path with
  | .ok file => (Archive.Zip.ofFile fs file).toOption
  | .error _ => none

/-- Adds the module of an archive, or the path of one that cannot be read. -/
def addArchive (fs : FileSystem) (found : NameMap Module × List String) (path : String) :
    NameMap Module × List String :=
  match Path.stem? path, archive? fs path with
  | some name, some zip => (found.1.insert name (.ofArchive path zip), found.2)
  | _, _ => (found.1, found.2 ++ [path])

/-- A module for each archive, named without the extension. Of archives with one
    name the last one counts. -/
def ofArchives (fs : FileSystem) (base : String) : Except Error Found := do
  let paths := (← children fs base).filter fun p => fs.isFile p && isJmod p
  let (modules, skipped) := paths.foldl (addArchive fs) (.empty, [])
  return ⟨⟨.jmods, modules⟩, skipped⟩

/-- Whether a path is a directory with the descriptor of a module in it. -/
def isModuleDirectory (fs : FileSystem) (path : String) : Bool :=
  fs.isDirectory path && fs.isFile (Path.join path descriptorFile)

/-- Opens a root. A directory `jmods` in it goes before a directory `modules`;
    without these the root itself holds the modules, archives if a child has
    their extension, else directories if one has a descriptor. -/
def ofRoot (fs : FileSystem) (root : String) : Except Error Found :=
  let jmods := Path.join root "jmods"
  let exploded := Path.join root "modules"
  if !fs.isDirectory root then .error (.notFound root)
  else if fs.isDirectory jmods then ofArchives fs jmods
  else if fs.isDirectory exploded then ofDirectories fs exploded
  else do
    let paths ← children fs root
    if paths.any isJmod then ofArchives fs root
    else if paths.any (isModuleDirectory fs) then ofDirectories fs root
    else throw (.unsupportedLayout root)

/-- The modules that a filter admits, with their names, in ascending order. -/
def admitted (c : Contents) (admits : String → Bool) : List (String × Module) :=
  c.modules.entries.filter fun m => admits m.1

end Contents

end PlatformImage.Image
