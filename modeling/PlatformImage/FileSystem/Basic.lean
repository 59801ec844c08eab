import PlatformImage.FileSystem.Path
import PlatformImage.Text.Utf8
/-! A file system: a tree of directories, files and symbolic links, and how a
path is resolved in it.

Resolution follows links, at most `linkBudget` of them, and gives the place of
a node as the names that lead to it from the root, without links.

A file that is held open is the file that was opened: what is written into it is
read from it, and it can be read as it was last when it has been removed or
another file has taken its place. -/
namespace PlatformImage

/-- What stands under a name. -/
inductive Node where
  | file (content : Bytes) (executable : Bool)
  | link (target : String)
  | directory (entries : List (String × Node))

/-- Why a path does not lead to a node, or not to one of the kind asked for. -/
inductive FileError where
  | notFound
  | notADirectory
  | isADirectory
  | tooManyLinks
  | nameTooLong
  | nulInPath
  deriving DecidableEq, Repr

def FileError.message : FileError → String
  | .notFound => "No such file or directory (os error 2)"
  | .notADirectory => "Not a directory (os error 20)"
  | .isADirectory => "Is a directory (os error 21)"
  | .tooManyLinks => "Too many levels of symbolic links (os error 40)"
  | .nameTooLong => "File name too long (os error 36)"
  | .nulInPath => "file name contained an unexpected NUL byte"

/-- The place of a node: the names that lead to it from the root. -/
abbrev Location := List String

namespace Location

/-- The place as an absolute path. -/
def path (l : Location) : String := "/" ++ "/".intercalate l

end Location

namespace Node

def isDirectory : Node → Bool
  | .directory _ => true
  | _ => false

def isFile : Node → Bool
  | .file _ _ => true
  | _ => false

/-- The nodes in a directory, with their names. -/
def entries : Node → List (String × Node)
  | .directory es => es
  | _ => []

/-- The node at the end of a list of names. -/
def at? : List String → Node → Option Node
  | [], n => some n
  | name :: names, n =>
    match n.entries.lookup name with
    | some child => child.at? names
    | none => none

/-- A node under a name, in place of the one there. -/
def put (name : String) (node : Node) : List (String × Node) → List (String × Node)
  | [] => [(name, node)]
  | (k, n) :: rest => if k = name then (name, node) :: rest else (k, n) :: put name node rest

/-- Changes the entries of the directory at the end of a list of names. -/
def modifyAt (f : List (String × Node) → List (String × Node)) : List String → Node → Node
  | [], .directory es => .directory (f es)
  | name :: names, .directory es =>
    match es.lookup name with
    | some child => .directory (put name (child.modifyAt f names) es)
    | none => .directory es
  | _, n => n

/-- Another content for the file at the end of a list of names. -/
def rewriteAt (content : Bytes) : List String → Node → Node
  | [], .file _ executable => .file content executable
  | name :: names, .directory es =>
    match es.lookup name with
    | some child => .directory (put name (child.rewriteAt content names) es)
    | none => .directory es
  | _, n => n

/-- The files among nodes at a place and in the directories among them, with
    their places and contents. -/
def filesIn (place : Location) : List (String × Node) → List (Location × Bytes)
  | [] => []
  | (name, .file content _) :: rest => (place ++ [name], content) :: filesIn place rest
  | (name, .directory inner) :: rest => filesIn (place ++ [name]) inner ++ filesIn place rest
  | (_, .link _) :: rest => filesIn place rest

/-- The files that go when what stands under a name in a directory does. -/
def filesAt (root : Node) (here : Location) (name : String) : List (Location × Bytes) :=
  filesIn here ((root.at? (here ++ [name])).toList.map ((name, ·)))

end Node

/-- A file system and the current directory. -/
structure FileSystem where
  root : Node
  current : Location
  /-- The files that have been removed or replaced so far, one after the other:
      where they were, and what they held last. -/
  gone : List (Location × Bytes)

/-- A file held open: where it was opened, and how many files had gone from there
    by then. -/
structure OpenFile where
  place : Location
  earlier : Nat
  deriving DecidableEq, Repr

namespace FileSystem

/-- The file system with nothing but a current directory. -/
def emptyAt (current : Location) : FileSystem :=
  ⟨current.foldr (fun name inner => .directory [(name, inner)]) (.directory []), current, []⟩

/-- The most links followed in one resolution. -/
def linkBudget : Nat := 40

/-- The most bytes in a name, and in a path. -/
def maxNameSize : Nat := 255
def maxPathSize : Nat := 4095

/-- Follows the parts of a path from the directory at `here`. Every part but the
    last must lead to a directory; `followLast` says whether a link at the end
    is followed. -/
def resolveFrom (root : Node) (followLast : Bool) (links : Nat) (here : Location)
    (parts : List String) : Except FileError Location :=
  match parts with
  | [] => .ok here
  | part :: rest =>
    if part = "" ∨ part = "." then resolveFrom root followLast links here rest
    else if part = ".." then resolveFrom root followLast links here.dropLast rest
    else
      let next := here ++ [part]
      match root.at? next with
      | none => .error (if maxNameSize < part.utf8ByteSize then .nameTooLong else .notFound)
      | some (.directory _) => resolveFrom root followLast links next rest
      | some (.file _ _) => if rest.isEmpty then .ok next else .error .notADirectory
      | some (.link target) =>
        if rest.isEmpty && !followLast then .ok next
        else
          match links with
          | 0 => .error .tooManyLinks
          | links + 1 =>
            let start := if Path.isAbsolute target then [] else here
            resolveFrom root followLast links start (Text.segments target ++ rest)
termination_by (links, parts.length)

/-- Where a path leads; the empty path leads nowhere. -/
def resolve (fs : FileSystem) (followLast : Bool) (path : String) : Except FileError Location :=
  if path.toList.contains '\x00' then .error .nulInPath
  else if path.isEmpty then .error .notFound
  else if maxPathSize < path.utf8ByteSize then .error .nameTooLong
  else
    let start := if Path.isAbsolute path then [] else fs.current
    resolveFrom fs.root followLast linkBudget start (Text.segments path)

/-- The node that a path leads to, links followed. -/
def node? (fs : FileSystem) (path : String) : Except FileError Node := do
  let location ← fs.resolve true path
  match fs.root.at? location with
  | some n => .ok n
  | none => .error .notFound

def isDirectory (fs : FileSystem) (path : String) : Bool :=
  match fs.node? path with
  | .ok n => n.isDirectory
  | .error _ => false

def isFile (fs : FileSystem) (path : String) : Bool :=
  match fs.node? path with
  | .ok n => n.isFile
  | .error _ => false

/-- Whether a path leads to a file that may be executed. -/
def isExecutable (fs : FileSystem) (path : String) : Bool :=
  match fs.node? path with
  | .ok (.file _ executable) => executable
  | _ => false

/-- The content of a file. -/
def readFile (fs : FileSystem) (path : String) : Except FileError Bytes :=
  match fs.node? path with
  | .ok (.file content _) => .ok content
  | .ok _ => .error .isADirectory
  | .error e => .error e

/-- What the files that have gone from a place held last, in order. -/
def goneFrom (fs : FileSystem) (place : Location) : List Bytes :=
  (fs.gone.filter (·.1 = place)).map (·.2)

/-- Opens the file that a path leads to. -/
def openFile (fs : FileSystem) (path : String) : Except FileError OpenFile := do
  let place ← fs.resolve true path
  match fs.root.at? place with
  | some (.file _ _) => .ok ⟨place, (fs.goneFrom place).length⟩
  | some _ => .error .isADirectory
  | none => .error .notFound

/-- The content of an open file: of the one at its place, or what it held last if
    it has gone from there. -/
def held (fs : FileSystem) (f : OpenFile) : Bytes :=
  match (fs.goneFrom f.place)[f.earlier]?, fs.root.at? f.place with
  | some last, _ => last
  | none, some (.file content _) => content
  | none, _ => []

/-- The names in a directory, in ascending order. -/
def listDirectory (fs : FileSystem) (path : String) : Except FileError (List String) :=
  match fs.node? path with
  | .ok (.directory es) => .ok ((es.map (·.1)).mergeSort fun a b => decide (a ≤ b))
  | .ok _ => .error .notADirectory
  | .error e => .error e

/-- The absolute path without links that a path leads to. -/
def realPath (fs : FileSystem) (path : String) : Except FileError String :=
  (fs.resolve true path).map Location.path

/-- The current directory as a path. -/
def currentPath (fs : FileSystem) : String := fs.current.path

/-! ## Changes -/

/-- The directory that the parts of a path lead to, where missing ones are made
    on the way. Nothing is made beyond a file or too many links. -/
def makeDirectories (links : Nat) (root : Node) (here : Location) (parts : List String) :
    Except FileError (Node × Location) :=
  match parts with
  | [] => .ok (root, here)
  | part :: rest =>
    if part = "" ∨ part = "." then makeDirectories links root here rest
    else if part = ".." then makeDirectories links root here.dropLast rest
    else
      let next := here ++ [part]
      match root.at? next with
      | none =>
        makeDirectories links (root.modifyAt (Node.put part (.directory [])) here) next rest
      | some (.directory _) => makeDirectories links root next rest
      | some (.file _ _) => .error .notADirectory
      | some (.link target) =>
        match links with
        | 0 => .error .tooManyLinks
        | links + 1 =>
          let start := if Path.isAbsolute target then [] else here
          makeDirectories links root start (Text.segments target ++ rest)
termination_by (links, parts.length)

/-- The directory that the first parts of a path lead to, made if missing. -/
def enter (fs : FileSystem) (path : String) (parts : List String) :
    Except FileError (Node × Location) :=
  makeDirectories linkBudget fs.root (if Path.isAbsolute path then [] else fs.current) parts

/-- Makes a directory and those above it. -/
def addDirectory (fs : FileSystem) (path : String) : FileSystem :=
  match fs.enter path (Text.segments path) with
  | .ok (root, _) => { fs with root }
  | .error _ => fs

/-- Puts a file or link at a path, in place of one there, and makes the
    directories above it. A directory there stays. -/
def add (fs : FileSystem) (path : String) (node : Node) : FileSystem :=
  let parts := Text.segments (Path.trimTail path)
  match fs.enter path parts.dropLast, parts.getLast? with
  | .ok (root, here), some name =>
    match root.at? (here ++ [name]) with
    | some (.directory _) => { fs with root }
    | _ =>
      { fs with
        root := root.modifyAt (Node.put name node) here
        gone := fs.gone ++ root.filesAt here name }
  | _, _ => fs

/-- Writes a content into the file that a path leads to. It stays the same file. -/
def overwrite (fs : FileSystem) (path : String) (content : Bytes) : FileSystem :=
  match fs.resolve true path with
  | .ok place => { fs with root := fs.root.rewriteAt content place }
  | .error _ => fs

/-- Removes what a path leads to, a directory with all in it; `none` if there is
    nothing. A link is removed itself. -/
def remove? (fs : FileSystem) (path : String) : Option FileSystem :=
  match fs.resolve false path with
  | .error _ => none
  | .ok location =>
    match location.getLast? with
    | none => none
    | some name =>
      some { fs with
        root := fs.root.modifyAt (fun es => es.filter fun e => e.1 ≠ name) location.dropLast
        gone := fs.gone ++ fs.root.filesAt location.dropLast name }

end FileSystem

end PlatformImage
