import PlatformImage.Text.Segments
/-! Paths as text, taken apart without looking at any file.

A path is a sequence of components. Doubled slashes, a slash at the end and the
component `.` do not count, except a `.` in front of a relative path; `..` is a
component like any other. -/
namespace PlatformImage.Path

def isAbsolute (path : String) : Bool := path.toList.head? = some '/'

/-- The components of a path. The first one of an absolute path is `/`. -/
def components (path : String) : List String :=
  let parts := (Text.segments path).filter fun p => p ≠ "" ∧ p ≠ "."
  if isAbsolute path then "/" :: parts
  else if (Text.segments path).head? = some "." then "." :: parts
  else parts

/-- Two paths name the same place as far as their text tells. -/
def same (p q : String) : Bool := components p == components q

/-- A path relative to another one. An absolute path stands for itself. -/
def join (base path : String) : String :=
  if isAbsolute path then path
  else if base.isEmpty || base.toList.getLast? = some '/' then base ++ path
  else base ++ "/" ++ path

/-- Takes away what does not count at the end of a path, which is given from
    its end: slashes, and the component `.` after a slash. -/
def dropTail : List Char → List Char
  | '/' :: r => dropTail r
  | '.' :: '/' :: r => dropTail r
  | r => r

/-- A path without what does not count at its end. -/
def trimTail (path : String) : String := String.ofList (dropTail path.toList.reverse).reverse

/-- The last component, unless that is the root, `.` or `..`. -/
def fileName? (path : String) : Option String :=
  let name := Text.lastSegment (trimTail path)
  if name = "" ∨ name = "." ∨ name = ".." then none else some name

/-- A name before and after its last point. A point in front of a name does not
    count. -/
def splitName (name : String) : String × Option String :=
  match Text.splitLast '.' name with
  | some (stem, extension) => if stem = "" then (name, none) else (stem, some extension)
  | none => (name, none)

/-- The last component without its extension. -/
def stem? (path : String) : Option String := (fileName? path).map fun n => (splitName n).1

/-- What follows the last point of the last component. -/
def extension? (path : String) : Option String := (fileName? path).bind fun n => (splitName n).2

/-- The last component up to its last point, and all before it; the path as it is
    if it has no such component. -/
def uptoStem (path : String) : String :=
  match fileName? path with
  | none => path
  | some name =>
    let trimmed := (trimTail path).toList
    String.ofList (trimmed.take (trimmed.length - (name.length - (splitName name).1.length)))

/-- A path without its extension and the point before that. As many characters
    as the extension has go first; if `..` remains, the point stays, since that
    is no name with an extension. -/
def withoutExtension (path : String) : String :=
  match extension? path with
  | none => path
  | some extension => uptoStem (String.ofList (path.toList.take (path.length - extension.length)))

/-- A path as an absolute one, for a current directory. Only the text is
    looked at: `..` stays, and so does a slash at the end. Two slashes in
    front stay two. The empty path has no absolute form. -/
def absolute? (current path : String) : Option String :=
  if path.isEmpty then none
  else
    let parts := (Text.segments path).filter fun p => p ≠ "" ∧ p ≠ "."
    let leading := (path.toList.takeWhile (· == '/')).length
    let start := if leading = 0 then current else if leading = 2 then "//" else "/"
    let joined := parts.foldl join start
    some (if path.toList.getLast? = some '/' then join joined "" else joined)

end PlatformImage.Path
