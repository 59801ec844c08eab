/-! Why a module image, or a file in it, cannot be read. -/
namespace PlatformImage.Image

/-- Each cause with the path that it is about. All but the last are reported to
    who asked; the last one ends the program, so nobody is told. -/
inductive Error where
  /-- There is no directory. -/
  | notFound (path : String)
  /-- The directory holds no modules in a known layout. -/
  | unsupportedLayout (path : String)
  /-- A file, or the data of an archive's entry, cannot be read. -/
  | unreadable (path : String)
  /-- An entry of an archive cannot be had. -/
  | badArchive (path : String)
  /-- The program ends at an entry of an archive. -/
  | fatal (path : String)
  deriving DecidableEq, Repr

namespace Error

def path : Error → String
  | notFound path => path
  | unsupportedLayout path => path
  | unreadable path => path
  | badArchive path => path
  | fatal path => path

/-- The program ends with the error. -/
def isFatal : Error → Bool
  | fatal _ => true
  | _ => false

/-- The message of an error, where it depends on the path alone. -/
def message? : Error → Option String
  | notFound path => some ("module image not found at " ++ path)
  | unsupportedLayout path => some ("no jmods or exploded modules under " ++ path)
  | unreadable _ => none
  | badArchive _ => none
  | fatal _ => none

end Error

end PlatformImage.Image
