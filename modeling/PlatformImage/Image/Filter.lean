import PlatformImage.Text.Segments
/-! How a query names what it asks for: the modules it is limited to, and a
package in dotted or internal form. -/
namespace PlatformImage.Image

/-- The modules that a query looks at. -/
inductive Filter where
  /-- Every module. -/
  | all
  | named (module : String)
  | anyOf (modules : List String)
  deriving DecidableEq, Repr

def Filter.admits : Filter → String → Bool
  | .all, _ => true
  | .named m, name => m == name
  | .anyOf ms, name => ms.contains name

/-- The internal form of a package name: the slashes at both ends are taken
    off, then every `.` becomes a `/`. -/
def packagePath (package : String) : String := Text.slashed (Text.trimSlashes package)

end PlatformImage.Image
