import PlatformImage.Config.Basic
import PlatformImage.Config.JavaHome
/-! Where a configuration comes from, and which image it means. -/
namespace PlatformImage.Config

/-- Why there is no configuration, or no image for it. -/
inductive Error where
  | unreadable (path : String) (cause : FileError)
  | notText (path : String)
  | malformed
  | noJavaHome
  deriving DecidableEq, Repr

def readFailure (path cause : String) : String :=
  "failed to read classpath configuration " ++ path ++ ": " ++ cause

/-- The message of an error; that of a malformed text is left open. -/
def Error.message? : Error → Option String
  | .unreadable path cause => some (readFailure path cause.message)
  | .notText path => some (readFailure path "stream did not contain valid UTF-8")
  | .malformed => none
  | .noJavaHome => some "no module image configured and no Java home could be detected"

/-- The configuration in a TOML text. -/
def ofText (text : String) : Except Error Config :=
  match ofToml? text with
  | some c => .ok c
  | none => .error .malformed

/-- The configuration in a file. -/
def load (fs : FileSystem) (path : String) : Except Error Config :=
  match fs.readFile path with
  | .error cause => .error (.unreadable path cause)
  | .ok content =>
    match Text.Utf8.decode content with
    | .error _ => .error (.notText path)
    | .ok text => ofText text

/-- The image that a configuration means: its own, else that of a Java home. -/
def resolveImage (fs : FileSystem) (vars : JavaHome.Variables) (c : Config) :
    Except Error String :=
  match c.image with
  | some image => .ok image
  | none =>
    match JavaHome.detect? fs vars with
    | some home => .ok home
    | none => .error .noJavaHome

end PlatformImage.Config
