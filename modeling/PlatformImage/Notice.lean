/-! What is noted down while images are used: what was opened and closed, and
what had to be left out and why. -/
namespace PlatformImage

inductive Notice where
  | unsupportedLayout
  | skippedDirectory
  | skippedArchive
  | opened
  | closed
  | misnamedModule
  | malformedDescriptor
  | missingDescriptor
  | unreadDescriptor
  | brokenScan
  | emptyScan
  | registered
  | failedPackageLookup
  | unreadUnit
  | malformedUnit
  | skippedOverlay
  | brokenNameWalk
  deriving DecidableEq, Repr

namespace Notice

inductive Level where
  | debug
  | warn
  deriving DecidableEq, Repr

def level : Notice → Level
  | unsupportedLayout => .warn
  | skippedDirectory => .warn
  | skippedArchive => .warn
  | malformedDescriptor => .warn
  | unreadDescriptor => .warn
  | brokenScan => .warn
  | _ => .debug

def text : Notice → String
  | unsupportedLayout => "unsupported module image layout"
  | skippedDirectory => "skipping unreadable module directory"
  | skippedArchive => "skipping unreadable jmod archive"
  | opened => "opened module image"
  | closed => "closed module image"
  | misnamedModule => "module declares a name different from its location"
  | malformedDescriptor => "skipping module with unreadable descriptor"
  | missingDescriptor => "module has no descriptor"
  | unreadDescriptor => "failed to read module descriptor"
  | brokenScan => "module scan ended early"
  | emptyScan => "no module descriptors found"
  | registered => "registered module descriptors"
  | failedPackageLookup => "package lookup failed"
  | unreadUnit => "binary unit unreadable"
  | malformedUnit => "malformed binary unit"
  | skippedOverlay => "skipping unreadable annotation overlay"
  | brokenNameWalk => "type name walk ended early"

/-- The notice as a line: its level in capitals, then its text. -/
def line (n : Notice) : String :=
  (match n.level with
    | .debug => "DEBUG "
    | .warn => "WARN ") ++ n.text

end Notice

end PlatformImage
