import PlatformImage.Image.Walk
import PlatformImage.Registry.Basic
/-! Scanning an image for the descriptors of its modules, and registering them. -/
namespace PlatformImage.Registry

open ClassFile (ModuleDescriptor)
open Image (Query Step Visit)

/-- Collects the descriptor of a module; notes why if there is none to collect.
    Nothing in the module is entered. No error is told of but the one that nobody
    can be told of. -/
def visitModule (name : String) : Visit (List ModuleDescriptor) Image.Answer := do
  let note (n : Notice) : Visit (List ModuleDescriptor) Unit := liftM (Image.note n)
  match ← (liftM (Image.readModuleUnit name Image.descriptorFile).run : Visit _ _) with
  | .error e => if e.isFatal then throw e else note .unreadDescriptor
  | .ok none => note .missingDescriptor
  | .ok (some content) =>
    match ModuleDescriptor.parse content with
    | .error _ => note .malformedDescriptor
    | .ok d =>
      if d.name ≠ name then note .misnamedModule
      modify (· ++ [d])
  return .skip

/-- The scan as a visitor. It is told of modules only. -/
def visit : Image.Event → Visit (List ModuleDescriptor) Image.Answer
  | .module name => visitModule name
  | .folder _ _ => return .enter
  | .file _ _ => return .enter

/-- The descriptors of an image, and the error that ended the scan, if one did. It
    fails only where the program ends. -/
def scan : Query (List ModuleDescriptor × Option Image.Error) := do
  let (error?, found) ← liftM (Image.walkFrom [] visit .modulesOnly)
  match error? with
  | some e => if e.isFatal then throw e else return (found, some e)
  | none => return (found, none)

/-- Registers descriptors under a path. Where there are none, what was registered
    before stays. -/
def publishFound (key : String) (found : List ModuleDescriptor) :
    StateT Registry Step (Option Snapshot) := do
  if found.isEmpty then
    liftM (Image.note .emptyScan)
    return (← get).snapshot? key
  else
    let published := (← get).nextSnapshot key found
    modify fun r => r.publish key found
    liftM (Image.note .registered)
    return some published

/-- Registers what a scan finds, if it ends. -/
def publishScan (key : String) : StateT Registry Step (Except Image.Error (Option Snapshot)) := do
  match ← liftM scan.run with
  | .error e => return .error e
  | .ok (found, error?) =>
    if error?.isSome then liftM (Image.note .brokenScan)
    return .ok (← publishFound key found)

/-- The snapshot of an image, registered now if it was not before, or in any case
    if `again` is set. It fails only where the program ends. -/
def loadModules (again : Bool) :
    StateT Registry Step (Except Image.Error (Option Snapshot)) := do
  let key ← liftM Image.canonicalPath
  match (← get).snapshot? key, again with
  | some s, false => return .ok (some s)
  | _, _ => publishScan key

end PlatformImage.Registry
