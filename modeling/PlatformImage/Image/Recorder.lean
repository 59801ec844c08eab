import PlatformImage.Image.Walk
/-! Recording what a visitor is told of, as lines of text. -/
namespace PlatformImage.Image

namespace Event

/-- An event as a line: what it is, the module, and the path in it. -/
def line : Event → String
  | .module name => "module " ++ name
  | .folder path owner => "package " ++ owner ++ ":" ++ path
  | .file path owner => "file " ++ owner ++ ":" ++ path

end Event

/-- Which events a recorder takes down. -/
inductive Recorder where
  | modules
  | files
  /-- All events; it does not enter what `skips` lists, by its line, and fails in
      place of the event with the number `failsAt`. -/
  | all (skips : List String) (failsAt : Option Nat)

namespace Recorder

/-- How a recorder fails. -/
def failure : Error := .unsupportedLayout "stopped"

/-- Whether a recorder takes down an event. -/
def records : Recorder → Event → Bool
  | .modules, .module _ => true
  | .files, .file _ _ => true
  | .all _ _, _ => true
  | _, _ => false

def answer : Recorder → Event → Answer
  | .all skips _, e => if skips.contains e.line then .skip else .enter
  | _, _ => .enter

/-- Whether a recorder fails at its next event, after so many. -/
def failsAfter : Recorder → Nat → Bool
  | .all _ failsAt, n => failsAt == some n
  | _, _ => false

/-- The recorder as a visitor. -/
def visit (r : Recorder) (e : Event) : Visit (List String) Answer := do
  if r.records e then
    if r.failsAfter (← get).length then throw failure
    modify (· ++ [e.line])
  return r.answer e

end Recorder

end PlatformImage.Image
