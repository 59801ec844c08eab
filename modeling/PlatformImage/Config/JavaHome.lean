import PlatformImage.FileSystem.Basic
/-! Finding a Java home: from the variable that names it, else from the place of
the launcher among the directories of the search path. -/
namespace PlatformImage.JavaHome

/-- The variables that say where Java is, and the user's home directory. -/
structure Variables where
  javaHome : Option String
  searchPath : Option String
  userHome : String
  deriving DecidableEq, Repr

def launcherName : String := "java"

/-- The directories of a search path. -/
def directories (searchPath : String) : List String :=
  (Text.cut ':' searchPath.toList).map String.ofList

/-- A directory whose first component is `~` is in the user's home directory. -/
def expand (userHome directory : String) : String :=
  match Path.components directory with
  | "~" :: rest => rest.foldl Path.join userHome
  | _ => directory

/-- The first launcher on the search path: a file that may be executed. -/
def launcher? (fs : FileSystem) (userHome searchPath : String) : Option String :=
  let places := (directories searchPath).map fun d => Path.join (expand userHome d) launcherName
  places.find? fs.isExecutable

/-- The directory that holds the directory of a place. -/
def homeOf? (place : Location) : Option Location :=
  if place.length < 2 then none else some place.dropLast.dropLast

/-- The Java home that the variables lead to. Links to the launcher are followed
    to its real place. -/
def detect? (fs : FileSystem) (vars : Variables) : Option String :=
  match vars.javaHome with
  | some home => if fs.isDirectory home then some home else search
  | none => search
where
  search : Option String := do
    let launcher ← launcher? fs vars.userHome (← vars.searchPath)
    let place ← (fs.resolve true launcher).toOption
    return (← homeOf? place).path

end PlatformImage.JavaHome
