import PlatformImage.Session.Request
/-! Carrying out requests one after the other. -/
namespace PlatformImage.Session

open Image (Step Query)

/-- What a request leads to: the answer, the notices given, and the session
    afterwards. -/
structure Outcome where
  answer : Answer
  notices : List Notice
  session : Session

/-- Runs a step with an image. -/
def runStep {α : Type} (s : Session) (number : Nat) (image : Image) (step : Step α) :
    α × List Notice × Session :=
  let (a, u) := (step.run s.files).run ⟨image, []⟩
  (a, u.notices, { s with images := s.images.setIfInBounds number u.image })

/-- A query as a step that answers. -/
def answerQuery {α : Type} (f : α → Answer) (q : Query α) : Step Answer := do
  return .of f (← q.run)

/-- A use of an image. -/
def ImageRequest.step : ImageRequest → Step Answer
  | close => do
    Image.close
    return .nothing
  | paths => do
    let canonical ← Image.canonicalPath
    let normalized ← Image.normalizedPath
    return .paths (← Image.current).root canonical normalized
  | layout => answerQuery .layout Image.layout
  | moduleNames => answerQuery .names Image.moduleNames
  | isPackage package filter => answerQuery .flag (Image.isPackage package filter)
  | readUnit name filter => answerQuery .unit (Image.readUnit name filter)
  | readModuleUnit module path => answerQuery .content (Image.readModuleUnit module path)
  | scan => answerQuery (fun (found, error?) => .scanned found error?) Registry.scan
  | walk mode recorder => do
    let (error?, lines) ← Image.walkFrom [] recorder.visit mode
    return .walked lines error?

/-- A use of an entry, which may change the entry. -/
def EntryRequest.step (e : Entry) (show? : Registry.Snapshot → ShownSnapshot) :
    EntryRequest → Entry.ModuleStep (Answer × Entry)
  | prepare => do return (.of (fun _ => .nothing) (← Registry.loadModules false), e)
  | reset => do return (.nothing, ← liftM e.reset)
  | setOverlays paths => return (.nothing, { e with annotationPaths := paths })
  | load => do
    return (.of (fun s => .snapshot (s.map show?)) (← Registry.loadModules false), e)
  | reload => do
    return (.of (fun s => .snapshot (s.map show?)) (← Registry.loadModules true), e)
  | snapshot => do return (.snapshot ((← Entry.snapshot?).map show?), e)
  | serves names => do return (.flags (← names.mapM Entry.servesModule), e)
  | getModule name => do return (.module (← Entry.getModule name), e)
  | isPackage package filter => do return (.flag (← liftM (Entry.isPackage package filter)), e)
  | findType package unit filter => do
    return (.of .type (← liftM (e.findType package unit filter).run), e)
  | findTypeNames package filter => do
    return (.typeNames (← liftM (Entry.findTypeNames package filter)), e)
  | lookUp module package unit => do
    let scope ← Entry.Scope.of module
    let isPackage ← liftM (scope.isPackage package)
    let found ← liftM (scope.findType e package unit).run
    return (.of (.lookUp module scope.isServed isPackage) found, e)
  | info => do
    let canonical ← liftM Image.canonicalPath
    let normalized ← liftM Image.normalizedPath
    let root := (← liftM Image.current).root
    return (.info ⟨canonical, normalized, e, Entry.title root⟩, e)

/-- A use of the image of a name. -/
def useImage (s : Session) (name : String) (request : ImageRequest) : Outcome :=
  match s.imageNames.get? name with
  | none => ⟨.nothing, [], s⟩
  | some number =>
    match s.images[number]? with
    | none => ⟨.nothing, [], s⟩
    | some image =>
      let (answer, notices, s) := s.runStep number image request.step
      ⟨answer, notices, s⟩

/-- A use of the entry of a name. -/
def useEntry (s : Session) (name : String) (request : EntryRequest) : Outcome :=
  match s.entries.get? name with
  | none => ⟨.nothing, [], s⟩
  | some use =>
    match s.images[use.image]? with
    | none => ⟨.nothing, [], s⟩
    | some image =>
      let show? := fun snapshot => ⟨snapshot, use.register.isSome⟩
      let step := (request.step use.entry show?).run (s.register use.register)
      let (((answer, entry), register), notices, s) := s.runStep use.image image step
      let s := s.setRegister register use.register
      ⟨answer, notices, { s with entries := s.entries.insert name { use with entry := entry } }⟩

/-- Makes an entry for an image that has a number. -/
def addEntry (s : Session) (name : String) (image : Nat) (e : Entry) (register : Option String) :
    Session :=
  { s with entries := s.entries.insert name ⟨e, image, register⟩ }

/-- Makes an entry from a configuration, and its image, which has the same name. -/
def configure (s : Session) (name toml : String) (register : Option String) :
    Except Config.Error Session := do
  let c ← Config.ofText toml
  let root ← c.resolveImage s.files s.javaVariables
  let e := Entry.ofConfig c root
  return (s.addImage name root).addEntry name s.images.size e register

/-- The answer to attaching annotations to a type, and the slot afterwards. -/
def attachedAnswer (t : ClassFile.BinaryType) (slot : Option Overlay.Handle) :
    Except Overlay.Error (Option ClassFile.BinaryType) → Answer
  | .ok none => .attached (.ok false) t.annotations slot
  | .ok (some t) => .attached (.ok true) t.annotations slot
  | .error e => if e = .fatal then .panicked else .attached (.error e) t.annotations slot

/-- Attaches annotations to a type outside of any image. -/
def attach (s : Session) (content : Bytes) (overlay typeName handle : String) :
    Answer × Session :=
  match ClassFile.BinaryType.parse content with
  | .error e => (.parseError e, s)
  | .ok t =>
    let (outcome, slot) := Overlay.attach? s.files overlay typeName (s.handles.get? handle) t
    let handles := match slot with
      | some h => s.handles.insert handle h
      | none => s.handles
    (attachedAnswer t slot outcome, { s with handles := handles })

/-- Carries out one request. -/
def run (s : Session) : Request → Outcome
  | .write path spec => ⟨.nothing, [], { s with files := spec.addTo s.files path }⟩
  | .overwrite path content => ⟨.nothing, [], { s with files := s.files.overwrite path content }⟩
  | .remove path =>
    match s.files.remove? path with
    | some files => ⟨.flag true, [], { s with files := files }⟩
    | none => ⟨.flag false, [], s⟩
  | .newImage name root => ⟨.nothing, [], s.addImage name root⟩
  | .newEntry name image e register =>
    match s.imageNames.get? image with
    | some number => ⟨.nothing, [], s.addEntry name number e register⟩
    | none => ⟨.nothing, [], s⟩
  | .configure name toml register =>
    match s.configure name toml register with
    | .ok s => ⟨.nothing, [], s⟩
    | .error e => ⟨.configError e, [], s⟩
  | .publish register image descriptors =>
    let r := s.register register
    let shown : ShownSnapshot := ⟨r.nextSnapshot image descriptors, register.isSome⟩
    ⟨.snapshot (some shown), [], s.setRegister (r.publish image descriptors) register⟩
  | .inspect register image =>
    let r := s.register register
    let shown := (r.snapshot? image).map fun snapshot => ⟨snapshot, register.isSome⟩
    ⟨.register r.imageCount shown, [], s⟩
  | .registered register image name =>
    let found := ((s.register register).snapshot? image).map fun snapshot =>
      (snapshot.contains name, snapshot.get? name, snapshot.descriptors name)
    ⟨.registered found, [], s⟩
  | .attach content overlay typeName handle =>
    let (answer, s) := s.attach content overlay typeName handle
    ⟨answer, [], s⟩
  | .useImage name request => s.useImage name request
  | .useEntry name request => s.useEntry name request

end PlatformImage.Session
