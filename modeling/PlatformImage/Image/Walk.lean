import PlatformImage.Image.Basic
/-! Walking through an image.

A visitor is told of each module, folder and file, and answers whether to go on
into it. The order: a module; then for each of its folders the files, the
folders right inside it, and after all of these what is in each of them. Folders
still to be walked through wait on a stack. -/
namespace PlatformImage.Image

/-- What a visitor is told of. Paths are from the root of the module. -/
inductive Event where
  | module (name : String)
  | folder (path module : String)
  | file (path module : String)
  deriving DecidableEq, Repr

/-- What a visitor answers. The answer about a file does not matter. -/
inductive Answer where
  | enter
  | skip
  deriving DecidableEq, Repr

/-- Which events a visitor is told of. -/
inductive Mode where
  | modulesOnly
  | everything
  deriving DecidableEq, Repr

/-- The folders whose answer is to enter them. -/
def entered : List Folder → List Answer → List Folder
  | folder :: folders, .enter :: answers => folder :: entered folders answers
  | _ :: folders, .skip :: answers => entered folders answers
  | _, _ => []

theorem sizeOf_entered_append_lt (path : String) (files : List String) (folders rest : List Folder)
    (answers : List Answer) :
    sizeOf (entered folders answers ++ rest) < sizeOf (Folder.mk path files folders :: rest) := by
  have h : sizeOf (entered folders answers ++ rest) ≤ sizeOf folders + sizeOf rest := by
    induction folders, answers using entered.induct with
    | case1 folder folders answers ih =>
      simp only [entered, List.cons_append, List.cons.sizeOf_spec]; omega
    | case2 folder folders answers ih =>
      simp only [entered, List.cons.sizeOf_spec]; omega
    | case3 folders answers h₁ h₂ =>
      rw [entered]
      · simp only [List.nil_append]; omega
      · exact h₁
      · exact h₂
  simp only [List.cons.sizeOf_spec, Folder.mk.sizeOf_spec]
  omega

section
variable {m : Type → Type} [Monad m]

/-- Walks through the folders on a stack. Of each the files and the folders are
    reported; those to be entered go on top of the stack. -/
def walkPending (visit : Event → m Answer) (moduleName : String) (pending : List Folder) :
    m Unit :=
  match pending with
  | [] => pure ()
  | .mk path files folders :: rest => do
    files.forM fun name => discard (visit (.file (Tree.join path name) moduleName))
    let answers ← folders.mapM fun f => visit (.folder f.path moduleName)
    walkPending visit moduleName (entered folders answers ++ rest)
termination_by sizeOf pending
decreasing_by exact sizeOf_entered_append_lt path files folders rest answers

/-- Walks through one module. -/
def Module.walk (visit : Event → m Answer) (mode : Mode) (name : String) (mod : Module) :
    m Unit := do
  let answer ← visit (.module name)
  if answer = .enter ∧ mode = .everything then walkPending visit name [mod.tree.folder ""]

/-- Walks through all modules, in ascending order of their names. -/
def Contents.walk (visit : Event → m Answer) (mode : Mode) (c : Contents) : m Unit :=
  c.modules.entries.forM fun (name, mod) => mod.walk visit mode name

end

/-- What a visitor with a state of its own does. It keeps that state when it
    fails. -/
abbrev Visit (σ : Type) := ExceptT Error (StateT σ Step)

/-- A query as part of a visit. -/
def Visit.ofQuery {σ α : Type} (q : Query α) : Visit σ α := ExceptT.mk (StateT.lift q.run)

/-- Walks through an image. -/
def walk {σ : Type} (visit : Event → Visit σ Answer) (mode : Mode) : Visit σ Unit := do
  let c ← Visit.ofQuery openContents
  c.walk visit mode

/-- Walks through an image with a visitor that begins in a state: the error that
    ended the walk, if one did, and the state of the visitor at the end. -/
def walkFrom {σ : Type} (start : σ) (visit : Event → Visit σ Answer) (mode : Mode) :
    Step (Option Error × σ) := do
  let (outcome, final) ← (walk visit mode).run.run start
  match outcome with
  | .ok _ => return (none, final)
  | .error e => return (some e, final)

end PlatformImage.Image
