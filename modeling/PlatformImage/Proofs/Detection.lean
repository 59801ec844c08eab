import Mathlib.Data.List.Induction
import PlatformImage.Proofs.Origins
import PlatformImage.Proofs.Tidy
/-! Which layout is found at a root, and what is found there then.

The rules are tried in order: a directory `jmods`, a directory `modules`, an archive among the
children, a directory with a descriptor among them (`Documented`). Just one outcome is
documented for a root, and opening has it, unless a child that is no file has the ending of
archives: such a child counts as one when the layout is chosen, and not when the modules are
collected (`ofRoot_documented_iff`). -/
namespace PlatformImage.Image

/-! ## The last one counts -/

section
variable {gives : String → Option (String × Module)} {names : List String}

/-- Adds what a child gives, if it gives anything. -/
def adds (gives : String → Option (String × Module)) (known : NameMap Module) (child : String) :
    NameMap Module :=
  match gives child with
  | some (name, m) => known.insert name m
  | none => known

/-- After a child was added, a name has what the child gives under it, or what it had. -/
theorem get?_adds {known : NameMap Module} {child name : String} {m : Module} :
    (adds gives known child).get? name = some m ↔ gives child = some (name, m) ∨
      (∀ n, gives child ≠ some (name, n)) ∧ known.get? name = some m := by
  rw [adds]
  cases hgives : gives child with
  | none => simp
  | some given =>
    obtain ⟨key, n⟩ := given
    dsimp only
    rw [NameMap.get?_insert]
    by_cases hkey : name = key
    · subst hkey
      simp
    · simp [hkey, Ne.symm hkey]

/-- Of children that give something under the same name, the last one counts. -/
theorem get?_foldl_adds (hsorted : names.Pairwise (· < ·)) {name : String} {m : Module} :
    (names.foldl (adds gives) .empty).get? name = some m ↔
      ∃ child ∈ names, gives child = some (name, m) ∧
        ∀ other ∈ names, ∀ n, gives other = some (name, n) → other ≤ child := by
  -- The induction goes from the end, where the child is that counts if it gives anything.
  induction names using List.reverseRecOn with
  | nil => simp
  | append_singleton front last ih =>
    obtain ⟨hfront, -, hlast⟩ := List.pairwise_append.1 hsorted
    have hbefore : ∀ child ∈ front, child < last := by
      intro child hchild
      exact hlast child hchild last List.mem_cons_self
    have hmem {child : String} : child ∈ front ++ [last] ↔ child ∈ front ∨ child = last := by simp
    rw [List.foldl_concat, get?_adds, ih hfront]
    constructor
    · rintro (hgives | ⟨hnone, child, hchild, hgives, hgreatest⟩)
      · refine ⟨last, hmem.2 (.inr rfl), hgives, fun other hother n _ => ?_⟩
        rcases hmem.1 hother with hother | rfl
        · exact Std.le_of_lt (hbefore other hother)
        · exact String.le_refl other
      · refine ⟨child, hmem.2 (.inl hchild), hgives, fun other hother n hn => ?_⟩
        rcases hmem.1 hother with hother | rfl
        · exact hgreatest other hother n hn
        · exact absurd hn (hnone n)
    · rintro ⟨child, hchild, hgives, hgreatest⟩
      rcases hmem.1 hchild with hchild | rfl
      · apply Or.inr
        refine ⟨fun n hn => ?_, child, hchild, hgives, fun other hother =>
          hgreatest other (hmem.2 (.inl hother))⟩
        -- What is before the last child is no greatest one.
        have hle := hgreatest last (hmem.2 (.inr rfl)) n hn
        exact String.not_lt.2 hle (hbefore child hchild)
      · exact .inl hgives

end

/-! ## What the children of a directory hold -/

/-- A name in a directory. -/
def Child (fs : FileSystem) (base name : String) : Prop :=
  ∃ es, fs.node? base = .ok (.directory es) ∧ name ∈ es.map (·.1)

/-- A file among the children that has the ending of archives. -/
structure ArchiveFile (fs : FileSystem) (base file : String) : Prop where
  child : Child fs base file
  isFile : fs.isFile (Path.join base file) = true
  ending : isJmod (Path.join base file) = true

/-- A directory among the children that has the descriptor of a module. -/
structure ModuleDirectory (fs : FileSystem) (base name : String) : Prop where
  child : Child fs base name
  isDirectory : fs.isDirectory (Path.join base name) = true
  descriptor : fs.isFile (Path.join (Path.join base name) descriptorFile) = true

/-- The module that a child holds, and its name: in one layout the child is a directory that can
    be listed, in the other a file that can be read as an archive. -/
inductive Gives (fs : FileSystem) (base child : String) : Layout → String → Module → Prop
  | directory {entries : List (String × Node)} (hchild : Child fs base child)
    (hnode : fs.node? (Path.join base child) = .ok (.directory entries))
    (hfits : Module.fits (Path.join base child) entries) :
    Gives fs base child .exploded child ⟨.directory (Path.join base child),
      Module.scan fs (Path.join base child) "" .root entries⟩
  | archive {name : String} {zip : Archive.Zip} (hfile : ArchiveFile fs base child)
    (hname : Path.stem? (Path.join base child) = some name)
    (hzip : Contents.archive? fs (Path.join base child) = some zip) :
    Gives fs base child .jmods name (.ofArchive (Path.join base child) zip)

/-- The contents are the modules that the children of a directory hold. Of several with one name,
    as there may be with archives, there is that of the last child. -/
structure Over (fs : FileSystem) (base : String) (layout : Layout) (c : Contents) : Prop where
  layout_eq : c.layout = layout
  modules : ∀ name m, c.modules.get? name = some m ↔ ∃ child, Gives fs base child layout name m ∧
    ∀ other n, Gives fs base other layout name n → other ≤ child

/-- Opens a directory in a layout. -/
def openedAs (fs : FileSystem) (base : String) : Layout → Except Error Contents.Found
  | .exploded => Contents.ofDirectories fs base
  | .jmods => Contents.ofArchives fs base

/-- What a child gives. -/
def given (fs : FileSystem) (base : String) : Layout → String → Option (String × Module)
  | .exploded, child =>
    if fs.isDirectory (Path.join base child) then
      (Module.ofDirectory? fs (Path.join base child)).map fun m => (child, m)
    else none
  | .jmods, child =>
    if fs.isFile (Path.join base child) && isJmod (Path.join base child) then
      match Path.stem? (Path.join base child), Contents.archive? fs (Path.join base child) with
      | some name, some zip => some (name, .ofArchive (Path.join base child) zip)
      | _, _ => none
    else none

section
variable {fs : FileSystem} {base : String} {layout : Layout} {es : List (String × Node)}
  {c d : Contents} {child : String}

theorem Over.eq (hc : Over fs base layout c) (hd : Over fs base layout d) : c = d := by
  have hmodules : c.modules = d.modules := by
    apply NameMap.ext_get?
    intro k
    apply Option.ext
    intro m
    rw [hc.modules, hd.modules]
  cases c
  cases d
  cases hc.layout_eq
  cases hd.layout_eq
  cases hmodules
  rfl

theorem child_iff (hbase : fs.node? base = .ok (.directory es)) {name : String} :
    Child fs base name ↔ name ∈ namesIn es := by
  rw [mem_namesIn, ← List.mem_map]
  constructor
  · rintro ⟨es', hbase', hname⟩
    rw [hbase] at hbase'
    cases hbase'
    exact hname
  · exact fun hname => ⟨es, hbase, hname⟩

/-- In a tidy directory the names are in strictly ascending order. -/
theorem pairwise_namesIn (htidy : tidy es) : (namesIn es).Pairwise (· < ·) := by
  have hnodup : (es.map (·.1)).Nodup := by
    induction es with
    | nil => exact List.nodup_nil
    | cons e rest ih =>
      obtain ⟨-, hnew, -, hrest⟩ := tidy_cons.1 htidy
      exact List.nodup_cons.2 ⟨hnew, ih hrest⟩
  have hsorted : (namesIn es).Pairwise (· ≤ ·) := by
    have hmerge : (namesIn es).Pairwise fun a b => decide (a ≤ b) = true :=
      List.pairwise_mergeSort (by simpa using fun a b c => String.le_trans)
        (by simpa using String.le_total) _
    exact hmerge.imp of_decide_eq_true
  have hdistinct : (namesIn es).Nodup := (List.mergeSort_perm _ _).nodup_iff.2 hnodup
  exact hsorted.imp₂ (fun a b hle hne => Std.lt_of_le_of_ne hle hne) hdistinct

theorem Gives.isChild {name : String} {m : Module} (h : Gives fs base child layout name m) :
    Child fs base child := by
  cases h with
  | directory hchild => exact hchild
  | archive hfile => exact hfile.child

/-- A child gives what it holds. -/
theorem given_eq_some (hbase : fs.node? base = .ok (.directory es))
    (hchild : child ∈ namesIn es) {name : String} {m : Module} :
    given fs base layout child = some (name, m) ↔ Gives fs base child layout name m := by
  have hmem : Child fs base child := (child_iff hbase).2 hchild
  cases layout with
  | exploded =>
    have hgiven : given fs base .exploded child = some (name, m) ↔ child = name ∧
        fs.isDirectory (Path.join base child) = true ∧
        Module.ofDirectory? fs (Path.join base child) = some m := by
      simp [given, and_left_comm]
    rw [hgiven, ofDirectory?_eq_some]
    constructor
    · rintro ⟨rfl, entries, hnode, hfits, rfl⟩
      exact .directory hmem hnode hfits
    · intro h
      cases h with
      | directory _ hnode hfits => exact ⟨rfl, _, hnode, hfits, rfl⟩
  | jmods =>
    have hgiven : given fs base .jmods child = some (name, m) ↔
        fs.isFile (Path.join base child) = true ∧ isJmod (Path.join base child) = true ∧
        Path.stem? (Path.join base child) = some name ∧
        ∃ zip, Contents.archive? fs (Path.join base child) = some zip ∧
          m = .ofArchive (Path.join base child) zip := by
      rw [given]
      cases Path.stem? (Path.join base child) with
      | none => simp
      | some stem =>
        cases Contents.archive? fs (Path.join base child) with
        | none => simp
        | some zip => simp [and_assoc, @eq_comm _ m]
    rw [hgiven]
    constructor
    · rintro ⟨hfile, hending, hname, zip, hzip, rfl⟩
      exact .archive ⟨hmem, hfile, hending⟩ hname hzip
    · intro h
      cases h with
      | archive hfile hname hzip => exact ⟨hfile.isFile, hfile.ending, hname, _, hzip, rfl⟩

/-! ## Opening a directory in a layout -/

/-- Steps for the children that count add to a map what these give. -/
theorem foldl_filter_eq
    {step : NameMap Module × List String → String → NameMap Module × List String}
    {names : List String} {gives : String → Option (String × Module)} (counts : String → Bool)
    (h : ∀ found, ∀ child ∈ names, (if counts (Path.join base child) then
      step found (Path.join base child) else found).1 = adds gives found.1 child) :
    ∃ skipped, ((names.map (Path.join base)).filter counts).foldl step (.empty, []) =
      (names.foldl (adds gives) .empty, skipped) := by
  have hfst (found : NameMap Module × List String) :
      (((names.map (Path.join base)).filter counts).foldl step found).1 =
        names.foldl (adds gives) found.1 := by
    induction names generalizing found with
    | nil => rfl
    | cons child names ih =>
      have hrest := ih fun found other hother => h found other (List.mem_cons_of_mem child hother)
      rw [List.map_cons, List.foldl_cons, ← h found child List.mem_cons_self, ← hrest,
        List.filter_cons]
      split <;> rfl
  exact ⟨_, Prod.ext (hfst _) rfl⟩

theorem fst_addDirectory (hname : Ordinary child) (found : NameMap Module × List String) :
    (if fs.isDirectory (Path.join base child) then
      Contents.addDirectory fs found (Path.join base child) else found).1 =
        adds (given fs base .exploded) found.1 child := by
  unfold Contents.addDirectory
  simp only [Path.fileName?_join base hname, adds, given]
  cases fs.isDirectory (Path.join base child) with
  | false => rfl
  | true => cases Module.ofDirectory? fs (Path.join base child) <;> rfl

theorem fst_addArchive (found : NameMap Module × List String) :
    (if fs.isFile (Path.join base child) && isJmod (Path.join base child) then
      Contents.addArchive fs found (Path.join base child) else found).1 =
        adds (given fs base .jmods) found.1 child := by
  unfold Contents.addArchive
  simp only [adds, given]
  cases fs.isFile (Path.join base child) && isJmod (Path.join base child) with
  | false => rfl
  | true =>
    cases Path.stem? (Path.join base child) with
    | none => rfl
    | some name => cases Contents.archive? fs (Path.join base child) <;> rfl

/-- A directory that is opened in a layout has the modules of its children. -/
theorem openedAs_eq (hfs : fs.Tidy) (hbase : fs.node? base = .ok (.directory es))
    (layout : Layout) : ∃ skipped, openedAs fs base layout =
      .ok ⟨⟨layout, (namesIn es).foldl (adds (given fs base layout)) .empty⟩, skipped⟩ := by
  have hordinary : ∀ child ∈ namesIn es, Ordinary child := by
    intro child hchild
    obtain ⟨⟨name, node⟩, hmem, rfl⟩ := mem_namesIn.1 hchild
    exact (tidy_of_mem (hfs.directory hbase) hmem).1
  cases layout with
  | exploded =>
    obtain ⟨skipped, hfold⟩ := foldl_filter_eq fs.isDirectory
      fun found child hchild => fst_addDirectory (hordinary child hchild) found
    refine ⟨skipped, ?_⟩
    rw [openedAs, Contents.ofDirectories, children_eq hbase]
    change Except.ok _ = _
    rw [hfold]
  | jmods =>
    obtain ⟨skipped, hfold⟩ := foldl_filter_eq (fun p => fs.isFile p && isJmod p)
      fun found child (_ : child ∈ namesIn es) => fst_addArchive found
    refine ⟨skipped, ?_⟩
    rw [openedAs, Contents.ofArchives, children_eq hbase]
    change Except.ok _ = _
    rw [hfold]

/-- The last one is the greatest one, since the names are in ascending order. -/
theorem over_openedAs (hfs : fs.Tidy) (hbase : fs.isDirectory base = true) (layout : Layout) :
    ∃ found, openedAs fs base layout = .ok found ∧ Over fs base layout found.contents := by
  obtain ⟨es, hnode⟩ := isDirectory_iff.1 hbase
  obtain ⟨skipped, hopened⟩ := openedAs_eq hfs hnode layout
  refine ⟨_, hopened, rfl, fun name m => ?_⟩
  rw [get?_foldl_adds (pairwise_namesIn (hfs.directory hnode))]
  constructor
  · rintro ⟨child, hchild, hgiven, hlast⟩
    refine ⟨child, (given_eq_some hnode hchild).1 hgiven, fun other n hother => ?_⟩
    have hmem : other ∈ namesIn es := (child_iff hnode).1 hother.isChild
    exact hlast other hmem n ((given_eq_some hnode hmem).2 hother)
  · rintro ⟨child, hgives, hlast⟩
    have hmem : child ∈ namesIn es := (child_iff hnode).1 hgives.isChild
    refine ⟨child, hmem, (given_eq_some hnode hmem).2 hgives, fun other hother n hn => ?_⟩
    exact hlast other n ((given_eq_some hnode hother).1 hn)

end

/-! ## The documented outcomes -/

/-- What is documented for a root: the rules in their order, each with what rules out those
    before it. -/
inductive Documented (fs : FileSystem) (root : String) : Except Error Contents → Prop
  | notFound (hroot : fs.isDirectory root = false) : Documented fs root (.error (.notFound root))
  | jmods {c : Contents} (hroot : fs.isDirectory root = true)
    (hjmods : fs.isDirectory (Path.join root "jmods") = true)
    (hc : Over fs (Path.join root "jmods") .jmods c) : Documented fs root (.ok c)
  | modules {c : Contents} (hroot : fs.isDirectory root = true)
    (hjmods : fs.isDirectory (Path.join root "jmods") = false)
    (hmodules : fs.isDirectory (Path.join root "modules") = true)
    (hc : Over fs (Path.join root "modules") .exploded c) : Documented fs root (.ok c)
  | archives {c : Contents} (hroot : fs.isDirectory root = true)
    (hjmods : fs.isDirectory (Path.join root "jmods") = false)
    (hmodules : fs.isDirectory (Path.join root "modules") = false)
    (harchive : ∃ file, ArchiveFile fs root file) (hc : Over fs root .jmods c) :
    Documented fs root (.ok c)
  | directories {c : Contents} (hroot : fs.isDirectory root = true)
    (hjmods : fs.isDirectory (Path.join root "jmods") = false)
    (hmodules : fs.isDirectory (Path.join root "modules") = false)
    (hnone : ¬∃ file, ArchiveFile fs root file) (hmodule : ∃ name, ModuleDirectory fs root name)
    (hc : Over fs root .exploded c) : Documented fs root (.ok c)
  | unsupported (hroot : fs.isDirectory root = true)
    (hjmods : fs.isDirectory (Path.join root "jmods") = false)
    (hmodules : fs.isDirectory (Path.join root "modules") = false)
    (hnone : ¬∃ file, ArchiveFile fs root file) (hbare : ¬∃ name, ModuleDirectory fs root name) :
    Documented fs root (.error (.unsupportedLayout root))

/-- No rule that comes before it applies, and there is no archive among the children, but one that
    is no file has the ending of archives. -/
structure Misled (fs : FileSystem) (root : String) : Prop where
  isDirectory : fs.isDirectory root = true
  noJmods : fs.isDirectory (Path.join root "jmods") = false
  noModules : fs.isDirectory (Path.join root "modules") = false
  noArchive : ¬∃ file, ArchiveFile fs root file
  odd : ∃ name, Child fs root name ∧ isJmod (Path.join root name) = true

section
variable {fs : FileSystem} {root : String} {outcome outcome' : Except Error Contents}

/-- Just one outcome is documented. -/
theorem Documented.eq (h : Documented fs root outcome) (h' : Documented fs root outcome') :
    outcome = outcome' := by
  cases h with
  | notFound hroot => cases h' <;> simp_all
  | jmods hroot hjmods hc =>
    cases h' with
    | jmods _ _ hd => rw [hc.eq hd]
    | _ => simp_all
  | modules hroot hjmods hmodules hc =>
    cases h' with
    | modules _ _ _ hd => rw [hc.eq hd]
    | _ => simp_all
  | archives hroot hjmods hmodules harchive hc =>
    cases h' with
    | archives _ _ _ _ hd => rw [hc.eq hd]
    | _ => simp_all
  | directories hroot hjmods hmodules hnone hmodule hc =>
    cases h' with
    | directories _ _ _ _ _ hd => rw [hc.eq hd]
    | _ => simp_all
  | unsupported => cases h' <;> simp_all

/-! ## Opening a root -/

/-- What is asked of the children when the layout is chosen. -/
theorem any_children {es : List (String × Node)} (hnode : fs.node? root = .ok (.directory es))
    (test : String → Bool) : ((namesIn es).map (Path.join root)).any test = true ↔
      ∃ name, Child fs root name ∧ test (Path.join root name) = true := by
  simp [child_iff hnode]

theorem isModuleDirectory_iff {name : String} : Child fs root name ∧
    Contents.isModuleDirectory fs (Path.join root name) = true ↔ ModuleDirectory fs root name := by
  rw [Contents.isModuleDirectory, Bool.and_eq_true]
  exact ⟨fun ⟨hchild, hdir, hfile⟩ => ⟨hchild, hdir, hfile⟩,
    fun ⟨hchild, hdir, hfile⟩ => ⟨hchild, hdir, hfile⟩⟩

theorem ofRoot_nowhere (hroot : fs.isDirectory root = false) :
    Contents.ofRoot fs root = .error (.notFound root) := by
  unfold Contents.ofRoot
  simp only [hroot]
  rfl

theorem ofRoot_jmods (hroot : fs.isDirectory root = true)
    (hjmods : fs.isDirectory (Path.join root "jmods") = true) :
    Contents.ofRoot fs root = openedAs fs (Path.join root "jmods") .jmods := by
  unfold Contents.ofRoot
  simp only [hroot, hjmods]
  rfl

theorem ofRoot_modules (hroot : fs.isDirectory root = true)
    (hjmods : fs.isDirectory (Path.join root "jmods") = false)
    (hmodules : fs.isDirectory (Path.join root "modules") = true) :
    Contents.ofRoot fs root = openedAs fs (Path.join root "modules") .exploded := by
  unfold Contents.ofRoot
  simp only [hroot, hjmods, hmodules]
  rfl

/-- Without a directory for one of the layouts, the root is opened in the layout that its children
    have. -/
theorem ofRoot_bare (hroot : fs.isDirectory root = true)
    (hjmods : fs.isDirectory (Path.join root "jmods") = false)
    (hmodules : fs.isDirectory (Path.join root "modules") = false) :
    ((∃ name, Child fs root name ∧ isJmod (Path.join root name) = true) →
      Contents.ofRoot fs root = openedAs fs root .jmods) ∧
    ((¬∃ name, Child fs root name ∧ isJmod (Path.join root name) = true) →
      ((∃ name, ModuleDirectory fs root name) →
        Contents.ofRoot fs root = openedAs fs root .exploded) ∧
      ((¬∃ name, ModuleDirectory fs root name) →
        Contents.ofRoot fs root = .error (.unsupportedLayout root))) := by
  obtain ⟨es, hnode⟩ := isDirectory_iff.1 hroot
  have hopen : Contents.ofRoot fs root =
      (if ((namesIn es).map (Path.join root)).any isJmod then openedAs fs root .jmods
      else if ((namesIn es).map (Path.join root)).any (Contents.isModuleDirectory fs) then
        openedAs fs root .exploded
      else .error (.unsupportedLayout root)) := by
    unfold Contents.ofRoot
    simp only [hroot, hjmods, hmodules, children_eq hnode]
    rfl
  have hjmod := any_children hnode isJmod
  have hdescribed := any_children hnode (Contents.isModuleDirectory fs)
  simp only [isModuleDirectory_iff] at hdescribed
  rw [hopen]
  refine ⟨fun hodd => if_pos (hjmod.2 hodd), fun heven => ⟨fun hmodule => ?_, fun hbare => ?_⟩⟩
  · rw [if_neg (mt hjmod.1 heven), if_pos (hdescribed.2 hmodule)]
  · rw [if_neg (mt hjmod.1 heven), if_neg (mt hdescribed.1 hbare)]

/-- Opening has the documented outcome, if no child misleads it. -/
theorem documented_ofRoot (hfs : fs.Tidy) (hright : ¬Misled fs root) :
    Documented fs root ((Contents.ofRoot fs root).map (·.contents)) := by
  cases hroot : fs.isDirectory root with
  | false =>
    rw [ofRoot_nowhere hroot]
    exact .notFound hroot
  | true =>
    cases hjmods : fs.isDirectory (Path.join root "jmods") with
    | true =>
      obtain ⟨found, hfound, hover⟩ := over_openedAs hfs hjmods .jmods
      rw [ofRoot_jmods hroot hjmods, hfound]
      exact .jmods hroot hjmods hover
    | false =>
      cases hmodules : fs.isDirectory (Path.join root "modules") with
      | true =>
        obtain ⟨found, hfound, hover⟩ := over_openedAs hfs hmodules .exploded
        rw [ofRoot_modules hroot hjmods hmodules, hfound]
        exact .modules hroot hjmods hmodules hover
      | false =>
        obtain ⟨hodd, heven⟩ := ofRoot_bare hroot hjmods hmodules
        by_cases harchive : ∃ file, ArchiveFile fs root file
        · obtain ⟨found, hfound, hover⟩ := over_openedAs hfs hroot .jmods
          obtain ⟨file, hfile⟩ := harchive
          rw [hodd ⟨file, hfile.child, hfile.ending⟩, hfound]
          exact .archives hroot hjmods hmodules ⟨file, hfile⟩ hover
        · have hnone : ¬∃ name, Child fs root name ∧ isJmod (Path.join root name) = true :=
            fun h => hright ⟨hroot, hjmods, hmodules, harchive, h⟩
          by_cases hmodule : ∃ name, ModuleDirectory fs root name
          · obtain ⟨found, hfound, hover⟩ := over_openedAs hfs hroot .exploded
            rw [(heven hnone).1 hmodule, hfound]
            exact .directories hroot hjmods hmodules harchive hmodule hover
          · rw [(heven hnone).2 hmodule]
            exact .unsupported hroot hjmods hmodules harchive hmodule

/-- If a child misleads it, there are no modules. -/
theorem ofRoot_of_misled (hfs : fs.Tidy) (hmisled : Misled fs root) :
    ∃ skipped, Contents.ofRoot fs root = .ok ⟨⟨.jmods, .empty⟩, skipped⟩ := by
  obtain ⟨⟨c, skipped⟩, hfound, hover⟩ := over_openedAs hfs hmisled.isDirectory .jmods
  have hempty : c = ⟨.jmods, .empty⟩ := by
    apply hover.eq
    refine ⟨rfl, fun name m => iff_of_false nofun ?_⟩
    rintro ⟨child, hgives, -⟩
    cases hgives with
    | archive hfile => exact hmisled.noArchive ⟨child, hfile⟩
  refine ⟨skipped, ?_⟩
  rw [(ofRoot_bare hmisled.isDirectory hmisled.noJmods hmisled.noModules).1 hmisled.odd, hfound,
    hempty]

/-- What is documented for such a root has nothing to do with archives. -/
theorem documented_of_misled (hfs : fs.Tidy) (hmisled : Misled fs root) :
    ((∃ name, ModuleDirectory fs root name) →
      ∃ c, Over fs root .exploded c ∧ Documented fs root (.ok c)) ∧
    ((¬∃ name, ModuleDirectory fs root name) →
      Documented fs root (.error (.unsupportedLayout root))) := by
  obtain ⟨hroot, hjmods, hmodules, hnone, -⟩ := hmisled
  refine ⟨fun hmodule => ?_, fun hbare => .unsupported hroot hjmods hmodules hnone hbare⟩
  obtain ⟨found, -, hover⟩ := over_openedAs hfs hroot .exploded
  exact ⟨_, hover, .directories hroot hjmods hmodules hnone hmodule hover⟩

theorem exists_documented (hfs : fs.Tidy) (root : String) :
    ∃ outcome, Documented fs root outcome := by
  by_cases hmisled : Misled fs root
  · obtain ⟨hmodules, hbare⟩ := documented_of_misled hfs hmisled
    by_cases hmodule : ∃ name, ModuleDirectory fs root name
    · obtain ⟨c, -, hdocumented⟩ := hmodules hmodule
      exact ⟨_, hdocumented⟩
    · exact ⟨_, hbare hmodule⟩
  · exact ⟨_, documented_ofRoot hfs hmisled⟩

/-- **Opening a root keeps to the documented order.** It fails to find the root just if that is no
    directory. One outcome is documented for each root, and opening has this outcome just if no
    child misleads it: that is, unless no rule for the directories of the root applies, there is
    no archive among its children, and yet one of them has the ending of archives. Then the root
    is opened as one of archives, of which there are none. -/
theorem ofRoot_documented_iff (hfs : fs.Tidy) (root : String) :
    ((∃ path, Contents.ofRoot fs root = .error (.notFound path)) ↔ fs.isDirectory root = false) ∧
    (∃! outcome, Documented fs root outcome) ∧
    (Documented fs root ((Contents.ofRoot fs root).map (·.contents)) ↔ ¬Misled fs root) ∧
    (Misled fs root → ∃ skipped, Contents.ofRoot fs root = .ok ⟨⟨.jmods, .empty⟩, skipped⟩) := by
  refine ⟨⟨?_, ?_⟩, ?_, ⟨?_, documented_ofRoot hfs⟩, ofRoot_of_misled hfs⟩
  · rintro ⟨path, hopen⟩
    by_cases hmisled : Misled fs root
    · obtain ⟨skipped, hfound⟩ := ofRoot_of_misled hfs hmisled
      rw [hfound] at hopen
      cases hopen
    · have hdocumented := documented_ofRoot hfs hmisled
      rw [hopen] at hdocumented
      cases hdocumented with
      | notFound hroot => exact hroot
  · intro hroot
    exact ⟨root, ofRoot_nowhere hroot⟩
  · obtain ⟨outcome, hdocumented⟩ := exists_documented hfs root
    exact ⟨outcome, hdocumented, fun other hother => hother.eq hdocumented⟩
  · intro hdocumented hmisled
    obtain ⟨skipped, hfound⟩ := ofRoot_of_misled hfs hmisled
    rw [hfound] at hdocumented
    obtain ⟨hmodules, hbare⟩ := documented_of_misled hfs hmisled
    by_cases hmodule : ∃ name, ModuleDirectory fs root name
    · obtain ⟨c, hover, hc⟩ := hmodules hmodule
      have hlayout := hover.layout_eq
      rw [← Except.ok.inj (hdocumented.eq hc)] at hlayout
      cases hlayout
    · cases hdocumented.eq (hbare hmodule)

end

/-! ## A root with one module, and with a directory that has the ending of archives -/

/-- A file system with a root that has a directory with a descriptor, and other children. -/
def withModule (others : List (String × Node)) : FileSystem :=
  ⟨.directory [("i", .directory
    (("a", .directory [("module-info.class", .file [] false)]) :: others))], [], []⟩

/-- A directory that has the ending of archives. -/
def oddChild : String × Node := ("x.jmod", .directory [])

section
variable {others : List (String × Node)}

theorem node?_withModule (others : List (String × Node)) : (withModule others).node? "/i" =
    .ok (.directory (("a", .directory [("module-info.class", .file [] false)]) :: others)) :=
  FileSystem.node?_child (FileSystem.node?_root _) (by decide : Path.join "/" "i" = "/i")
    (by decide) rfl nofun (by decide)

theorem child_withModule {name : String} :
    Child (withModule others) "/i" name ↔ name = "a" ∨ name ∈ others.map (·.1) := by
  rw [child_iff (node?_withModule others), mem_namesIn]
  simp [@eq_comm _ "a"]

theorem moduleDirectory_withModule (others : List (String × Node)) :
    ModuleDirectory (withModule others) "/i" "a" := by
  have hmodule : (withModule others).node? (Path.join "/i" "a") = .ok (.directory _) :=
    FileSystem.node?_join (node?_withModule others) (by decide) List.lookup_cons_self nofun
      (by decide)
  have hdescriptor : (withModule others).node? (Path.join (Path.join "/i" "a") descriptorFile) =
      .ok (.file _ _) :=
    FileSystem.node?_join hmodule (by decide) rfl nofun (by decide)
  refine ⟨child_withModule.2 (.inl rfl), isDirectory_of_node? hmodule, ?_⟩
  rw [FileSystem.isFile, hdescriptor]
  rfl

/-- If there are no archives among the other children, the root is one of directories. -/
theorem documented_withModule (hfs : (withModule others).Tidy)
    (hjmods : others.lookup "jmods" = none) (hmodules : others.lookup "modules" = none)
    (hnone : ¬∃ file, ArchiveFile (withModule others) "/i" file) :
    ∃ c, Documented (withModule others) "/i" (.ok c) ∧ c.layout = .exploded ∧
      ∃ m, c.modules.get? "a" = some m := by
  have hnode := node?_withModule others
  have hroot := isDirectory_of_node? hnode
  have hmodule : (withModule others).node? (Path.join "/i" "a") = .ok (.directory _) :=
    FileSystem.node?_join hnode (by decide) List.lookup_cons_self nofun (by decide)
  obtain ⟨found, -, hover⟩ := over_openedAs hfs hroot .exploded
  have hfits : Module.fits (Path.join "/i" "a") [("module-info.class", .file [] false)] := by
    simp only [Module.fits.eq_def]
    decide
  have hgives := Gives.directory (child_withModule.2 (.inl rfl)) hmodule hfits
  refine ⟨found.contents, ?_, hover.layout_eq, _, (hover.modules "a" _).2 ⟨"a", hgives, ?_⟩⟩
  · exact .directories hroot
      (FileSystem.isDirectory_join_of_none hnode (by decide) hjmods)
      (FileSystem.isDirectory_join_of_none hnode (by decide) hmodules) hnone
      ⟨"a", moduleDirectory_withModule others⟩ hover
  · rintro other n ⟨⟩
    exact String.le_refl _

/-- The root with nothing but the module is opened as is documented. -/
theorem ofRoot_documented_withModule : (withModule []).Tidy ∧
    ∃ found, Contents.ofRoot (withModule []) "/i" = .ok found ∧
      Documented (withModule []) "/i" (.ok found.contents) ∧
      found.contents.layout = .exploded ∧ ∃ m, found.contents.modules.get? "a" = some m := by
  have htidy : (withModule []).Tidy := by
    simp only [FileSystem.Tidy, withModule, tidyNode, tidy]
    decide
  have hending {name : String} (hchild : Child (withModule []) "/i" name) :
      isJmod (Path.join "/i" name) = false := by
    obtain rfl | hother := child_withModule.1 hchild
    · decide
    · cases hother
  have hnone : ¬∃ file, ArchiveFile (withModule []) "/i" file := by
    rintro ⟨file, hfile⟩
    exact absurd hfile.ending (by simp [hending hfile.child])
  have hright : ¬Misled (withModule []) "/i" := by
    intro hmisled
    obtain ⟨name, hchild, hodd⟩ := hmisled.odd
    exact absurd hodd (by simp [hending hchild])
  obtain ⟨c, hc, hlayout, hmodule⟩ := documented_withModule htidy rfl rfl hnone
  have hdocumented := (ofRoot_documented_iff htidy "/i").2.2.1.2 hright
  have hopen := hdocumented.eq hc
  cases hfound : Contents.ofRoot (withModule []) "/i" with
  | error e =>
    rw [hfound] at hopen
    cases hopen
  | ok found =>
    rw [hfound] at hopen
    cases hopen
    exact ⟨htidy, found, rfl, hc, hlayout, hmodule⟩

/-- **A directory with the ending of archives hides the modules beside it.** What is documented
    for the root has the module, and what is opened has none. -/
theorem ofRoot_oddChild :
    (∃ c, Documented (withModule [oddChild]) "/i" (.ok c) ∧ c.layout = .exploded ∧
      ∃ m, c.modules.get? "a" = some m) ∧
    ∃ skipped, Contents.ofRoot (withModule [oddChild]) "/i" = .ok ⟨⟨.jmods, .empty⟩, skipped⟩ := by
  have htidy : (withModule [oddChild]).Tidy := by
    simp only [FileSystem.Tidy, withModule, oddChild, tidyNode, tidy]
    decide
  have hnode := node?_withModule [oddChild]
  have hodd : (withModule [oddChild]).node? (Path.join "/i" "x.jmod") = .ok (.directory []) :=
    FileSystem.node?_join hnode (by decide) rfl (by simp) (by decide)
  have hnone : ¬∃ file, ArchiveFile (withModule [oddChild]) "/i" file := by
    rintro ⟨file, hchild, hfile, hending⟩
    obtain rfl | hother := child_withModule.1 hchild
    · exact absurd hending (by decide)
    · obtain rfl : file = "x.jmod" := List.mem_singleton.1 hother
      rw [FileSystem.isFile, hodd] at hfile
      cases hfile
  have hmisled : Misled (withModule [oddChild]) "/i" :=
    ⟨isDirectory_of_node? hnode, FileSystem.isDirectory_join_of_none hnode (by decide) rfl,
      FileSystem.isDirectory_join_of_none hnode (by decide) rfl, hnone, "x.jmod",
      child_withModule.2 (.inr List.mem_cons_self), by decide⟩
  exact ⟨documented_withModule htidy rfl rfl hnone, ofRoot_of_misled htidy hmisled⟩

end

end PlatformImage.Image
