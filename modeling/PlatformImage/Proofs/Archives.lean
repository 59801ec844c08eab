import PlatformImage.Proofs.Contributions
import PlatformImage.Proofs.Detection
import PlatformImage.Proofs.Reports
/-! Archives that lie in one directory.

In a root with a directory `jmods` the modules are made of the files that open as archives, each
under its stem, and of those with one stem there is the last (`get?_of_over`). So what is under a
name is known by the files of that stem, and the other files can be anything, for an archive
that does not open is left out without an error. Two such directories that have the same files of
all other stems have the same modules but for one, and no answer about the others tells them apart
(`archives_apart`).

There is one way in which the files of one stem matter to another: by a link. Where an archive is a
link to a file of another stem, it goes with that file (`linked_archive_lost`). -/
namespace PlatformImage

/-- A path that leads somewhere is not too long. -/
theorem FileSystem.size_of_isFile {fs : FileSystem} {path : String} (h : fs.isFile path) :
    path.utf8ByteSize ≤ maxPathSize := by
  unfold isFile at h
  cases hnode : fs.node? path with
  | error e =>
    rw [hnode] at h
    cases h
  | ok n =>
    obtain ⟨loc, hloc, -⟩ := node?_eq_ok.1 hnode
    exact (of_resolve_eq_ok hloc).2.2

namespace Image

/-! ## Files that open as archives -/

/-- A file of a directory that opens as the archive of a module. -/
structure Opens (fs : FileSystem) (base file name : String) (zip : Archive.Zip) : Prop
    extends ArchiveFile fs base file where
  stem : Path.stem? (Path.join base file) = some name
  archive : Contents.archive? fs (Path.join base file) = some zip

/-- A root with a directory `jmods` that has these entries. -/
structure JmodsRoot (fs : FileSystem) (root : String) (es : List (String × Node)) : Prop where
  tidy : fs.Tidy
  isDirectory : fs.isDirectory root = true
  jmods : fs.node? (Path.join root "jmods") = .ok (.directory es)

/-- Of two directories with the same path, in two file systems, the entries with the ending of
    archives and another stem are the same; and those of them that are links read the same. -/
def OthersKept (fs fs' : FileSystem) (base : String) (es es' : List (String × Node))
    (stem : String) : Prop :=
  ∀ file name, isJmod (Path.join base file) = true → Path.stem? (Path.join base file) = some name →
    name ≠ stem → es'.lookup file = es.lookup file ∧
      ∀ target, es.lookup file = some (.link target) →
        (fs'.readFile (Path.join base file)).toOption = (fs.readFile (Path.join base file)).toOption

section
variable {fs fs' : FileSystem} {root base file name stem : String} {zip : Archive.Zip}
  {es es' : List (String × Node)} {c c' : Contents} {m : Module} {u u' : Use}

theorem gives_iff : Gives fs base file .jmods name m ↔
    ∃ zip, Opens fs base file name zip ∧ m = .ofArchive (Path.join base file) zip := by
  constructor
  · intro h
    cases h with
    | archive hfile hname hzip => exact ⟨_, ⟨hfile, hname, hzip⟩, rfl⟩
  · rintro ⟨zip, hopens, rfl⟩
    exact .archive hopens.toArchiveFile hopens.stem hopens.archive

/-- A directory that is opened as archives has, under each name, the last one of that stem. -/
theorem get?_of_over (hc : Over fs base .jmods c) : c.modules.get? name = some m ↔
    ∃ file zip, Opens fs base file name zip ∧ m = .ofArchive (Path.join base file) zip ∧
      ∀ other zip', Opens fs base other name zip' → other ≤ file := by
  rw [hc.modules]
  constructor
  · rintro ⟨file, hgives, hlast⟩
    obtain ⟨zip, hopens, rfl⟩ := gives_iff.1 hgives
    refine ⟨file, zip, hopens, rfl, ?_⟩
    intro other zip' hother
    exact hlast other _ (gives_iff.2 ⟨zip', hother, rfl⟩)
  · rintro ⟨file, zip, hopens, rfl, hlast⟩
    refine ⟨file, gives_iff.2 ⟨zip, hopens, rfl⟩, ?_⟩
    intro other n hother
    obtain ⟨zip', hopens', -⟩ := gives_iff.1 hother
    exact hlast other zip' hopens'

/-- Of some names there is a last one. -/
theorem exists_last {p : String → Prop} {a : String} (ha : p a) (names : List String) :
    ∃ last, p last ∧ a ≤ last ∧ ∀ b ∈ names, p b → b ≤ last := by
  induction names with
  | nil => exact ⟨a, ha, String.le_refl a, nofun⟩
  | cons first names ih =>
    obtain ⟨last, hp, hle, hlast⟩ := ih
    by_cases hfirst : p first ∧ ¬first ≤ last
    · have hover : last ≤ first := (String.le_total first last).resolve_left hfirst.2
      refine ⟨first, hfirst.1, String.le_trans hle hover, ?_⟩
      intro b hb hpb
      rcases List.mem_cons.1 hb with rfl | hb
      · exact String.le_refl b
      · exact String.le_trans (hlast b hb hpb) hover
    · refine ⟨last, hp, hle, ?_⟩
      intro b hb hpb
      rcases List.mem_cons.1 hb with rfl | hb
      · by_contra hnot
        exact hfirst ⟨hpb, hnot⟩
      · exact hlast b hb hpb

/-- The names are the stems of the files that open. -/
theorem mem_keys_of_over (hbase : fs.node? base = .ok (.directory es))
    (hc : Over fs base .jmods c) :
    name ∈ c.modules.keys ↔ ∃ file zip, Opens fs base file name zip := by
  rw [NameMap.mem_keys_iff]
  constructor
  · rintro ⟨m, hm⟩
    obtain ⟨file, zip, hopens, -⟩ := (get?_of_over hc).1 hm
    exact ⟨file, zip, hopens⟩
  · rintro ⟨file, zip, hopens⟩
    obtain ⟨last, ⟨zip', hopens'⟩, -, hlast⟩ :=
      exists_last (p := fun f => ∃ z, Opens fs base f name z) ⟨zip, hopens⟩ (namesIn es)
    refine ⟨_, (get?_of_over hc).2 ⟨last, zip', hopens', rfl, ?_⟩⟩
    intro other z hother
    exact hlast other ((child_iff hbase).1 hother.child) ⟨z, hother⟩

/-- An image of such a root opens, whatever is in the directory. -/
theorem JmodsRoot.open (h : JmodsRoot fs root es) (hu : UpToDate fs root u.image) :
    ∃ c v, openContents.run.on fs u = (.ok c, v) ∧ Over fs (Path.join root "jmods") .jmods c := by
  have hjmods := isDirectory_of_node? h.jmods
  obtain ⟨found, hfound, hover⟩ := over_openedAs h.tidy hjmods .jmods
  rw [← ofRoot_jmods h.isDirectory hjmods] at hfound
  obtain ⟨v, hopen, -⟩ := hu.open hfound
  exact ⟨found.contents, v, hopen, hover⟩

/-! ## The files of the other stems -/

theorem file_ne_link (content : Bytes) (executable : Bool) (target : String) :
    Node.file content executable ≠ .link target := by
  intro h
  cases h

theorem OthersKept.symm (h : OthersKept fs fs' base es es' stem) :
    OthersKept fs' fs base es' es stem := by
  intro file name hending hstem hne
  obtain ⟨hsame, hlink⟩ := h file name hending hstem hne
  refine ⟨hsame.symm, ?_⟩
  intro target htarget
  exact (hlink target (hsame ▸ htarget)).symm

/-- A module of an archive in each of two file systems, where the archive has the same path and is
    read the same. -/
inductive SameArchive (fs fs' : FileSystem) : Module → Module → Prop
  | intro (path : String) {zip zip' : Archive.Zip} (h : zip.Matches fs fs' zip') :
    SameArchive fs fs' (.ofArchive path zip) (.ofArchive path zip')

theorem SameArchive.tree {m m' : Module} (h : SameArchive fs fs' m m') : m'.tree = m.tree := by
  cases h with
  | intro path hmatches => rw [Module.ofArchive, Module.ofArchive, Module.entryPaths,
      Module.entryPaths, hmatches.entries]

theorem SameArchive.read {m m' : Module} (h : SameArchive fs fs' m m') (unit : String) :
    m'.read fs' unit = m.read fs unit := by
  cases h with
  | intro path hmatches =>
    simp only [Module.read, Module.ofArchive]
    rw [hmatches.read]

/-- A file of another stem that opens still opens, as an archive that is read the same. -/
theorem Opens.kept (h : Opens fs base file name zip) (hbase : fs.node? base = .ok (.directory es))
    (hbase' : fs'.node? base = .ok (.directory es')) (hfs : fs.Tidy)
    (hkept : OthersKept fs fs' base es es' stem) (hne : name ≠ stem) :
    ∃ zip', Opens fs' base file name zip' ∧ zip.Matches fs fs' zip' := by
  obtain ⟨hsame, hlink⟩ := hkept file name h.ending h.stem hne
  obtain ⟨n, hmem⟩ : ∃ n, (file, n) ∈ es := by
    obtain ⟨e, he, rfl⟩ := mem_namesIn.1 ((child_iff hbase).1 h.child)
    exact ⟨e.2, he⟩
  obtain ⟨hordinary, hlookup, -⟩ := tidy_of_mem (hfs.directory hbase) hmem
  obtain ⟨hopen, hentries⟩ := archive?_eq_some.1 h.archive
  have hread : fs.readFile (Path.join base file) = .ok (fs.held zip.file) :=
    FileSystem.readFile_eq_ok.2 ⟨_, hopen, rfl⟩
  have hread' : fs'.readFile (Path.join base file) = .ok (fs.held zip.file) := by
    by_cases htarget : ∃ target, es.lookup file = some (.link target)
    · obtain ⟨target, htarget⟩ := htarget
      have hoption := hlink target htarget
      rw [hread] at hoption
      cases hread' : fs'.readFile (Path.join base file) with
      | error e => simp [hread', Except.toOption] at hoption
      | ok content' =>
        rw [hread'] at hoption
        exact congrArg _ (Option.some.inj hoption)
    · -- A file that is no link is right there, in both directories.
      have hnolink : ∀ target, es.lookup file ≠ some (.link target) := by
        intro target heq
        exact htarget ⟨target, heq⟩
      obtain ⟨content', executable, hfile, hcontent'⟩ :=
        FileSystem.lookup_of_isFile_join hbase hordinary.single hnolink h.isFile
      obtain rfl : content' = fs.held zip.file := by
        rw [hread] at hcontent'
        exact (Except.ok.inj hcontent').symm
      have hsize := FileSystem.size_of_isFile h.isFile
      have hnode' := FileSystem.node?_join hbase' hordinary (hsame.trans hfile)
        (file_ne_link _ executable) hsize
      rw [FileSystem.readFile, hnode']
  have hchild' : Child fs' base file :=
    (child_iff hbase').2 (mem_namesIn.2 ⟨_, mem_of_lookup (hsame.trans hlookup), rfl⟩)
  have hisFile' : fs'.isFile (Path.join base file) = true :=
    FileSystem.isFile_iff.2 ⟨_, hread'⟩
  obtain ⟨file', hopen', hheld⟩ := FileSystem.readFile_eq_ok.1 hread'
  have harchive' : Contents.archive? fs' (Path.join base file) = some ⟨file', zip.entries⟩ := by
    refine archive?_eq_some.2 ⟨hopen', ?_⟩
    rw [hheld]
    exact hentries
  exact ⟨⟨file', zip.entries⟩, ⟨⟨hchild', hisFile', h.ending⟩, h.stem, harchive'⟩, ⟨rfl, hheld⟩⟩

/-- What one such directory has under another name, the other one has too. -/
theorem exists_get?_kept (h : JmodsRoot fs root es) (h' : JmodsRoot fs' root es')
    (hc : Over fs (Path.join root "jmods") .jmods c)
    (hc' : Over fs' (Path.join root "jmods") .jmods c')
    (hkept : OthersKept fs fs' (Path.join root "jmods") es es' stem) (hne : name ≠ stem)
    (hm : c.modules.get? name = some m) :
    ∃ m', c'.modules.get? name = some m' ∧ SameArchive fs fs' m m' := by
  obtain ⟨file, zip, hopens, rfl, hlast⟩ := (get?_of_over hc).1 hm
  obtain ⟨zip', hopens', hmatches⟩ := hopens.kept h.jmods h'.jmods h.tidy hkept hne
  refine ⟨_, (get?_of_over hc').2 ⟨file, zip', hopens', rfl, ?_⟩, .intro _ hmatches⟩
  -- A later one here would be a later one there.
  intro other z hother
  obtain ⟨z', hother', -⟩ := hother.kept h'.jmods h.jmods h'.tidy hkept.symm hne
  exact hlast other z' hother'

/-- What two such directories have under another name is the same archive, or nothing. -/
theorem get?_kept (h : JmodsRoot fs root es) (h' : JmodsRoot fs' root es')
    (hc : Over fs (Path.join root "jmods") .jmods c)
    (hc' : Over fs' (Path.join root "jmods") .jmods c')
    (hkept : OthersKept fs fs' (Path.join root "jmods") es es' stem) (hne : name ≠ stem) :
    Option.Rel (SameArchive fs fs') (c.modules.get? name) (c'.modules.get? name) := by
  cases hm : c.modules.get? name with
  | some m =>
    obtain ⟨m', hm', hsame⟩ := exists_get?_kept h h' hc hc' hkept hne hm
    rw [hm']
    exact .some hsame
  | none =>
    cases hm' : c'.modules.get? name with
    | none => exact .none
    | some m' =>
      obtain ⟨m, hfound, -⟩ := exists_get?_kept h' h hc' hc hkept.symm hne hm'
      rw [hm] at hfound
      cases hfound

end

/-! ## Answers about the other modules -/

section
variable {fs fs' : FileSystem} {c c' : Contents} {u u' v v' : Use} {stem : String}

/-- Two images, each in a file system of its own, answer alike about all modules but those of one
    name. -/
structure AgreeBut (stem : String) (fs : FileSystem) (u : Use) (fs' : FileSystem) (u' : Use) :
    Prop where
  names : ∃ names names', (moduleNames.run.on fs u).1 = .ok names ∧
    (moduleNames.run.on fs' u').1 = .ok names' ∧
    names.filter (fun k => decide (k ≠ stem)) = names'.filter (fun k => decide (k ≠ stem))
  packages : ∀ package filter, filter.admits stem = false →
    ((isPackage package filter).run.on fs u).1 = ((isPackage package filter).run.on fs' u').1
  units : ∀ unit filter, filter.admits stem = false →
    ((readUnit unit filter).run.on fs u).1 = ((readUnit unit filter).run.on fs' u').1
  moduleUnits : ∀ name path, name ≠ stem → ((readModuleUnit name path).run.on fs u).1 =
    ((readModuleUnit name path).run.on fs' u').1
  events : ∀ answer mode, ∃ told told',
    ((walkFrom [] (visiting answer takeDown) mode).on fs u).1 = (none, told) ∧
    ((walkFrom [] (visiting answer takeDown) mode).on fs' u').1 = (none, told') ∧
    told.filter (fun e => decide (e.owner ≠ stem)) = told'.filter (fun e => decide (e.owner ≠ stem))

/-- Entries that are told alike, of modules that are read the same, give one list. -/
theorem map_eq_of_same {ms ms' : List (String × Module)}
    (h : ms.Forall₂ (fun m m' => m.1 = m'.1 ∧ SameArchive fs fs' m.2 m'.2) ms')
    {α : Type} (f : String × Tree → α) :
    (ms.map fun m => f (m.1, m.2.tree)) = ms'.map fun m => f (m.1, m.2.tree) := by
  rw [← List.forall₂_eq_eq_eq, List.forall₂_map_left_iff, List.forall₂_map_right_iff]
  refine h.imp ?_
  rintro m m' ⟨hname, hsame⟩
  rw [hname, hsame.tree]

/-- A package is found in modules that are read the same, or in neither. -/
theorem any_eq_of_same {ms ms' : List (String × Module)}
    (h : ms.Forall₂ (fun m m' => m.1 = m'.1 ∧ SameArchive fs fs' m.2 m'.2) ms')
    (package : String) :
    ms.any (fun m => m.2.hasPackage package) = ms'.any fun m => m.2.hasPackage package := by
  induction h with
  | nil => rfl
  | cons hm h ih =>
    rw [List.any_cons, List.any_cons, Module.hasPackage, Module.hasPackage, hm.2.tree, ih]

/-- A file is found in the same one of modules that are read the same. -/
theorem firstUnit_eq_of_same {ms ms' : List (String × Module)}
    (h : ms.Forall₂ (fun m m' => m.1 = m'.1 ∧ SameArchive fs fs' m.2 m'.2) ms') (unit : String) :
    firstUnit fs unit ms = firstUnit fs' unit ms' := by
  induction h with
  | nil => rfl
  | @cons m m' ms ms' hm h ih =>
    obtain ⟨name, m⟩ := m
    obtain ⟨name', m'⟩ := m'
    obtain ⟨rfl, hsame⟩ : name = name' ∧ SameArchive fs fs' m m' := hm
    rw [firstUnit, firstUnit, hsame.tree, hsame.read, ih]

/-- The events that are about other modules are those of the other modules. -/
theorem filter_events (c : Contents) (p : String → Bool) :
    c.events.filter (fun e => p e.owner) =
      (c.modules.among p).entries.flatMap fun m => .module m.1 :: m.2.tree.events m.1 "" := by
  unfold Contents.events
  change _ = (c.modules.entries.filter fun m => p m.1).flatMap _
  induction c.modules.entries with
  | nil => rfl
  | cons m ms ih =>
    rw [List.flatMap_cons, List.filter_append, ih]
    cases hp : p m.1 with
    | true =>
      have hall : (Event.module m.1 :: m.2.tree.events m.1 "").filter (fun e => p e.owner) =
          .module m.1 :: m.2.tree.events m.1 "" := by
        apply List.filter_eq_self.2
        intro e he
        rw [Module.owner_of_mem he, hp]
      have hkept : (m :: ms).filter (fun m => p m.1) = m :: ms.filter fun m => p m.1 :=
        List.filter_cons_of_pos hp
      rw [hall, hkept, List.flatMap_cons]
    | false =>
      have hnone : (Event.module m.1 :: m.2.tree.events m.1 "").filter (fun e => p e.owner) = [] := by
        apply List.filter_eq_nil_iff.2
        intro e he
        rw [Module.owner_of_mem he, hp]
        exact Bool.false_ne_true
      have hleft : (m :: ms).filter (fun m => p m.1) = ms.filter fun m => p m.1 :=
        List.filter_cons_of_neg (Bool.eq_false_iff.1 hp)
      rw [hnone, hleft, List.nil_append]

/-- What a walk tells of other modules is what it tells of, of their events. -/
theorem filter_delivered (c : Contents) (p : String → Bool) (answer : Event → Answer) (mode : Mode) :
    (c.delivered answer mode).filter (fun e => p e.owner) =
      ((c.modules.among p).entries.flatMap
        fun m => .module m.1 :: m.2.tree.events m.1 "").filter (Event.told answer mode) := by
  rw [← filter_events, Contents.delivered, List.filter_filter, List.filter_filter]
  simp only [Bool.and_comm]

/-- Archives that are the same but under one name give the same answers about the others. -/
theorem agreeBut_of_agree (hopen : openContents.run.on fs u = (.ok c, v))
    (hopen' : openContents.run.on fs' u' = (.ok c', v'))
    (hagree : ∀ name, name ≠ stem →
      Option.Rel (SameArchive fs fs') (c.modules.get? name) (c'.modules.get? name)) :
    AgreeBut stem fs u fs' u' := by
  have hamong {p : String → Bool} (hp : p stem = false) :=
    NameMap.forall₂_among (p := p) fun k hk => hagree k (by
      rintro rfl
      rw [hp] at hk
      cases hk)
  have hothers := hamong (p := fun k => decide (k ≠ stem)) (by simp)
  refine ⟨?_, ?_, ?_, ?_, ?_⟩
  · refine ⟨c.modules.keys, c'.modules.keys, ?_, ?_, ?_⟩
    · rw [on_moduleNames hopen]
    · rw [on_moduleNames hopen']
    · rw [← NameMap.keys_among, ← NameMap.keys_among]
      exact map_eq_of_same hothers (·.1)
  · intro package filter hfilter
    rw [on_isPackage hopen, on_isPackage hopen']
    split
    · rfl
    · exact congrArg Except.ok (any_eq_of_same (hamong hfilter) (packagePath package))
  · intro unit filter hfilter
    rw [on_readUnit hopen, on_readUnit hopen']
    exact firstUnit_eq_of_same (hamong hfilter) unit
  · intro name path hne
    rw [on_readModuleUnit hopen, on_readModuleUnit hopen']
    have hsame := hagree name hne
    generalize c.modules.get? name = x, c'.modules.get? name = y at hsame
    cases hsame with
    | none => rfl
    | some hsame => exact (hsame.read path).symm
  · intro answer mode
    have hsame := map_eq_of_same hothers fun m => Event.module m.1 :: m.2.events m.1 ""
    refine ⟨c.delivered answer mode, c'.delivered answer mode, ?_, ?_, ?_⟩
    · rw [on_walkFrom_takeDown answer mode hopen]
    · rw [on_walkFrom_takeDown answer mode hopen']
    · rw [filter_delivered c fun k => decide (k ≠ stem), filter_delivered c' fun k => decide (k ≠ stem)]
      exact congrArg (fun lists => List.filter (Event.told answer mode) lists.flatten) hsame

end

/-- **An archive that cannot be read hides nothing but itself.** In a root with a directory `jmods`,
    whatever is in there, an image opens, and its modules are the stems of the files with the
    ending of archives that open as such; each is made of the last file of its stem that opens.
    Let the files of one stem be added, removed or broken, so that the others are as before, and
    those of them that are links read as before: then the image opens again, and gives the same
    answers about all other modules. -/
theorem archives_apart {fs : FileSystem} {root : String} {es : List (String × Node)} {u : Use}
    (h : JmodsRoot fs root es) (hu : UpToDate fs root u.image) :
    ∃ c v, openContents.run.on fs u = (.ok c, v) ∧
      (∀ name, name ∈ c.modules.keys ↔
        ∃ file zip, Opens fs (Path.join root "jmods") file name zip) ∧
      (∀ name m, c.modules.get? name = some m ↔
        ∃ file zip, Opens fs (Path.join root "jmods") file name zip ∧
          m = .ofArchive (Path.join (Path.join root "jmods") file) zip ∧
          ∀ other zip', Opens fs (Path.join root "jmods") other name zip' → other ≤ file) ∧
      ∀ fs' es' u' stem, JmodsRoot fs' root es' → UpToDate fs' root u'.image →
        OthersKept fs fs' (Path.join root "jmods") es es' stem →
        (∃ c' v', openContents.run.on fs' u' = (.ok c', v')) ∧ AgreeBut stem fs u fs' u' := by
  obtain ⟨c, v, hopen, hc⟩ := h.open hu
  refine ⟨c, v, hopen, fun name => mem_keys_of_over h.jmods hc, fun name m => get?_of_over hc, ?_⟩
  intro fs' es' u' stem h' hu' hkept
  obtain ⟨c', v', hopen', hc'⟩ := h'.open hu'
  refine ⟨⟨c', v', hopen'⟩, agreeBut_of_agree hopen hopen' ?_⟩
  intro name hne
  exact get?_kept h h' hc hc' hkept hne

/-! ## An archive beside another one -/

/-- A file system with an image that has a directory `jmods` with these entries. -/
def jmodsFiles (es : List (String × Node)) : FileSystem :=
  ⟨.directory [("i", .directory [("jmods", .directory es)])], [], []⟩

/-- An archive. -/
def storedFile : Node := .file (Archive.ZipWriter.write storedItems) false

section
variable {es rest : List (String × Node)} {file name : String} {n : Node}

theorem node?_jmodsFiles (es : List (String × Node)) :
    (∃ entries, (jmodsFiles es).node? "/i" = .ok (.directory entries)) ∧
      (jmodsFiles es).node? (Path.join "/i" "jmods") = .ok (.directory es) := by
  have hroot : (jmodsFiles es).node? "/i" = .ok (.directory _) :=
    FileSystem.node?_child (FileSystem.node?_root _) (by decide : Path.join "/" "i" = "/i")
      (by decide) rfl nofun (by decide)
  exact ⟨⟨_, hroot⟩, FileSystem.node?_join hroot (by decide) rfl nofun (by decide)⟩

theorem jmodsRoot_jmodsFiles (htidy : tidy es) : JmodsRoot (jmodsFiles es) "/i" es := by
  obtain ⟨⟨entries, hroot⟩, hjmods⟩ := node?_jmodsFiles es
  refine ⟨?_, isDirectory_of_node? hroot, hjmods⟩
  simp only [FileSystem.Tidy, jmodsFiles, tidyNode, tidy, htidy]
  decide

theorem opens_stored (hchild : "y.jmod" ∈ es.map (·.1))
    (hnode : (jmodsFiles es).node? (Path.join (Path.join "/i" "jmods") "y.jmod") = .ok storedFile) :
    ∃ zip, Opens (jmodsFiles es) (Path.join "/i" "jmods") "y.jmod" "y" zip := by
  obtain ⟨file, -, hzip⟩ := archive?_eq hnode directory_stored
  refine ⟨⟨file, storedEntries⟩, ⟨⟨es, (node?_jmodsFiles es).2, hchild⟩, ?_, by decide⟩, by decide,
    hzip⟩
  rw [FileSystem.isFile, hnode]
  rfl

/-- The files of other stems are not the first one. -/
theorem lookup_beside (hstem : Path.stem? (Path.join (Path.join "/i" "jmods") file) = some name)
    (hne : name ≠ "x") : List.lookup file (("x.jmod", n) :: rest) = rest.lookup file := by
  have hfile : file ≠ "x.jmod" := by
    rintro rfl
    rw [(by decide : Path.stem? (Path.join (Path.join "/i" "jmods") "x.jmod") = some "x")] at hstem
    exact hne (Option.some.inj hstem).symm
  rw [List.lookup_cons, beq_false_of_ne hfile]

/-- A link beside an archive leads to it, or nowhere without it. -/
theorem resolve_linked (hlink : es.lookup "y.jmod" = some (.link "x.jmod")) :
    (jmodsFiles es).resolve true (Path.join (Path.join "/i" "jmods") "y.jmod") =
      FileSystem.resolveFrom (jmodsFiles es).root true 39 ["i", "jmods"] ["x.jmod"] := by
  have hsegments : Text.segments (Path.join (Path.join "/i" "jmods") "y.jmod") =
      ["", "i", "jmods", "y.jmod"] := by decide
  have htarget : Text.segments "x.jmod" = ["x.jmod"] := by decide
  have hbudget : FileSystem.linkBudget = 39 + 1 := rfl
  have hat : (jmodsFiles es).root.at? ["i", "jmods", "y.jmod"] = some (.link "x.jmod") := by
    simp [jmodsFiles, Node.at?, Node.entries, hlink]
  rw [FileSystem.resolve_eq (by decide) (by decide) (by decide), hsegments, hbudget,
    FileSystem.resolveFrom_same (.inl rfl),
    FileSystem.resolveFrom_directory (by decide) (by decide) rfl,
    FileSystem.resolveFrom_directory (by decide) (by decide) rfl,
    FileSystem.resolveFrom_link (by decide) (by decide) hat, htarget]
  rfl

end

/-- With one archive broken, the other one is there as before. -/
theorem archives_apart_broken :
    let es := [("x.jmod", storedFile), ("y.jmod", storedFile)]
    let es' := [("x.jmod", .file [] false), ("y.jmod", storedFile)]
    JmodsRoot (jmodsFiles es) "/i" es ∧ UpToDate (jmodsFiles es) "/i" (.new "/i") ∧
      JmodsRoot (jmodsFiles es') "/i" es' ∧ UpToDate (jmodsFiles es') "/i" (.new "/i") ∧
      OthersKept (jmodsFiles es) (jmodsFiles es') (Path.join "/i" "jmods") es es' "x" ∧
      (∃ c v, openContents.run.on (jmodsFiles es) ⟨.new "/i", []⟩ = (.ok c, v) ∧
        "y" ∈ c.modules.keys) ∧
      AgreeBut "x" (jmodsFiles es) ⟨.new "/i", []⟩ (jmodsFiles es') ⟨.new "/i", []⟩ := by
  intro es es'
  have htidy : tidy es := by
    simp only [es, storedFile, tidy]
    decide
  have htidy' : tidy es' := by
    simp only [es', storedFile, tidy]
    decide
  have hroot := jmodsRoot_jmodsFiles htidy
  have hroot' := jmodsRoot_jmodsFiles htidy'
  have hcurrent : UpToDate (jmodsFiles es) "/i" (.new "/i") := .new _ _
  have hcurrent' : UpToDate (jmodsFiles es') "/i" (.new "/i") := .new _ _
  have hkept : OthersKept (jmodsFiles es) (jmodsFiles es') (Path.join "/i" "jmods") es es' "x" := by
    intro file name hending hstem hne
    have hrest : es.lookup file = [("y.jmod", storedFile)].lookup file := lookup_beside hstem hne
    have hrest' : es'.lookup file = [("y.jmod", storedFile)].lookup file := lookup_beside hstem hne
    refine ⟨hrest'.trans hrest.symm, ?_⟩
    intro target htarget
    rw [hrest, List.lookup_cons] at htarget
    split at htarget <;> cases htarget
  have hnode : (jmodsFiles es).node? (Path.join (Path.join "/i" "jmods") "y.jmod") = .ok storedFile :=
    FileSystem.node?_join hroot.jmods (by decide) rfl (file_ne_link _ false) (by decide)
  obtain ⟨zip, hopens⟩ := opens_stored (by decide) hnode
  obtain ⟨c, v, hopen, hkeys, -, hothers⟩ := archives_apart (u := ⟨.new "/i", []⟩) hroot hcurrent
  obtain ⟨-, hagree⟩ := hothers _ _ ⟨.new "/i", []⟩ "x" hroot' hcurrent' hkept
  exact ⟨hroot, hcurrent, hroot', hcurrent', hkept,
    ⟨c, v, hopen, (hkeys "y").2 ⟨_, _, hopens⟩⟩, hagree⟩

/-- **An archive that is a link goes with the file that it leads to.** Without that file there is
    neither module, though the one entry alone is gone. -/
theorem linked_archive_lost :
    let both := [("x.jmod", storedFile), ("y.jmod", Node.link "x.jmod")]
    let left := [("y.jmod", Node.link "x.jmod")]
    JmodsRoot (jmodsFiles both) "/i" both ∧ JmodsRoot (jmodsFiles left) "/i" left ∧
      (∀ file name, Path.stem? (Path.join (Path.join "/i" "jmods") file) = some name →
        name ≠ "x" → left.lookup file = both.lookup file) ∧
      (∃ names, (moduleNames.run.on (jmodsFiles both) ⟨.new "/i", []⟩).1 = .ok names ∧
        "y" ∈ names) ∧
      ∃ names, (moduleNames.run.on (jmodsFiles left) ⟨.new "/i", []⟩).1 = .ok names ∧
        "y" ∉ names := by
  intro both left
  have htidy : tidy both := by
    simp only [both, storedFile, tidy]
    decide
  have htidy' : tidy left := by
    simp only [left, tidy]
    decide
  have hroot := jmodsRoot_jmodsFiles htidy
  have hroot' := jmodsRoot_jmodsFiles htidy'
  obtain ⟨c, v, hopen, hc⟩ := hroot.open (u := ⟨.new "/i", []⟩) (.new _ _)
  obtain ⟨c', v', hopen', hc'⟩ := hroot'.open (u := ⟨.new "/i", []⟩) (.new _ _)
  have hnode : (jmodsFiles both).node? (Path.join (Path.join "/i" "jmods") "y.jmod") =
      .ok storedFile := by
    have hat : (jmodsFiles both).root.at? ["i", "jmods", "x.jmod"] = some storedFile := rfl
    refine FileSystem.node?_eq_ok.2 ⟨["i", "jmods", "x.jmod"], ?_, hat⟩
    rw [resolve_linked rfl, FileSystem.resolveFrom_file (by decide) (by decide) hat]
    rfl
  obtain ⟨zip, hopens⟩ := opens_stored (by decide) hnode
  have hgone : (jmodsFiles left).isFile (Path.join (Path.join "/i" "jmods") "y.jmod") = false := by
    have hresolve : (jmodsFiles left).resolve true
        (Path.join (Path.join "/i" "jmods") "y.jmod") = .error .notFound := by
      rw [resolve_linked rfl, FileSystem.resolveFrom_none (by decide) (by decide) rfl]
      decide
    rw [FileSystem.isFile, FileSystem.node?, hresolve]
    rfl
  refine ⟨hroot, hroot', ?_, ⟨c.modules.keys, ?_, ?_⟩, c'.modules.keys, ?_, ?_⟩
  · intro file name hstem hne
    exact (lookup_beside hstem hne).symm
  · rw [on_moduleNames hopen]
  · exact (mem_keys_of_over hroot.jmods hc).2 ⟨_, _, hopens⟩
  · rw [on_moduleNames hopen']
  · intro hkey
    obtain ⟨file, zip, hfile⟩ := (mem_keys_of_over hroot'.jmods hc').1 hkey
    obtain rfl : file = "y.jmod" := by
      have hchild := (child_iff hroot'.jmods).1 hfile.child
      obtain ⟨e, he, rfl⟩ := mem_namesIn.1 hchild
      rw [List.mem_singleton.1 he]
    have hfound := hfile.isFile
    rw [hgone] at hfound
    cases hfound

end Image

end PlatformImage
