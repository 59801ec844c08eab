import Mathlib.Data.List.Sort
import PlatformImage.Proofs.Layouts
/-! What opening a root finds in each of the two layouts of the same modules: the same
modules by name, each the counterpart of the other (`ofRoot_counterparts`).

Either way the children of a directory are gone through in the order of their names, and
each adds a module under a name of its own. So it is known what is found under each name,
and that is all there is to know about a map. -/
namespace PlatformImage.Image

/-! ## One module for each child -/

theorem lookup_of_mem {β : Type} {es : List (String × β)} (hdistinct : (es.map (·.1)).Nodup)
    {name : String} {b : β} (h : (name, b) ∈ es) : es.lookup name = some b := by
  induction es with
  | nil => cases h
  | cons e es ih =>
    obtain ⟨k, a⟩ := e
    obtain ⟨hk, hes⟩ := List.nodup_cons.1 hdistinct
    rcases List.mem_cons.1 h with he | h
    · cases he
      exact List.lookup_cons_self
    · have hne : name ≠ k := fun he => hk (he ▸ List.mem_map.2 ⟨_, h, rfl⟩)
      rw [List.lookup_cons, beq_false_of_ne hne]
      exact ih hes h

section
variable {α : Type} {key : α → String} {val : α → Module} {xs : List α} {known : NameMap Module}

theorem get?_foldl_insert_of_ne {k : String} (h : ∀ x ∈ xs, key x ≠ k) :
    (xs.foldl (fun m x => m.insert (key x) (val x)) known).get? k = known.get? k := by
  induction xs generalizing known with
  | nil => rfl
  | cons x xs ih =>
    rw [List.foldl_cons, ih fun y hy => h y (List.mem_cons_of_mem x hy), NameMap.get?_insert,
      if_neg (h x List.mem_cons_self).symm]

theorem get?_foldl_insert {x : α} (hx : x ∈ xs) (honly : ∀ y ∈ xs, key y = key x → y = x) :
    (xs.foldl (fun m x => m.insert (key x) (val x)) known).get? (key x) = some (val x) := by
  induction xs generalizing known with
  | nil => cases hx
  | cons y xs ih =>
    rw [List.foldl_cons]
    by_cases hmem : x ∈ xs
    · exact ih hmem fun z hz => honly z (List.mem_cons_of_mem y hz)
    · obtain rfl := (List.mem_cons.1 hx).resolve_right hmem
      rw [get?_foldl_insert_of_ne, NameMap.get?_insert, if_pos rfl]
      intro z hz he
      exact hmem (honly z (List.mem_cons_of_mem x hz) he ▸ hz)

theorem foldl_step_eq {step : NameMap Module × List String → String → NameMap Module × List String}
    {path : α → String} {skipped : List String} (h : ∀ x ∈ xs, ∀ found, step found (path x) =
      (found.1.insert (key x) (val x), found.2)) :
    (xs.map path).foldl step (known, skipped) =
      (xs.foldl (fun m x => m.insert (key x) (val x)) known, skipped) := by
  induction xs generalizing known with
  | nil => rfl
  | cons x xs ih =>
    rw [List.map_cons, List.foldl_cons, h x List.mem_cons_self, List.foldl_cons]
    exact ih fun y hy => h y (List.mem_cons_of_mem x hy)

end

section
variable {fs : FileSystem} {base root : String} {ms : Sources} {es : List (String × Node)}

/-! ## Opening a root in each layout -/

/-- The names in a directory, in ascending order. -/
def namesIn (es : List (String × Node)) : List String :=
  (es.map (·.1)).mergeSort fun a b => decide (a ≤ b)

theorem mem_namesIn {name : String} : name ∈ namesIn es ↔ ∃ e ∈ es, e.1 = name := by
  rw [namesIn, (List.mergeSort_perm _ _).mem_iff, List.mem_map]

theorem children_eq (hbase : fs.node? base = .ok (.directory es)) :
    Contents.children fs base = .ok ((namesIn es).map (Path.join base)) := by
  have hlist : fs.listDirectory base = .ok (namesIn es) := by
    rw [FileSystem.listDirectory, hbase]
    rfl
  rw [Contents.children, hlist]

theorem isDirectory_of_node? (hbase : fs.node? base = .ok (.directory es)) :
    fs.isDirectory base = true := by
  rw [FileSystem.isDirectory, hbase]
  rfl

theorem isDirectory_iff :
    fs.isDirectory base = true ↔ ∃ es, fs.node? base = .ok (.directory es) := by
  refine ⟨fun h => ?_, fun ⟨es, hnode⟩ => isDirectory_of_node? hnode⟩
  unfold FileSystem.isDirectory at h
  cases hnode : fs.node? base with
  | error e =>
    rw [hnode] at h
    cases h
  | ok n =>
    rw [hnode] at h
    cases n with
    | directory es => exact ⟨es, rfl⟩
    | file content executable => cases h
    | link target => cases h

/-- The module that a directory is. -/
def directoryModule (fs : FileSystem) (path : String) : Module :=
  let entries := match fs.node? path with
    | .ok n => n.entries
    | .error _ => []
  ⟨.directory path, Module.scan fs path "" .root entries⟩

theorem directoryModule_eq (hbase : fs.node? base = .ok (.directory es)) :
    directoryModule fs base = ⟨.directory base, Module.scan fs base "" .root es⟩ := by
  rw [directoryModule, hbase]
  rfl

theorem addDirectory_join {name : String} (hname : Ordinary name)
    (hnode : fs.node? (Path.join base name) = .ok (.directory es))
    (hfits : Module.fits (Path.join base name) es) (found : NameMap Module × List String) :
    Contents.addDirectory fs found (Path.join base name) =
      (found.1.insert name (directoryModule fs (Path.join base name)), found.2) := by
  have hmodule : Module.ofDirectory? fs (Path.join base name) =
      some (directoryModule fs (Path.join base name)) := by
    rw [directoryModule_eq hnode, Module.ofDirectory?, hnode]
    exact if_pos hfits
  unfold Contents.addDirectory
  rw [Path.fileName?_join base hname]
  dsimp only
  rw [hmodule]

/-- A directory with one directory in it holds one module. -/
theorem ofDirectories_single {name : String} {inner : List (String × Node)}
    (hbase : fs.node? base = .ok (.directory [(name, .directory inner)])) (hname : Ordinary name)
    (hsize : (Path.join base name).utf8ByteSize ≤ FileSystem.maxPathSize)
    (hfits : Module.fits (Path.join base name) inner) :
    Contents.ofDirectories fs base = .ok ⟨⟨.exploded, NameMap.empty.insert name
      ⟨.directory (Path.join base name), Module.scan fs (Path.join base name) "" .root inner⟩⟩, []⟩ := by
  have hnode : fs.node? (Path.join base name) = .ok (.directory inner) :=
    FileSystem.node?_join hbase hname (by simp) nofun hsize
  have hpaths : ((namesIn [(name, Node.directory inner)]).map (Path.join base)).filter
      fs.isDirectory = [Path.join base name] := by
    have hnames : namesIn [(name, Node.directory inner)] = [name] := by simp [namesIn]
    rw [hnames]
    exact List.filter_cons_of_pos (isDirectory_of_node? hnode)
  rw [Contents.ofDirectories, children_eq hbase]
  change Except.ok _ = _
  rw [hpaths, List.foldl_cons, List.foldl_nil, addDirectory_join hname hnode hfits,
    directoryModule_eq hnode]

/-- What opening a root as directories finds. -/
theorem ofRoot_exploded (hms : ms.Plain) (h : Exploded fs root ms) :
    ∃ c, Contents.ofRoot fs root = .ok ⟨c, []⟩ ∧
      (∀ k, (∀ m ∈ ms, m.1 ≠ k) → c.modules.get? k = none) ∧
      ∀ m ∈ ms, ∃ path, fs.node? path = .ok (.directory m.2) ∧ Module.fits path m.2 ∧
        c.modules.get? m.1 = some ⟨.directory path, Module.scan fs path "" .root m.2⟩ := by
  obtain ⟨es, hbase, hperm, hfits⟩ := h.modules
  generalize hb : Path.join root "modules" = base at hbase hfits
  have hdistinct : (es.map (·.1)).Nodup := by
    rw [(hperm.map (·.1)).nodup_iff, List.map_map]
    exact hms.distinct
  -- Each module is a directory under its own name.
  have hfound : ∀ m ∈ ms, fs.node? (Path.join base m.1) = .ok (.directory m.2) ∧
      Module.fits (Path.join base m.1) m.2 := by
    intro m hm
    have hmem : (m.1, .directory m.2) ∈ es := hperm.mem_iff.2 (List.mem_map.2 ⟨m, hm, rfl⟩)
    obtain ⟨hsize, hinside⟩ := fits_of_mem hfits hmem
    exact ⟨FileSystem.node?_join hbase (hms.ordinary m hm) (lookup_of_mem hdistinct hmem) nofun hsize,
      hinside m.2 rfl⟩
  have hnames {name : String} : name ∈ namesIn es ↔ ∃ m ∈ ms, m.1 = name := by
    simp [mem_namesIn, hperm.mem_iff]
  have hdirectories : ((namesIn es).map (Path.join base)).filter fs.isDirectory =
      (namesIn es).map (Path.join base) := by
    refine List.filter_eq_self.2 fun path hpath => ?_
    obtain ⟨name, hname, rfl⟩ := List.mem_map.1 hpath
    obtain ⟨m, hm, rfl⟩ := hnames.1 hname
    exact isDirectory_of_node? (hfound m hm).1
  let known : NameMap Module := (namesIn es).foldl
    (fun known name => known.insert name (directoryModule fs (Path.join base name))) .empty
  have hfold : ((namesIn es).map (Path.join base)).foldl (Contents.addDirectory fs) (.empty, []) =
      (known, []) := by
    refine foldl_step_eq fun name hname found => ?_
    obtain ⟨m, hm, rfl⟩ := hnames.1 hname
    exact addDirectory_join (hms.ordinary m hm) (hfound m hm).1 (hfound m hm).2 found
  refine ⟨⟨.exploded, known⟩, ?_, ?_, ?_⟩
  · have hopen : Contents.ofRoot fs root = Contents.ofDirectories fs base := by
      unfold Contents.ofRoot
      simp only [h.isDirectory, h.noArchives, hb, isDirectory_of_node? hbase]
      rfl
    rw [hopen, Contents.ofDirectories, children_eq hbase]
    change Except.ok _ = _
    rw [hdirectories, hfold]
  · intro k hk
    refine (get?_foldl_insert_of_ne fun name hname he => ?_).trans (NameMap.get?_empty k)
    obtain ⟨m, hm, rfl⟩ := hnames.1 hname
    exact hk m hm he
  · intro m hm
    refine ⟨Path.join base m.1, (hfound m hm).1, (hfound m hm).2, ?_⟩
    rw [← directoryModule_eq (hfound m hm).1]
    exact get?_foldl_insert (hnames.2 ⟨m, hm, rfl⟩) fun _ _ he => he

/-- What opening a root with the directory of one module finds. -/
theorem ofRoot_single {name : String} {entries : List (String × Node)}
    (hms : Sources.Plain [(name, entries)]) (h : Exploded fs root [(name, entries)]) :
    ∃ c path, Contents.ofRoot fs root = .ok ⟨c, []⟩ ∧ c.modules =
        NameMap.empty.insert name ⟨.directory path, Module.scan fs path "" .root entries⟩ ∧
      fs.node? path = .ok (.directory entries) ∧ Module.fits path entries := by
  obtain ⟨c, hc, hnone, hsome⟩ := ofRoot_exploded hms h
  obtain ⟨path, hnode, hfits, hget⟩ := hsome _ List.mem_cons_self
  refine ⟨c, path, hc, NameMap.ext_get? fun k => ?_, hnode, hfits⟩
  rw [NameMap.get?_insert]
  split
  · next hk => rw [hk, hget]
  · next hk => exact hnone k (by simpa using Ne.symm hk)

theorem archive?_eq_some {path : String} {zip : Archive.Zip} :
    Contents.archive? fs path = some zip ↔
      fs.openFile path = .ok zip.file ∧
        Archive.Entry.directory (fs.held zip.file) = .ok zip.entries := by
  unfold Contents.archive?
  cases fs.openFile path with
  | error e => simp
  | ok file =>
    have hzip : (Archive.Zip.ofFile fs file).toOption = some zip ↔
        Archive.Zip.ofFile fs file = .ok zip := by
      cases Archive.Zip.ofFile fs file <;> simp [Except.toOption]
    rw [hzip, Archive.Zip.ofFile_eq_ok, Except.ok.injEq]
    constructor
    · rintro ⟨rfl, hentries⟩
      exact ⟨rfl, hentries⟩
    · rintro ⟨rfl, hentries⟩
      exact ⟨rfl, hentries⟩

/-- A file that holds an archive is opened as one. -/
theorem archive?_eq {bytes : Bytes} {executable : Bool} {stored : List Archive.Entry}
    (hnode : fs.node? base = .ok (.file bytes executable))
    (hstored : Archive.Entry.directory bytes = .ok stored) :
    ∃ file, fs.held file = bytes ∧ Contents.archive? fs base = some ⟨file, stored⟩ := by
  obtain ⟨file, hopen, rfl⟩ := FileSystem.openFile_of_node? hnode
  exact ⟨file, rfl, archive?_eq_some.2 ⟨hopen, hstored⟩⟩

/-- A directory with one archive in it holds one module. -/
theorem ofArchives_single {name : String} {bytes : Bytes} {zip : Archive.Zip}
    (hbase : fs.node? base = .ok (.directory [(archiveName name, .file bytes false)]))
    (hname : Ordinary name)
    (hsize : (Path.join base (archiveName name)).utf8ByteSize ≤ FileSystem.maxPathSize)
    (hzip : Contents.archive? fs (Path.join base (archiveName name)) = some zip) :
    Contents.ofArchives fs base = .ok ⟨⟨.jmods, NameMap.empty.insert name
      (.ofArchive (Path.join base (archiveName name)) zip)⟩, []⟩ := by
  have hnode : fs.node? (Path.join base (archiveName name)) = .ok (.file bytes false) :=
    FileSystem.node?_join hbase (ordinary_archiveName hname) (by simp) nofun hsize
  have hpaths : ((namesIn [(archiveName name, Node.file bytes false)]).map (Path.join base)).filter
      (fun p => fs.isFile p && isJmod p) = [Path.join base (archiveName name)] := by
    have hnames : namesIn [(archiveName name, Node.file bytes false)] = [archiveName name] := by
      simp [namesIn]
    rw [hnames]
    refine List.filter_cons_of_pos ?_
    rw [isJmod_archive base hname, FileSystem.isFile, hnode]
    rfl
  have hadd (found : NameMap Module × List String) :
      Contents.addArchive fs found (Path.join base (archiveName name)) =
        (found.1.insert name (.ofArchive (Path.join base (archiveName name)) zip), found.2) := by
    unfold Contents.addArchive
    simp only [stem?_archive base hname, hzip]
  rw [Contents.ofArchives, children_eq hbase]
  change Except.ok _ = _
  rw [hpaths, List.foldl_cons, List.foldl_nil, hadd]

/-- A file system with an image that has a single archive. -/
def oneArchive (bytes : Bytes) : FileSystem :=
  ⟨.directory [("i", .directory [("jmods", .directory [(archiveName "m", .file bytes false)])])], [],
    []⟩

/-- The contents of the image. -/
def oneModule (zip : Archive.Zip) : Contents :=
  ⟨.jmods, NameMap.empty.insert "m" (.ofArchive "/i/jmods/m.jmod" zip)⟩

/-- The image opens if the archive does. -/
theorem opens_oneArchive {bytes : Bytes} {stored : List Archive.Entry}
    (hstored : Archive.Entry.directory bytes = .ok stored) :
    ∃ file, (oneArchive bytes).held file = bytes ∧
      Contents.archive? (oneArchive bytes) "/i/jmods/m.jmod" = some ⟨file, stored⟩ ∧
      Contents.ofRoot (oneArchive bytes) "/i" = .ok ⟨oneModule ⟨file, stored⟩, []⟩ := by
  have hjmod : Path.join "/i/jmods" (archiveName "m") = "/i/jmods/m.jmod" := by decide
  have hjmods : Path.join "/i" "jmods" = "/i/jmods" := by decide
  have hroot : (oneArchive bytes).node? "/i" = .ok (.directory _) :=
    FileSystem.node?_child (FileSystem.node?_root _) (by decide : Path.join "/" "i" = "/i")
      (by decide) rfl nofun (by decide)
  have hbase : (oneArchive bytes).node? "/i/jmods" = .ok (.directory _) :=
    FileSystem.node?_child hroot hjmods (by decide) rfl nofun (by decide)
  have hfile : (oneArchive bytes).node? "/i/jmods/m.jmod" = .ok (.file bytes false) :=
    FileSystem.node?_child hbase hjmod (by decide) rfl nofun (by decide)
  obtain ⟨file, hheld, hzip⟩ := archive?_eq hfile hstored
  have hsingle := ofArchives_single hbase (by decide) (by decide) (hjmod.symm ▸ hzip)
  rw [hjmod] at hsingle
  refine ⟨file, hheld, hzip, ?_⟩
  unfold Contents.ofRoot
  simp only [hjmods, isDirectory_of_node? hroot, isDirectory_of_node? hbase]
  exact hsingle

/-- What opening a root as archives finds. -/
theorem ofRoot_archived (hms : ms.Plain) (h : Archived fs root ms) :
    ∃ c, Contents.ofRoot fs root = .ok ⟨c, []⟩ ∧
      (∀ k, (∀ m ∈ ms, m.1 ≠ k) → c.modules.get? k = none) ∧
      ∀ m ∈ ms, ∃ archive zip, Stores (fs.held zip.file) zip.entries (archiveItems m.2) ∧
        c.modules.get? m.1 = some (.ofArchive archive zip) := by
  obtain ⟨es, hbase, hperm, hfiles, hfits⟩ := h.archives
  generalize hb : Path.join root "jmods" = base at hbase hfits
  have hdistinct : (es.map (·.1)).Nodup := by
    -- The files go by different names because the modules do.
    have hinjective : Function.Injective archiveName := fun a b he => (String.append_left_inj _).1 he
    have hmap : (ms.map fun m => archiveName m.1) = (ms.map (·.1)).map archiveName := by
      rw [List.map_map]
      rfl
    rw [hperm.nodup_iff, hmap]
    exact List.Nodup.map hinjective hms.distinct
  have hfound : ∀ m ∈ ms, ∃ zip, fs.isFile (Path.join base (archiveName m.1)) = true ∧
      Contents.archive? fs (Path.join base (archiveName m.1)) = some zip ∧
        Stores (fs.held zip.file) zip.entries (archiveItems m.2) := by
    intro m hm
    obtain ⟨_, hmem, bytes, executable, stored, rfl, hstored, hstores⟩ := hfiles m hm
    have hname := ordinary_archiveName (hms.ordinary m hm)
    have hnode := FileSystem.node?_join hbase hname (lookup_of_mem hdistinct hmem) nofun
      (fits_of_mem hfits hmem).1
    obtain ⟨file, rfl, hzip⟩ := archive?_eq hnode hstored
    exact ⟨_, by rw [FileSystem.isFile, hnode]; rfl, hzip, hstores⟩
  have hnames {file : String} : file ∈ namesIn es ↔ ∃ m ∈ ms, archiveName m.1 = file := by
    rw [namesIn, (List.mergeSort_perm _ _).mem_iff, hperm.mem_iff, List.mem_map]
  have harchives : ((namesIn es).map (Path.join base)).filter (fun p => fs.isFile p && isJmod p) =
      (namesIn es).map (Path.join base) := by
    refine List.filter_eq_self.2 fun path hpath => ?_
    obtain ⟨file, hfile, rfl⟩ := List.mem_map.1 hpath
    obtain ⟨m, hm, rfl⟩ := hnames.1 hfile
    obtain ⟨zip, hfile, -, -⟩ := hfound m hm
    rw [isJmod_archive base (hms.ordinary m hm), hfile]
    rfl
  let val (file : String) : Module :=
    .ofArchive (Path.join base file) ((Contents.archive? fs (Path.join base file)).getD ⟨⟨[], 0⟩, []⟩)
  let known : NameMap Module := (namesIn es).foldl
    (fun known file => known.insert (Path.splitName file).1 (val file)) .empty
  have hkey : ∀ m ∈ ms, (Path.splitName (archiveName m.1)).1 = m.1 := fun m hm => by
    rw [splitName_archiveName (hms.ordinary m hm)]
  have hfold : ((namesIn es).map (Path.join base)).foldl (Contents.addArchive fs) (.empty, []) =
      (known, []) := by
    refine foldl_step_eq fun file hfile found => ?_
    obtain ⟨m, hm, rfl⟩ := hnames.1 hfile
    obtain ⟨zip, -, hzip, -⟩ := hfound m hm
    unfold Contents.addArchive
    simp only [stem?_archive base (hms.ordinary m hm), hzip, val, hkey m hm, Option.getD_some]
  refine ⟨⟨.jmods, known⟩, ?_, ?_, ?_⟩
  · have hopen : Contents.ofRoot fs root = Contents.ofArchives fs base := by
      unfold Contents.ofRoot
      simp only [h.isDirectory, hb, isDirectory_of_node? hbase]
      rfl
    rw [hopen, Contents.ofArchives, children_eq hbase]
    change Except.ok _ = _
    rw [harchives, hfold]
  · intro k hk
    refine (get?_foldl_insert_of_ne fun file hfile he => ?_).trans (NameMap.get?_empty k)
    obtain ⟨m, hm, rfl⟩ := hnames.1 hfile
    exact hk m hm (by rw [← he, hkey m hm])
  · intro m hm
    obtain ⟨zip, -, hzip, hstores⟩ := hfound m hm
    refine ⟨Path.join base (archiveName m.1), zip, hstores, ?_⟩
    have hget : known.get? (Path.splitName (archiveName m.1)).1 = some (val (archiveName m.1)) := by
      refine get?_foldl_insert (hnames.2 ⟨m, hm, rfl⟩) fun file hfile he => ?_
      obtain ⟨m', hm', rfl⟩ := hnames.1 hfile
      rw [hkey m hm, hkey m' hm'] at he
      rw [he]
    rw [hkey m hm] at hget
    rw [hget]
    simp only [val, hzip, Option.getD_some]

end

/-! ## Both contents, side by side -/

/-- Maps that relate what they have under each name have it in the same places. -/
theorem forall₂_entries {β γ : Type} {R : β → γ → Prop} {m : NameMap β} {n : NameMap γ}
    (h : ∀ k, Option.Rel R (m.get? k) (n.get? k)) :
    List.Forall₂ (fun a b => a.1 = b.1 ∧ R a.2 b.2) m.entries n.entries := by
  have hmem (k : String) : k ∈ m.keys ↔ k ∈ n.keys := by
    rw [NameMap.mem_keys_iff, NameMap.mem_keys_iff]
    have hk := h k
    cases hm : m.get? k <;> cases hn : n.get? k <;> rw [hm, hn] at hk
    · simp
    · cases hk
    · cases hk
    · simp
  -- Both lists of keys are ascending and have the same members.
  have hkeys : m.keys = n.keys := m.ascending.eq_of_mem_iff n.ascending hmem
  have hnames : List.Forall₂ (fun a b => a.1 = b.1) m.entries n.entries := by
    have heq : List.Forall₂ (· = ·) (m.entries.map (·.1)) (n.entries.map (·.1)) := by
      rw [List.forall₂_eq_eq_eq]
      exact hkeys
    exact List.forall₂_map_right_iff.1 (List.forall₂_map_left_iff.1 heq)
  refine List.forall₂_iff_zip.2 ⟨hnames.length_eq, fun {a b} hab => ?_⟩
  have hname := List.forall₂_zip hnames hab
  obtain ⟨ha, hb⟩ := List.of_mem_zip hab
  have hrel := h a.1
  rw [NameMap.mem_entries_iff.1 ha] at hrel
  rw [hname, NameMap.mem_entries_iff.1 hb] at hrel
  cases hrel with
  | some hr => exact ⟨hname, hr⟩

/-- The contents of the same modules in two layouts. -/
def Contents.Counterparts (fs : FileSystem) (c d : Contents) : Prop :=
  List.Forall₂ (fun a b => a.1 = b.1 ∧ Counterpart fs a.2 b.2) c.modules.entries d.modules.entries

/-- Both layouts open, and find the same modules: all of them. -/
theorem ofRoot_counterparts {fs : FileSystem} {exploded archived : String} {ms : Sources}
    (hms : ms.Plain) (hexploded : Exploded fs exploded ms) (harchived : Archived fs archived ms) :
    ∃ c d, Contents.ofRoot fs exploded = .ok ⟨c, []⟩ ∧ Contents.ofRoot fs archived = .ok ⟨d, []⟩ ∧
      c.Counterparts fs d ∧ c.modules.keys.Perm (ms.map (·.1)) := by
  obtain ⟨c, hc, hcnone, hcsome⟩ := ofRoot_exploded hms hexploded
  obtain ⟨d, hd, hdnone, hdsome⟩ := ofRoot_archived hms harchived
  have hkeys : c.modules.keys.Perm (ms.map (·.1)) := by
    have hnodup : c.modules.keys.Nodup := c.modules.ascending.imp String.ne_of_lt
    refine (List.perm_ext_iff_of_nodup hnodup hms.distinct).2 fun k => ?_
    rw [NameMap.mem_keys_iff, List.mem_map]
    constructor
    · rintro ⟨m, hm⟩
      by_contra hnot
      rw [hcnone k fun m hm he => hnot ⟨m, hm, he⟩] at hm
      cases hm
    · rintro ⟨m, hm, rfl⟩
      obtain ⟨path, -, -, hget⟩ := hcsome m hm
      exact ⟨_, hget⟩
  refine ⟨c, d, hc, hd, forall₂_entries fun k => ?_, hkeys⟩
  by_cases hk : ∃ m ∈ ms, m.1 = k
  · obtain ⟨m, hm, rfl⟩ := hk
    obtain ⟨path, hnode, hfits, hget⟩ := hcsome m hm
    obtain ⟨archive, zip, hstores, hget'⟩ := hdsome m hm
    rw [hget, hget']
    exact .some (counterpart hnode (hms.inside m hm) hfits hstores)
  · have hnone : ∀ m ∈ ms, m.1 ≠ k := fun m hm he => hk ⟨m, hm, he⟩
    rw [hcnone k hnone, hdnone k hnone]
    exact .none

/-! ## A module with a file in a folder, in both layouts -/

/-- What is in the module. -/
def inFolder : List (String × Node) := [("a", .directory [("B", .file [1] false)])]

/-- What the archive of the module stores. -/
def storedItems : List Archive.ZipWriter.Item := [⟨"classes/a/", []⟩, ⟨"classes/a/B", [1]⟩]

/-- A file system with both layouts of the module, under a root each. -/
def bothLayouts : FileSystem :=
  let exploded := [("modules", Node.directory [("m", .directory inFolder)])]
  let archived := [("jmods", Node.directory
    [("m.jmod", .file (Archive.ZipWriter.write storedItems) false)])]
  ⟨.directory [("exploded", .directory exploded), ("archived", .directory archived)], [], []⟩

theorem archiveItems_inFolder : archiveItems inFolder = storedItems := by
  simp [archiveItems, inFolder, storedItems, listing, entryName, classesFolder]

/-- What the directory of an archive is read as that can be read. -/
theorem directory_eq_of_isSome {bytes : Bytes}
    (h : (Archive.Entry.directory bytes).toOption.isSome) :
    Archive.Entry.directory bytes = .ok ((Archive.Entry.directory bytes).toOption.getD []) := by
  cases hentries : Archive.Entry.directory bytes with
  | ok entries => rfl
  | error e =>
    rw [hentries] at h
    cases h

/-- The entries of the archive. -/
def storedEntries : List Archive.Entry :=
  (Archive.Entry.directory (Archive.ZipWriter.write storedItems)).toOption.getD []

theorem directory_stored :
    Archive.Entry.directory (Archive.ZipWriter.write storedItems) = .ok storedEntries :=
  directory_eq_of_isSome (by decide +kernel)

/-- What is read back under a name. -/
def readBack (bytes : Bytes) (entries : List Archive.Entry) (name : String) : Option Bytes := do
  ((← Archive.Entry.named? entries name).content bytes).toOption

theorem readBack_eq_some {bytes : Bytes} {entries : List Archive.Entry} {name : String}
    {content : Bytes} : readBack bytes entries name = some content ↔
      ∃ e, Archive.Entry.named? entries name = some e ∧ e.content bytes = .ok content := by
  unfold readBack
  cases Archive.Entry.named? entries name with
  | none => simp
  | some e => cases hcontent : e.content bytes <;> simp [hcontent, Except.toOption]

theorem stores_storedItems :
    Stores (Archive.ZipWriter.write storedItems) storedEntries storedItems := by
  have hnames : storedEntries.map (·.name) = storedItems.map (·.name) := by decide +kernel
  have hread : ∀ i ∈ storedItems, readBack (Archive.ZipWriter.write storedItems) storedEntries
      i.name = some i.content := by decide +kernel
  refine ⟨fun name => ?_, fun i hi => readBack_eq_some.1 (hread i hi)⟩
  rw [← List.mem_map, ← List.mem_map, hnames]

theorem exploded_bothLayouts : Exploded bothLayouts "/exploded" [("m", inFolder)] := by
  have hroot : bothLayouts.node? (Path.join "/" "exploded") = .ok (.directory _) :=
    FileSystem.node?_join (FileSystem.node?_root bothLayouts) (by decide) rfl nofun (by decide)
  have hjoin : Path.join "/" "exploded" = "/exploded" := by decide
  rw [hjoin] at hroot
  refine ⟨isDirectory_of_node? hroot, FileSystem.isDirectory_join_of_none hroot (by decide) rfl,
    _, FileSystem.node?_join hroot (by decide) rfl nofun (by decide), .refl _, ?_⟩
  simp only [inFolder, Module.fits.eq_def]
  decide

theorem archived_bothLayouts : Archived bothLayouts "/archived" [("m", inFolder)] := by
  have hroot : bothLayouts.node? (Path.join "/" "archived") = .ok (.directory _) :=
    FileSystem.node?_join (FileSystem.node?_root bothLayouts) (by decide) rfl nofun (by decide)
  have hjoin : Path.join "/" "archived" = "/archived" := by decide
  rw [hjoin] at hroot
  refine ⟨isDirectory_of_node? hroot,
    _, FileSystem.node?_join hroot (by decide) rfl nofun (by decide), .refl _, ?_, ?_⟩
  · intro m hm
    obtain rfl := List.mem_singleton.1 hm
    refine ⟨_, List.mem_singleton.2 rfl, _, _, storedEntries, rfl, directory_stored, ?_⟩
    rw [archiveItems_inFolder]
    exact stores_storedItems
  · simp only [Module.fits.eq_def]
    decide

end PlatformImage.Image
