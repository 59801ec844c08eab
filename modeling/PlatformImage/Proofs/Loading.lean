import PlatformImage.Proofs.Opening
import PlatformImage.Proofs.Requests
/-! What a load of an entry makes of its register.

What a scan finds depends on the contents that are open, and on the files as they are now
(`scanned_eq`), and what is registered then on nothing else (`on_loadModules_fst`). So after a reload
an entry serves the modules whose descriptors can be read now, of those that were there when the
image was opened; and if none can be read, it serves what it did before
(`serves_reload`). -/
namespace PlatformImage

open ClassFile (ModuleDescriptor)

namespace Registry

theorem Index.contains_add (m : Index) (d : ModuleDescriptor) (name : String) :
    (m.add d).contains name = (name == d.name || m.contains name) :=
  NameMap.contains_alter m d.name name _

/-- Descriptors are served under the names that they declare. -/
theorem Index.contains_ofList {ds : List ModuleDescriptor} {name : String} :
    (Index.ofList ds).contains name ↔ ∃ d ∈ ds, d.name = name := by
  have hfoldl (m : Index) :
      (ds.foldl Index.add m).contains name ↔ (∃ d ∈ ds, d.name = name) ∨ m.contains name := by
    induction ds generalizing m with
    | nil => simp
    | cons d ds ih =>
      rw [List.foldl_cons, ih, Index.contains_add]
      simp only [List.mem_cons, exists_eq_or_imp, Bool.or_eq_true, beq_iff_eq, eq_comm (b := d.name)]
      rw [or_left_comm, or_assoc]
  rw [Index.ofList, hfoldl]
  simp

end Registry

namespace Image

variable {fs : FileSystem}

/-- A module of the contents has a descriptor that can be read, and that declares the name. -/
def Contents.Declares (fs : FileSystem) (c : Contents) (name : String) : Prop :=
  ∃ key m content d, c.modules.get? key = some m ∧ m.read fs descriptorFile = .ok (some content) ∧
    ModuleDescriptor.parse content = .ok d ∧ d.name = name

/-- What a scan of an image finds, if it ends: what the open contents have, or else those that are
    found at the root. -/
def scanned (fs : FileSystem) (i : Image) : Except Error (List ModuleDescriptor) :=
  match i.contents, Contents.ofRoot fs i.root with
  | some c, _ => c.scanned fs
  | none, .ok found => found.contents.scanned fs
  | none, .error _ => .ok []

/-- What a scan of an image leaves to be registered. -/
def declared (fs : FileSystem) (i : Image) : List ModuleDescriptor :=
  (i.scanned fs).toOption.getD []

theorem Module.descriptor?_eq_some {m : Module} {d : ModuleDescriptor} :
    m.descriptor? fs = some d ↔ ∃ content, m.read fs descriptorFile = .ok (some content) ∧
      ModuleDescriptor.parse content = .ok d := by
  unfold descriptor?
  rcases m.read fs descriptorFile with e | _ | content
  · simp
  · simp
  · cases hparse : ModuleDescriptor.parse content <;> simp [Except.toOption, hparse]

theorem Contents.declares_iff {c : Contents} {name : String} :
    c.Declares fs name ↔ ∃ d ∈ c.descriptors fs, d.name = name := by
  simp only [Declares, descriptors, List.mem_filterMap, Module.descriptor?_eq_some, Prod.exists,
    NameMap.mem_entries_iff]
  constructor
  · rintro ⟨key, m, content, d, hm, hread, hparse, hname⟩
    exact ⟨d, ⟨key, m, hm, content, hread, hparse⟩, hname⟩
  · rintro ⟨d, ⟨key, m, hm, content, hread, hparse⟩, hname⟩
    exact ⟨key, m, content, d, hm, hread, hparse, hname⟩

/-- Of a single module nothing is declared but what its descriptor does. -/
theorem Contents.declares_single {layout : Layout} {key name : String} {m : Module} :
    Contents.Declares fs ⟨layout, NameMap.empty.insert key m⟩ name ↔ ∃ content d,
      m.read fs descriptorFile = .ok (some content) ∧ ModuleDescriptor.parse content = .ok d ∧
        d.name = name := by
  constructor
  · rintro ⟨k, m', content, d, hget, hread, hparse, hname⟩
    rw [NameMap.get?_insert] at hget
    split at hget
    · cases hget
      exact ⟨content, d, hread, hparse, hname⟩
    · cases hget
  · rintro ⟨content, d, hread, hparse, hname⟩
    exact ⟨key, m, content, d, by rw [NameMap.get?_insert, if_pos rfl], hread, hparse, hname⟩

/-- A file right inside the directory of a module is read. -/
theorem read_join {path name : String} {es : List (String × Node)} {content : Bytes}
    {executable : Bool} (hnode : fs.node? path = .ok (.directory es)) (hname : Ordinary name)
    (hfile : es.lookup name = some (.file content executable))
    (hsize : (Path.join path name).utf8ByteSize ≤ FileSystem.maxPathSize) (tree : Tree) :
    Module.read fs ⟨.directory path, tree⟩ name = .ok (some content) := by
  have hfound := FileSystem.node?_join hnode hname hfile nofun hsize
  unfold Module.read FileSystem.isFile FileSystem.readFile
  simp only [hfound, Node.isFile, if_true]

/-- A scan fails only where the program ends. -/
theorem isFatal_of_scanned {i : Image} {e : Error} (h : i.scanned fs = .error e) :
    e.isFatal := by
  unfold scanned at h
  split at h
  · exact Contents.isFatal_of_scanned h
  · exact Contents.isFatal_of_scanned h
  · cases h

theorem declared_of_scanned {i : Image} {ds : List ModuleDescriptor} (h : i.scanned fs = .ok ds) :
    i.declared fs = ds := by
  rw [declared, h]
  rfl

/-- What opens is what is open, or else what is found at the root. -/
theorem scanned_of_open {c : Contents} {u v : Use}
    (hopen : openContents.run.on fs u = (.ok c, v)) : u.image.scanned fs = c.scanned fs := by
  rw [on_openContents] at hopen
  unfold scanned
  cases hc : u.image.contents with
  | some c' =>
    rw [hc] at hopen
    cases hopen
    rfl
  | none =>
    rw [hc] at hopen
    rcases hfound : Contents.ofRoot fs u.image.root with e | found
    · rw [hfound] at hopen
      cases e <;> cases hopen
    · rw [hfound] at hopen
      cases hopen
      rfl

theorem scanned_of_failed {e : Error} {u v : Use}
    (hopen : openContents.run.on fs u = (.error e, v)) : u.image.scanned fs = .ok [] := by
  rw [on_openContents] at hopen
  unfold scanned
  cases hc : u.image.contents with
  | some c =>
    rw [hc] at hopen
    cases hopen
  | none =>
    rw [hc] at hopen
    rcases hfound : Contents.ofRoot fs u.image.root with e | found
    · rfl
    · rw [hfound] at hopen
      cases hopen

end Image

namespace Registry

open Entry (ModuleStep)
open Image (Use Visit)

variable {fs : FileSystem}

theorem scanned_eq (fs : FileSystem) (u : Use) :
    (scan.run.on fs u).1.map (·.1) = u.image.scanned fs := by
  rcases hopen : Image.openContents.run.on fs u with ⟨outcome, v⟩
  cases outcome with
  | ok c =>
    obtain ⟨w, hscan, -⟩ := on_scan hopen
    rw [hscan, Image.scanned_of_open hopen]
    cases c.scanned fs <;> rfl
  | error e =>
    rw [on_scan_of_error hopen, Image.scanned_of_failed hopen]
    rfl

/-- What a load answers and makes of the register, by what a scan finds. -/
def loaded (r : Registry) (again : Bool) (key : String)
    (scanned : Except Image.Error (List ModuleDescriptor)) :
    Except Image.Error (Option Snapshot) × Registry :=
  match r.snapshot? key, again, scanned with
  | some s, false, _ => (.ok (some s), r)
  | _, _, .error e => (.error e, r)
  | known, _, .ok ds =>
    if ds.isEmpty then (.ok known, r) else (.ok (some (r.nextSnapshot key ds)), r.publish key ds)

/-- A load publishes what it finds, unless there is something and nothing else is wanted. -/
theorem loaded_snd (r : Registry) (again : Bool) (key : String)
    (scanned : Except Image.Error (List ModuleDescriptor)) :
    (r.loaded again key scanned).2 =
      let ds := scanned.toOption.getD []
      if ds = [] ∨ (r.isPopulated key ∧ again = false) then r else r.publish key ds := by
  unfold loaded isPopulated
  cases scanned with
  | error e => cases r.snapshot? key <;> cases again <;> simp [Except.toOption]
  | ok ds => cases r.snapshot? key <;> cases again <;> cases ds <;> simp [Except.toOption]

/-- A load ends if what it scans does. -/
theorem loaded_ok (r : Registry) (again : Bool) (key : String) (ds : List ModuleDescriptor) :
    ∃ snapshot?, (r.loaded again key (.ok ds)).1 = .ok snapshot? := by
  unfold loaded
  cases r.snapshot? key <;> cases again <;> cases ds <;> exact ⟨_, rfl⟩

theorem on_publishScan_fst (key : String) (r : Registry) (fs : FileSystem) (u : Use) :
    (ModuleStep.on (publishScan key) r fs u).1 = r.loaded true key (u.image.scanned fs) := by
  rw [on_publishScan_eq, ← scanned_eq]
  unfold loaded
  rcases scan.run.on fs u with ⟨e | ⟨found, error?⟩, w⟩
  · cases r.snapshot? key <;> rfl
  · dsimp only [Except.map]
    rw [on_publishFound]
    cases r.snapshot? key <;> cases found <;> rfl

theorem on_loadModules_fst (again : Bool) (r : Registry) (fs : FileSystem) (u : Use) :
    (ModuleStep.on (loadModules again) r fs u).1 =
      r.loaded again (keyOf fs u.image) (u.image.scanned fs) := by
  have hscan : (ModuleStep.on (publishScan (keyOf fs u.image)) r fs
      (Image.canonicalPath.on fs u).2).1 =
        r.loaded true (keyOf fs u.image) (u.image.scanned fs) := by
    rw [on_publishScan_fst, image_canonicalPath]
    rfl
  rw [on_loadModules_eq]
  cases hknown : r.snapshot? (keyOf fs u.image) with
  | none =>
    rw [hscan]
    unfold loaded
    rw [hknown]
    cases again <;> cases Image.scanned fs u.image <;> rfl
  | some s =>
    cases again with
    | true => exact hscan
    | false =>
      unfold loaded
      rw [hknown]

/-- A load publishes what its scan leaves to be registered. -/
theorem on_loadModules_snd (again : Bool) (r : Registry) (fs : FileSystem) (u : Use) :
    (ModuleStep.on (loadModules again) r fs u).1.2 =
      if u.image.declared fs = [] ∨ (r.isPopulated (keyOf fs u.image) ∧ again = false) then r
      else r.publish (keyOf fs u.image) (u.image.declared fs) := by
  rw [on_loadModules_fst, loaded_snd]
  rfl

/-! ## What is served -/

/-- Whether a module is registered under a path. -/
def serves (r : Registry) (key name : String) : Bool :=
  ((r.modulesAt key).map (·.contains name)).getD false

theorem serves_publish {r : Registry} {key name : String} {ds : List ModuleDescriptor} :
    (r.publish key ds).serves key name ↔ ∃ d ∈ ds, d.name = name := by
  rw [serves, modulesAt_publish, Option.map_some, Option.getD_some, Index.contains_ofList]

/-- A load replaces what is served if it finds descriptors, unless there are some and no others are
    wanted. -/
theorem serves_loaded {r : Registry} {again : Bool} {u : Use} {name : String} :
    (ModuleStep.on (loadModules again) r fs u).1.2.serves (keyOf fs u.image) name ↔
      if u.image.declared fs = [] ∨ (r.isPopulated (keyOf fs u.image) ∧ again = false) then
        (r.serves (keyOf fs u.image) name : Prop)
      else ∃ d ∈ u.image.declared fs, d.name = name := by
  rw [on_loadModules_snd]
  split
  · rfl
  · exact serves_publish

theorem on_mapM_servesModule (r : Registry) (fs : FileSystem) (names : List String) (u : Use) :
    (ModuleStep.on (names.mapM Entry.servesModule) r fs u).1 =
      (names.map (r.serves (keyOf fs u.image)), r) := by
  induction names generalizing u with
  | nil => rfl
  | cons name names ih =>
    have hkey : keyOf fs (Image.canonicalPath.on fs u).2.image = keyOf fs u.image := by
      rw [image_canonicalPath]
      rfl
    rw [List.mapM_cons, ModuleStep.on_bind, on_servesModule, ModuleStep.on_bind]
    dsimp only
    rw [ih, hkey]
    rfl

end Registry

/-- The path that an image is registered under stays the same. -/
theorem Image.Moves.keyOf {fs : FileSystem} {overlays : String → Prop} {mayClose : Prop}
    {u v : Image.Use} (hmoves : Image.Moves fs overlays mayClose u v) :
    Registry.keyOf fs v.image = Registry.keyOf fs u.image := by
  induction hmoves with
  | refl => rfl
  | tail _ hmove ih =>
    rw [← ih]
    cases hmove with
    | canonical h =>
      unfold Registry.keyOf
      rw [h]
      rfl
    | note | normalized | report | opening | overlay | close => rfl

namespace Session

open Entry (ModuleStep)
open Registry (keyOf)

variable {s : Session} {name : String} {use : EntryUse} {image : Image}

/-- Whether a use of an entry is a load, and if so, whether a forced one. -/
def EntryRequest.loads? : EntryRequest → Option Bool
  | prepare => some false
  | load => some false
  | reload => some true
  | _ => none

/-- What a load leaves of the register, the entry and the image. -/
theorem entryResult_load {request : EntryRequest} {again : Bool}
    (hloads : request.loads? = some again) :
    let result := ModuleStep.on (Registry.loadModules again) (s.register use.register) s.files
      ⟨image, []⟩
    (s.entryResult use image request).1.2 = result.1.2 ∧
    (s.entryResult use image request).1.1.2 = use.entry ∧
    (s.entryResult use image request).2 = result.2 := by
  cases request <;> cases hloads <;> exact ⟨rfl, rfl, rfl⟩

/-- An entry serves the modules registered under the path of its image. -/
theorem answer_serves (huse : s.entries.get? name = some use)
    (himage : s.images[use.image]? = some image) (names : List String) :
    (s.run (.useEntry name (.serves names))).answer =
      .flags (names.map ((s.register use.register).serves (keyOf s.files image))) := by
  have hnames := Registry.on_mapM_servesModule (s.register use.register) s.files names ⟨image, []⟩
  rw [run, useEntry_eq huse himage, entryResult]
  change Answer.flags (ModuleStep.on (names.mapM Entry.servesModule) _ _ _).1.1 = _
  rw [hnames]

/-- Whether an entry says that it serves a module. -/
def Serves (s : Session) (name module : String) : Prop :=
  (s.run (.useEntry name (.serves [module]))).answer = .flags [true]

theorem serves_iff (huse : s.entries.get? name = some use)
    (himage : s.images[use.image]? = some image) {module : String} :
    s.Serves name module ↔ (s.register use.register).serves (keyOf s.files image) module := by
  rw [Serves, answer_serves huse himage]
  simp

/-- After a load an entry serves what the scan found, or what it served before. -/
theorem serves_run_load {request : EntryRequest} {again : Bool}
    (hloads : request.loads? = some again) (huse : s.entries.get? name = some use)
    (himage : s.images[use.image]? = some image) {module : String} :
    (s.run (.useEntry name request)).session.Serves name module ↔
      if image.declared s.files = [] ∨
        ((s.register use.register).isPopulated (keyOf s.files image) ∧ again = false)
      then s.Serves name module else ∃ d ∈ image.declared s.files, d.name = module := by
  obtain ⟨hregister, hentry, -⟩ := @entryResult_load s use image request again hloads
  obtain ⟨hfiles, himage', hentries⟩ := session_useEntry huse himage request
  have huse' : (s.useEntry name request).session.entries.get? name = some use := by
    rw [hentries, NameMap.get?_insert, if_pos rfl, hentry]
  have hkey : keyOf s.files (s.entryResult use image request).2.image = keyOf s.files image :=
    Image.Moves.keyOf (moves_useEntry huse request ⟨image, []⟩)
  have hregister' : (s.useEntry name request).session.register use.register =
      (ModuleStep.on (Registry.loadModules again) (s.register use.register) s.files
        ⟨image, []⟩).1.2 := by
    rw [useEntry_eq huse himage]
    refine (register_setRegister s _ use.register use.register).trans ?_
    rw [if_pos rfl, hregister]
  rw [run, serves_iff huse' himage', hfiles, hkey, hregister', serves_iff huse himage]
  exact @Registry.serves_loaded s.files _ again ⟨image, []⟩ module

/-- What a load that ends answers: the snapshot, unless it only prepares the entry. -/
def EntryRequest.shows (request : EntryRequest) (use : EntryUse)
    (snapshot? : Option Registry.Snapshot) : Answer :=
  match request with
  | prepare => .nothing
  | _ => .snapshot (snapshot?.map fun snapshot => ⟨snapshot, use.register.isSome⟩)

theorem answer_load {request : EntryRequest} {again : Bool} (hloads : request.loads? = some again)
    (huse : s.entries.get? name = some use) (himage : s.images[use.image]? = some image) :
    (s.run (.useEntry name request)).answer = .of (request.shows use)
      ((s.register use.register).loaded again (keyOf s.files image) (image.scanned s.files)).1 := by
  have hanswer : (s.entryResult use image request).1.1.1 = .of (request.shows use)
      (ModuleStep.on (Registry.loadModules again) (s.register use.register) s.files
        ⟨image, []⟩).1.1 := by
    cases request <;> cases hloads <;> rfl
  rw [run, useEntry_eq huse himage]
  dsimp only
  rw [hanswer, Registry.on_loadModules_fst]

/-- **After a reload an entry serves what can be read of what its image has open.** The modules looked
    at are those of the contents that are open already, or else those found at the root now, and
    what is read is what their files hold now: of a directory those that its path leads to, of an
    archive the file that was opened, with what has been written into it since, but not another one
    that has taken its place. If no descriptor there is fatal, the reload ends. If any of the
    modules has a descriptor that can be read, those and only those names are served that such
    descriptors declare; if none has, the entry serves what it served before. -/
theorem serves_reload {found : Image.Contents.Found} (huse : s.entries.get? name = some use)
    (himage : s.images[use.image]? = some image)
    (hfound : Image.Contents.ofRoot s.files image.root = .ok found)
    (hharmless : (image.contents.getD found.contents).Harmless s.files) :
    let seen := image.contents.getD found.contents
    let reload := s.run (.useEntry name .reload)
    reload.answer ≠ .panicked ∧ ∀ module : String,
      ((∃ other, seen.Declares s.files other) →
        (reload.session.Serves name module ↔ seen.Declares s.files module)) ∧
      ((∀ other, ¬seen.Declares s.files other) →
        (reload.session.Serves name module ↔ s.Serves name module)) := by
  intro seen reload
  have hscanned : image.scanned s.files = .ok (seen.descriptors s.files) := by
    rw [← hharmless.scanned]
    unfold Image.scanned
    rw [hfound]
    cases image.contents <;> rfl
  have hdeclared := Image.declared_of_scanned hscanned
  refine ⟨?_, fun module => ?_⟩
  · obtain ⟨snapshot?, hloaded⟩ := (s.register use.register).loaded_ok true (keyOf s.files image)
      (seen.descriptors s.files)
    have hanswer := @answer_load s name use image .reload true rfl huse himage
    rw [hscanned, hloaded] at hanswer
    rw [hanswer]
    exact nofun
  · have hserves := @serves_run_load s name use image .reload true rfl huse himage module
    rw [hdeclared] at hserves
    simp only [Bool.true_eq_false, and_false, or_false] at hserves
    refine ⟨fun ⟨other, hother⟩ => ?_, fun hnone => ?_⟩
    · obtain ⟨d, hd, -⟩ := Image.Contents.declares_iff.1 hother
      rw [if_neg (List.ne_nil_of_mem hd)] at hserves
      exact hserves.trans Image.Contents.declares_iff.symm
    · have hempty : seen.descriptors s.files = [] :=
        List.eq_nil_iff_forall_not_mem.2 fun d hd =>
          hnone d.name (Image.Contents.declares_iff.2 ⟨d, hd, rfl⟩)
      rwa [if_pos hempty] at hserves

/-! ## An image that moves -/

/-- A descriptor that declares a name of one letter, and nothing else. -/
def describing (letter : UInt8) : Bytes :=
  [0xCA, 0xFE, 0xBA, 0xBE, 0, 0, 0, 53, 0, 4, 1, 0, 6, 77, 111, 100, 117, 108, 101, 1, 0, 1, letter,
    19, 0, 2, 0x80, 0, 0, 0, 0, 0, 0, 0, 0, 0, 0, 0, 0, 1, 0, 1, 0, 0, 0, 16, 0, 3, 0, 0, 0, 0, 0, 0,
    0, 0, 0, 0, 0, 0, 0, 0]

/-- The directory of a module that has its descriptor only. -/
def described (letter : UInt8) : List (String × Node) :=
  [("module-info.class", .file (describing letter) false)]

/-- A file system with a module `m` in the directory of modules, and a module `n` beside that. -/
def twoPlaces : FileSystem :=
  let modules := [("m", Node.directory (described 109))]
  ⟨.directory [("i", .directory [("modules", .directory modules), ("n", .directory (described 110))])],
    [], []⟩

/-- The same without the directory of modules, when that has gone. -/
def onePlace : FileSystem :=
  ⟨.directory [("i", .directory [("n", .directory (described 110))])], [],
    [(["i", "modules", "m", "module-info.class"], describing 109)]⟩

theorem parse_describing : ∃ d d', ModuleDescriptor.parse (describing 109) = .ok d ∧ d.name = "m" ∧
    ModuleDescriptor.parse (describing 110) = .ok d' ∧ d'.name = "n" := by
  have hparsed (letter : UInt8) (name : String)
      (h : (ModuleDescriptor.parse (describing letter)).toOption.map (·.name) = some name) :
      ∃ d, ModuleDescriptor.parse (describing letter) = .ok d ∧ d.name = name := by
    cases hparse : ModuleDescriptor.parse (describing letter) with
    | error e => rw [hparse] at h; cases h
    | ok d => rw [hparse] at h; exact ⟨d, rfl, Option.some.inj h⟩
  obtain ⟨d, hd, hname⟩ := hparsed 109 "m" (by decide +kernel)
  obtain ⟨d', hd', hname'⟩ := hparsed 110 "n" (by decide +kernel)
  exact ⟨d, d', hd, hname, hd', hname'⟩

/-- Without the directory nothing is left of it. -/
theorem remove_modules : twoPlaces.remove? "/i/modules" = some onePlace := by
  have hresolve : twoPlaces.resolve false "/i/modules" = .ok (["i"] ++ ["modules"]) := by
    have hsegments : Text.segments "/i/modules" = ["", "i", "modules"] := by decide
    rw [FileSystem.resolve_eq (by decide) (by decide) (by decide), hsegments,
      FileSystem.resolveFrom_same (.inl rfl),
      FileSystem.resolveFrom_directory (by decide) (by decide) rfl,
      FileSystem.resolveFrom_directory (by decide) (by decide) rfl, FileSystem.resolveFrom]
    rfl
  have hfiles : twoPlaces.root.filesAt ["i"] "modules" = onePlace.gone := by
    have hnode : twoPlaces.root.at? (["i"] ++ ["modules"]) =
        some (.directory [("m", .directory (described 109))]) := rfl
    rw [Node.filesAt, hnode]
    simp only [Option.toList_some, List.map_cons, List.map_nil, described, Node.filesIn]
    rfl
  rw [FileSystem.remove?_of_resolve hresolve, hfiles]
  rfl

theorem join_root : Path.join "/" "i" = "/i" := by decide

theorem join_jmods : Path.join "/i" "jmods" = "/i/jmods" := by decide

theorem join_modules : Path.join "/i" "modules" = "/i/modules" := by decide

theorem node?_twoPlaces : (∃ es, twoPlaces.node? "/i" = .ok (.directory es)) ∧
    twoPlaces.isDirectory "/i/jmods" = false ∧
    twoPlaces.node? "/i/modules" = .ok (.directory [("m", .directory (described 109))]) := by
  have hroot : twoPlaces.node? (Path.join "/" "i") = .ok (.directory _) :=
    FileSystem.node?_join (FileSystem.node?_root twoPlaces) (by decide) rfl nofun (by decide)
  rw [join_root] at hroot
  rw [← join_jmods, ← join_modules]
  exact ⟨⟨_, hroot⟩, FileSystem.isDirectory_join_of_none hroot (by decide) rfl,
    FileSystem.node?_join hroot (by decide) rfl nofun (by decide)⟩

theorem node?_onePlace : onePlace.node? "/i" = .ok (.directory [("n", .directory (described 110))]) ∧
    onePlace.isDirectory "/i/jmods" = false ∧ onePlace.isDirectory "/i/modules" = false := by
  have hroot : onePlace.node? (Path.join "/" "i") = .ok (.directory _) :=
    FileSystem.node?_join (FileSystem.node?_root onePlace) (by decide) rfl nofun (by decide)
  rw [join_root] at hroot
  rw [← join_jmods, ← join_modules]
  exact ⟨hroot, FileSystem.isDirectory_join_of_none hroot (by decide) rfl,
    FileSystem.isDirectory_join_of_none hroot (by decide) rfl⟩

/-- What opening the image finds before, -/
def olderContents : Image.Contents :=
  ⟨.exploded, NameMap.empty.insert "m" ⟨.directory "/i/modules/m",
    Image.Module.scan twoPlaces "/i/modules/m" "" .root (described 109)⟩⟩

/-- and after the directory of modules is gone. -/
def newerContents : Image.Contents :=
  ⟨.exploded, NameMap.empty.insert "n" ⟨.directory "/i/n",
    Image.Module.scan onePlace "/i/n" "" .root (described 110)⟩⟩

theorem ofRoot_twoPlaces : Image.Contents.ofRoot twoPlaces "/i" = .ok ⟨olderContents, []⟩ := by
  obtain ⟨⟨es, hroot⟩, hjmods, hmodules⟩ := node?_twoPlaces
  have hfits : Image.Module.fits (Path.join "/i/modules" "m") (described 109) := by
    simp only [described, Image.Module.fits.eq_def]
    decide
  have hsingle := Image.ofDirectories_single hmodules (by decide) (by decide) hfits
  unfold Image.Contents.ofRoot
  simp only [join_jmods, join_modules, Image.isDirectory_of_node? hroot, hjmods,
    Image.isDirectory_of_node? hmodules]
  exact hsingle

/-- Without a directory of modules, the image is one of modules beside each other. -/
theorem ofRoot_onePlace : Image.Contents.ofRoot onePlace "/i" = .ok ⟨newerContents, []⟩ := by
  obtain ⟨hroot, hjmods, hmodules⟩ := node?_onePlace
  have hfits : Image.Module.fits (Path.join "/i" "n") (described 110) := by
    simp only [described, Image.Module.fits.eq_def]
    decide
  have hsingle := Image.ofDirectories_single hroot (by decide) (by decide) hfits
  have hmodule : onePlace.node? (Path.join "/i" "n") = .ok (.directory (described 110)) :=
    FileSystem.node?_join hroot (by decide) rfl nofun (by decide)
  have hfile : onePlace.node? (Path.join (Path.join "/i" "n") Image.descriptorFile) = .ok (.file _ _) :=
    FileSystem.node?_join hmodule (by decide) rfl nofun (by decide)
  have hchildren : Image.Contents.children onePlace "/i" = .ok [Path.join "/i" "n"] := by
    have hnames : Image.namesIn [("n", Node.directory (described 110))] = ["n"] := by
      simp [Image.namesIn]
    rw [Image.children_eq hroot, hnames]
    rfl
  have hjmod : Image.isJmod (Path.join "/i" "n") = false := by decide
  have hhas : Image.Contents.isModuleDirectory onePlace (Path.join "/i" "n") = true := by
    rw [Image.Contents.isModuleDirectory, Image.isDirectory_of_node? hmodule, FileSystem.isFile,
      hfile]
    rfl
  unfold Image.Contents.ofRoot
  simp only [join_jmods, join_modules, Image.isDirectory_of_node? hroot, hjmods, hmodules, hchildren,
    bind, Except.bind, List.any_cons, List.any_nil, hjmod, hhas]
  exact hsingle

/-- A module of one descriptor declares what that does. -/
theorem declares_described {fs : FileSystem} {layout : Image.Layout} {key path name : String}
    {tree : Image.Tree} {letter : UInt8} {d : ModuleDescriptor}
    (hnode : fs.node? path = .ok (.directory (described letter)))
    (hsize : (Path.join path Image.descriptorFile).utf8ByteSize ≤ FileSystem.maxPathSize)
    (hparse : ModuleDescriptor.parse (describing letter) = .ok d) :
    Image.Contents.Declares fs ⟨layout, NameMap.empty.insert key ⟨.directory path, tree⟩⟩ name ↔
      d.name = name := by
  have hread : Image.Module.read fs ⟨.directory path, tree⟩ Image.descriptorFile =
      .ok (some (describing letter)) :=
    Image.read_join hnode (by decide) rfl hsize tree
  rw [Image.Contents.declares_single, hread]
  constructor
  · rintro ⟨content, d', hcontent, hparse', hname⟩
    cases hcontent
    cases hparse.symm.trans hparse'
    exact hname
  · exact fun hname => ⟨_, d, rfl, hparse, hname⟩

/-- Before, the modules are the older ones, and `m` is declared. -/
theorem declares_olderContents {module : String} :
    olderContents.Declares twoPlaces module ↔ module = "m" := by
  obtain ⟨-, -, hmodules⟩ := node?_twoPlaces
  obtain ⟨d, -, hparse, hname, -⟩ := parse_describing
  have hmodule : twoPlaces.node? (Path.join "/i/modules" "m") = .ok (.directory (described 109)) :=
    FileSystem.node?_join hmodules (by decide) rfl nofun (by decide)
  have hjoin : Path.join "/i/modules" "m" = "/i/modules/m" := by decide
  rw [hjoin] at hmodule
  rw [olderContents, declares_described hmodule (by decide) hparse, hname, eq_comm]

/-- Afterwards they are the newer ones, and `n` is declared. -/
theorem declares_newerContents {module : String} :
    newerContents.Declares onePlace module ↔ module = "n" := by
  obtain ⟨hroot, -, -⟩ := node?_onePlace
  obtain ⟨-, d, -, -, hparse, hname⟩ := parse_describing
  have hmodule : onePlace.node? (Path.join "/i" "n") = .ok (.directory (described 110)) :=
    FileSystem.node?_join hroot (by decide) rfl nofun (by decide)
  have hjoin : Path.join "/i" "n" = "/i/n" := by decide
  rw [hjoin] at hmodule
  rw [newerContents, declares_described hmodule (by decide) hparse, hname, eq_comm]

/-- Of the older ones none is left. -/
theorem not_declares_olderContents (module : String) : ¬olderContents.Declares onePlace module := by
  have hgone : onePlace.isFile (Path.join "/i/modules/m" Image.descriptorFile) = false := by
    have hresolve : onePlace.resolve true (Path.join "/i/modules/m" Image.descriptorFile) =
        .error .notFound := by
      have hsegments : Text.segments (Path.join "/i/modules/m" Image.descriptorFile) =
          ["", "i", "modules", "m", "module-info.class"] := by decide
      rw [FileSystem.resolve_eq (by decide) (by decide) (by decide), hsegments,
        FileSystem.resolveFrom_same (.inl rfl),
        FileSystem.resolveFrom_directory (by decide) (by decide) rfl,
        FileSystem.resolveFrom_none (by decide) (by decide) rfl]
      rfl
    rw [FileSystem.isFile, FileSystem.node?, hresolve]
    rfl
  rw [olderContents, Image.Contents.declares_single, Image.Module.read]
  simp only [hgone]
  rintro ⟨content, d, hread, -⟩
  cases hread

/-- Their descriptors are in directories, where none is fatal. -/
theorem harmless_olderContents (fs : FileSystem) : olderContents.Harmless fs := by
  intro name m hm
  rw [olderContents, NameMap.get?_insert] at hm
  split at hm
  · cases hm
    rintro ⟨path, zip, entry, source, hsource, -⟩
    cases hsource
  · cases hm

theorem descriptors_olderContents : olderContents.descriptors twoPlaces ≠ [] ∧
    olderContents.descriptors onePlace = [] := by
  obtain ⟨d, hd, -⟩ := Image.Contents.declares_iff.1 (declares_olderContents.2 rfl)
  exact ⟨List.ne_nil_of_mem hd, List.eq_nil_iff_forall_not_mem.2 fun d hd =>
    not_declares_olderContents d.name (Image.Contents.declares_iff.2 ⟨d, hd, rfl⟩)⟩

/-- An entry, and nothing else. -/
def bareUse : EntryUse := ⟨⟨false, ⟨[], ""⟩, none, []⟩, 0, none⟩

/-- A session with an entry for the image. -/
def unloaded : Session :=
  let s := ((start twoPlaces ⟨none, none, "/"⟩).run (.newImage "i" "/i")).session
  (s.run (.newEntry "e" "i" bareUse.entry none)).session

/-- The session after the entry loaded the modules. -/
def loadedOnce : Session := (unloaded.run (.useEntry "e" .load)).session

/-- The session after the directory of modules was removed, too. -/
def moved : Session := (loadedOnce.run (.remove "/i/modules")).session

theorem entry_unloaded : unloaded.entries.get? "e" = some bareUse := by
  have hentries : unloaded.entries = NameMap.empty.insert "e" bareUse := rfl
  rw [hentries, NameMap.get?_insert, if_pos rfl]

theorem image_unloaded : unloaded.images[bareUse.image]? = some (.new "/i") := rfl

theorem scanned_unloaded :
    (Image.new "/i").scanned unloaded.files = .ok (olderContents.descriptors twoPlaces) := by
  have hscanned : (Image.new "/i").scanned twoPlaces = olderContents.scanned twoPlaces := by
    unfold Image.scanned
    simp only [Image.new, ofRoot_twoPlaces]
  rwa [(harmless_olderContents twoPlaces).scanned] at hscanned

/-- The image when it was opened by a load. -/
def loadedImage : Image :=
  { Image.new "/i" with
    canonical := some (keyOf twoPlaces (.new "/i"))
    contents := some olderContents }

/-- Loading the modules opens the image. -/
theorem image_load_unloaded :
    (ModuleStep.on (Registry.loadModules false) (unloaded.register none) twoPlaces
      ⟨.new "/i", []⟩).2.image = loadedImage := by
  have hopen : Image.openContents.run.on twoPlaces
      (Image.canonicalPath.on twoPlaces ⟨.new "/i", []⟩).2 =
        (.ok olderContents, ⟨loadedImage, [.opened]⟩) := by
    rw [Registry.on_canonicalPath, Image.on_openContents]
    simp only [Image.new, ofRoot_twoPlaces]
    rfl
  obtain ⟨outcome, r', w, hscan, -, hw⟩ := Registry.on_publishScan (unloaded.register none)
    (keyOf twoPlaces (.new "/i")) hopen
  -- Nothing was registered before.
  have hload := (Registry.on_loadModules_eq false (unloaded.register none) twoPlaces
    ⟨.new "/i", []⟩).trans hscan
  rw [hload]
  exact hw

/-- The image is open then, and the entry serves its module. -/
theorem loadedOnce_eq : loadedOnce.files = twoPlaces ∧ loadedOnce.entries.get? "e" = some bareUse ∧
    loadedOnce.images[bareUse.image]? = some loadedImage ∧
    ∀ module, loadedOnce.Serves "e" module ↔ module = "m" := by
  obtain ⟨hfiles, himage, hentries⟩ := session_useEntry entry_unloaded image_unloaded .load
  obtain ⟨-, hentry, hresult⟩ := @entryResult_load unloaded bareUse (.new "/i") .load false rfl
  refine ⟨hfiles, ?_, ?_, fun module => ?_⟩
  · rw [loadedOnce, run, hentries, NameMap.get?_insert, if_pos rfl, hentry]
  · rw [hresult] at himage
    exact himage.trans (congrArg some image_load_unloaded)
  · rw [loadedOnce, serves_run_load rfl entry_unloaded image_unloaded,
      Image.declared_of_scanned scanned_unloaded, if_neg,
      ← Image.Contents.declares_iff, declares_olderContents]
    exact not_or.2 ⟨descriptors_olderContents.1, fun hknown => Bool.false_ne_true hknown.1⟩

theorem moved_eq : moved = { loadedOnce with files := onePlace } := by
  have hremove : loadedOnce.files.remove? "/i/modules" = some onePlace := by
    rw [loadedOnce_eq.1]
    exact remove_modules
  rw [moved, run, hremove]

/-- After the removal the image is still open, and the entry serves what it did. -/
theorem moved_serves : moved.files = onePlace ∧ moved.entries.get? "e" = some bareUse ∧
    moved.images[bareUse.image]? = some loadedImage ∧
    ∀ module, moved.Serves "e" module ↔ module = "m" := by
  obtain ⟨-, huse, himage, hserves⟩ := loadedOnce_eq
  rw [moved_eq]
  refine ⟨rfl, huse, himage, fun module => ?_⟩
  rw [← hserves, serves_iff huse himage]
  exact serves_iff (s := { loadedOnce with files := onePlace }) huse himage

/-- In what is open nothing is left to be found. -/
theorem scanned_moved : loadedImage.scanned onePlace = .ok [] := by
  have hscanned : loadedImage.scanned onePlace = olderContents.scanned onePlace := rfl
  rwa [(harmless_olderContents onePlace).scanned, descriptors_olderContents.2] at hscanned

/-- Before its first load the entry serves nothing, and then the module that is there. When that is
    gone, it serves it still. -/
theorem serves_reload_moved :
    (∀ module, (unloaded.run (.useEntry "e" .reload)).session.Serves "e" module ↔ module = "m") ∧
    ∀ module, (moved.run (.useEntry "e" .reload)).session.Serves "e" module ↔ module = "m" := by
  constructor
  · intro module
    obtain ⟨-, hserves⟩ := serves_reload entry_unloaded image_unloaded ofRoot_twoPlaces
      (harmless_olderContents unloaded.files)
    exact ((hserves module).1 ⟨"m", declares_olderContents.2 rfl⟩).trans declares_olderContents
  · intro module
    obtain ⟨hfiles, huse, himage, hbefore⟩ := moved_serves
    obtain ⟨-, hserves⟩ := serves_reload huse himage (hfiles ▸ ofRoot_onePlace)
      (harmless_olderContents moved.files)
    refine ((hserves module).2 ?_).trans (hbefore module)
    rw [hfiles]
    exact not_declares_olderContents

/-- **A reload does not show what has moved.** At the root there is one module, `n`, and it could be
    opened. But the image is open with the older contents, none of which is left, and so the entry
    still serves `m` after a reload, and does not serve `n`. -/
theorem reload_keeps_moved : ∃ image found, moved.entries.get? "e" = some bareUse ∧
    moved.images[bareUse.image]? = some image ∧
    Image.Contents.ofRoot moved.files image.root = .ok found ∧
    (∀ module, found.contents.Declares moved.files module ↔ module = "n") ∧
    ∀ module, (moved.run (.useEntry "e" .reload)).session.Serves "e" module ↔ module = "m" := by
  obtain ⟨hfiles, huse, himage, hserves⟩ := moved_serves
  rw [hfiles]
  refine ⟨_, _, huse, himage, ofRoot_onePlace, fun module => declares_newerContents, fun module => ?_⟩
  have hnone : loadedImage.declared moved.files = [] := by
    rw [hfiles]
    exact Image.declared_of_scanned scanned_moved
  rw [serves_run_load rfl huse himage, if_pos (.inl hnone), hserves]

end Session

end PlatformImage
