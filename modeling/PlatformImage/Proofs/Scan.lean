import PlatformImage.Entry.Basic
import PlatformImage.Proofs.Closed
import PlatformImage.Proofs.OpenFiles
import PlatformImage.Proofs.Runs
/-! What scanning an image finds, and what is registered then.

A scan of an image that opens finds the descriptors of its modules, each module's on its
own, unless one of them ends the program (`on_scan`). After a load the modules registered for
the image are those that were, or those of these descriptors (`on_loadModules`); all an entry
knows of modules is there. -/
namespace PlatformImage

namespace Image

/-- The descriptor of a module, if it has one that can be read. -/
def Module.descriptor? (fs : FileSystem) (m : Module) : Option ClassFile.ModuleDescriptor :=
  match m.read fs descriptorFile with
  | .ok (some content) => (ClassFile.ModuleDescriptor.parse content).toOption
  | _ => none

/-- The descriptors of all modules, in ascending order of the modules' names. -/
def Contents.descriptors (fs : FileSystem) (c : Contents) : List ClassFile.ModuleDescriptor :=
  c.modules.entries.filterMap fun m => m.2.descriptor? fs

/-- The descriptor of a module is a fatal entry of an archive, and can be gone to. -/
def Module.IsFatal (fs : FileSystem) (m : Module) : Prop :=
  ∃ path zip entry source, m.source = .archive path zip ∧
    Archive.Entry.named? zip.entries (classesFolder ++ descriptorFile) = some entry ∧
    entry.goTo (fs.held zip.file).toArray = .ok source ∧ entry.isFatal

/-- No module has a fatal descriptor. -/
def Contents.Harmless (fs : FileSystem) (c : Contents) : Prop :=
  ∀ name m, c.modules.get? name = some m → ¬m.IsFatal fs

/-- The error that the program ends with when it reads the descriptor of a module, if it does. -/
def Module.fatal? (fs : FileSystem) (m : Module) : Option Error :=
  match m.read fs descriptorFile with
  | .ok _ => none
  | .error e => if e.isFatal then some e else none

/-- What a scan of contents finds, if it ends: all descriptors, unless one module's is fatal. -/
def Contents.scanned (fs : FileSystem) (c : Contents) :
    Except Error (List ClassFile.ModuleDescriptor) :=
  match c.modules.entries.findSome? fun m => m.2.fatal? fs with
  | some e => .error e
  | none => .ok (c.descriptors fs)

/-- What a scan leaves to be registered: nothing, if it does not end. -/
def Contents.declared (fs : FileSystem) (c : Contents) : List ClassFile.ModuleDescriptor :=
  (c.scanned fs).toOption.getD []

variable {fs : FileSystem}

theorem Module.fatal?_eq_some {m : Module} {e : Error} :
    m.fatal? fs = some e ↔ m.read fs descriptorFile = .error e ∧ e.isFatal := by
  unfold fatal?
  cases m.read fs descriptorFile with
  | ok content => simp
  | error why =>
    simp only [Option.ite_none_right_eq_some, Option.some.injEq, Except.error.injEq]
    constructor
    · rintro ⟨hend, rfl⟩
      exact ⟨rfl, hend⟩
    · rintro ⟨rfl, hend⟩
      exact ⟨hend, rfl⟩

/-- Reading a fatal descriptor ends the program. -/
theorem Module.read_of_isFatal {m : Module} (h : m.IsFatal fs) : ∃ path zip,
    m.source = .archive path zip ∧ m.read fs descriptorFile = .error (.fatal path) := by
  obtain ⟨path, zip, entry, source, hsource, hentry, hgoTo, hfatal⟩ := h
  have hread := Archive.Zip.read_eq_fatal.2 ⟨entry, source, hentry, hgoTo, hfatal⟩
  refine ⟨path, zip, hsource, ?_⟩
  unfold Module.read
  rw [hsource]
  dsimp only
  rw [hread]

theorem Module.read_fatal_iff {m : Module} :
    (∃ e, m.read fs descriptorFile = .error e ∧ e.isFatal) ↔ m.IsFatal fs := by
  constructor
  · rintro ⟨e, he, hend⟩
    unfold Module.read at he
    cases hsource : m.source with
    | directory base =>
      rw [hsource] at he
      dsimp only at he
      split at he
      · split at he <;> cases he
        cases hend
      · cases he
    | archive path zip =>
      rw [hsource] at he
      dsimp only at he
      split at he <;> cases he
      · cases hend
      · next hfatal =>
        obtain ⟨entry, source, h⟩ := Archive.Zip.read_eq_fatal.1 hfatal
        exact ⟨path, zip, entry, source, hsource, h⟩
      · cases hend
  · intro h
    obtain ⟨path, zip, -, hread⟩ := read_of_isFatal h
    exact ⟨_, hread, rfl⟩

/-- What is read is not fatal. -/
theorem Module.not_isFatal_of_read {m : Module} {content? : Option Bytes}
    (h : m.read fs descriptorFile = .ok content?) : ¬m.IsFatal fs := by
  rw [← read_fatal_iff]
  rintro ⟨e, he, -⟩
  cases h.symm.trans he

theorem Module.fatal?_eq_none {m : Module} : m.fatal? fs = none ↔ ¬m.IsFatal fs := by
  rw [← read_fatal_iff, Option.eq_none_iff_forall_ne_some, not_exists]
  simp only [ne_eq, fatal?_eq_some]

/-- A scan of contents ends just if no descriptor is fatal. -/
theorem Contents.scanned_eq (fs : FileSystem) (c : Contents) :
    c.Harmless fs ∧ c.scanned fs = .ok (c.descriptors fs) ∨
      ¬c.Harmless fs ∧ ∃ e, c.scanned fs = .error e := by
  unfold scanned
  cases hfirst : c.modules.entries.findSome? fun m => m.2.fatal? fs with
  | none =>
    refine .inl ⟨fun name m hm => Module.fatal?_eq_none.1 ?_, rfl⟩
    exact List.findSome?_eq_none_iff.1 hfirst (name, m) (NameMap.mem_entries_iff.2 hm)
  | some e =>
    obtain ⟨⟨name, m⟩, hm, hend⟩ := List.exists_of_findSome?_eq_some hfirst
    refine .inr ⟨fun hharmless => ?_, e, rfl⟩
    have hnone := Module.fatal?_eq_none.2 (hharmless name m (NameMap.mem_entries_iff.1 hm))
    cases hnone.symm.trans hend

theorem Contents.Harmless.scanned {c : Contents} (h : c.Harmless fs) :
    c.scanned fs = .ok (c.descriptors fs) := by
  rcases c.scanned_eq fs with ⟨-, hscanned⟩ | ⟨hnot, -⟩
  · exact hscanned
  · exact absurd h hnot

/-- A scan fails only where the program ends. -/
theorem Contents.isFatal_of_scanned {c : Contents} {e : Error} (h : c.scanned fs = .error e) :
    e.isFatal := by
  unfold scanned at h
  split at h
  · next hend =>
    cases h
    obtain ⟨m, -, hm⟩ := List.exists_of_findSome?_eq_some hend
    exact (Module.fatal?_eq_some.1 hm).2
  · cases h

/-- An outcome that is not the end of the program. -/
def Survived {α : Type} (outcome : Except Error α) : Prop :=
  ∀ e, outcome = .error e → e.isFatal = false

theorem Survived.closed : Closed (Except Error) Survived where
  pure _ _ := nofun
  bind {_ _ outcome f} h hf e he := by
    cases outcome with
    | ok a => exact hf a e he
    | error why =>
      cases he
      exact h e rfl

theorem survived_children (fs : FileSystem) (base : String) :
    Survived (Contents.children fs base) := by
  intro e h
  unfold Contents.children at h
  split at h <;> cases h
  rfl

theorem survived_ofArchives (fs : FileSystem) (base : String) :
    Survived (Contents.ofArchives fs base) :=
  Survived.closed.bind (survived_children fs base) fun _ => Survived.closed.pure _

theorem survived_ofDirectories (fs : FileSystem) (base : String) :
    Survived (Contents.ofDirectories fs base) :=
  Survived.closed.bind (survived_children fs base) fun _ => Survived.closed.pure _

/-- What is wrong with a root does not end the program. -/
theorem survived_ofRoot (fs : FileSystem) (root : String) : Survived (Contents.ofRoot fs root) := by
  have hfails {e : Error} (he : e.isFatal = false) :
      Survived (.error e : Except Error Contents.Found) := by
    intro e' h
    cases h
    exact he
  unfold Contents.ofRoot
  dsimp only
  split
  · exact hfails rfl
  · split
    · exact survived_ofArchives fs _
    · split
      · exact survived_ofDirectories fs _
      · refine Survived.closed.bind (survived_children fs root) fun paths => ?_
        split
        · exact survived_ofArchives fs root
        · split
          · exact survived_ofDirectories fs root
          · exact hfails rfl

theorem survived_openContents (fs : FileSystem) (u : Use) :
    Survived (openContents.run.on fs u).1 := by
  intro e h
  rw [on_openContents] at h
  split at h
  · cases h
  · split at h
    · cases h
    · cases h
      rfl
    · next hfailed =>
      cases h
      exact survived_ofRoot fs _ e hfailed

end Image

namespace Entry.ModuleStep

variable {α β : Type} (r : Registry) (fs : FileSystem) (u : Image.Use)

/-- What a step answers and leaves that may change the register. -/
def on (x : ModuleStep α) (r : Registry) (fs : FileSystem) (u : Image.Use) :
    (α × Registry) × Image.Use :=
  (x.run r).on fs u

theorem on_bind (x : ModuleStep α) (f : α → ModuleStep β) : on (x >>= f) r fs u =
    on (f (on x r fs u).1.1) (on x r fs u).1.2 fs (on x r fs u).2 := rfl

theorem on_seqRight (x : ModuleStep α) (y : ModuleStep β) : on (x *> y) r fs u =
    on y (on x r fs u).1.2 fs (on x r fs u).2 := rfl

theorem on_lift (x : Image.Step α) :
    on (liftM x) r fs u = (((x.on fs u).1, r), (x.on fs u).2) := rfl

theorem on_get : on get r fs u = ((r, r), u) := rfl

end Entry.ModuleStep

namespace Registry

open ClassFile (ModuleDescriptor)
open Entry (ModuleStep)
open Image (Contents Module Use Visit)

variable {c : Contents} {fs : FileSystem} {u v : Use}

/-- Telling of a module adds its descriptor to those found, unless that is fatal, and leaves the
    image as it is. -/
theorem from_visitModule {name : String} {m : Module} (hc : u.image.contents = some c)
    (hm : c.modules.get? name = some m) (found : List ModuleDescriptor) :
    ∃ w, Visit.from (visitModule name) found fs u =
      (match m.fatal? fs with
        | none => ((.ok .skip, found ++ (m.descriptor? fs).toList), w)
        | some e => ((.error e, found), w)) ∧ w.image = u.image := by
  have hread : Visit.from (liftM (Image.readModuleUnit name Image.descriptorFile).run :
      Visit (List ModuleDescriptor) _) found fs u =
        ((.ok (m.read fs Image.descriptorFile), found), u) := by
    rw [Visit.from_lift, Image.on_readModuleUnit (Image.on_openContents_of_some hc), hm]
  -- Wherever nothing can be read, a notice is given and nothing is added.
  have hnote (n : Notice) : ∃ w, Visit.from (do
      liftM (Image.note n)
      return Image.Answer.skip : Visit (List ModuleDescriptor) Image.Answer) found fs u =
        ((.ok .skip, found ++ []), w) ∧ w.image = u.image :=
    ⟨{ u with notices := u.notices ++ [n] }, by rw [List.append_nil]; rfl, rfl⟩
  unfold visitModule
  rw [Visit.from_bind_of_ok found fs u _ hread]
  unfold Module.descriptor? Module.fatal?
  cases m.read fs Image.descriptorFile with
  | error e =>
    dsimp only
    split
    · exact ⟨u, rfl, rfl⟩
    · exact hnote .unreadDescriptor
  | ok content? =>
    cases content? with
    | none => exact hnote .missingDescriptor
    | some content =>
      dsimp only
      cases ModuleDescriptor.parse content with
      | error e => exact hnote .malformedDescriptor
      | ok d =>
        by_cases hname : d.name = name
        · refine ⟨u, ?_, rfl⟩
          dsimp only
          rw [if_neg fun h => h hname]
          rfl
        · refine ⟨{ u with notices := u.notices ++ [.misnamedModule] }, ?_, rfl⟩
          dsimp only
          rw [if_pos hname]
          rfl

/-- A scan finds the descriptors of the modules, one module after the other, until the first
    fatal one. -/
theorem from_walk_modules (found : List ModuleDescriptor) (hc : u.image.contents = some c)
    {ms : List (String × Module)} (hms : ∀ m ∈ ms, c.modules.get? m.1 = some m.2) :
    ∃ before w, Visit.from (ms.forM fun m => m.2.walk visit .modulesOnly m.1) found fs u =
      (match ms.findSome? fun m => m.2.fatal? fs with
        | none => ((.ok (), found ++ ms.filterMap fun m => m.2.descriptor? fs), w)
        | some e => ((.error e, before), w)) ∧ w.image = u.image := by
  induction ms generalizing found u with
  | nil => exact ⟨[], u, by simp [List.forM_eq_forM], rfl⟩
  | cons m ms ih =>
    obtain ⟨w, hm, hw⟩ := from_visitModule hc (hms m List.mem_cons_self) found
    rw [List.forM_eq_forM, List.forM_cons, List.findSome?_cons]
    cases hend : m.2.fatal? fs with
    | some e =>
      rw [hend] at hm
      have hwalk : Visit.from (m.2.walk visit .modulesOnly m.1) found fs u =
          ((.error e, found), w) :=
        Visit.from_bind_of_error found fs u _ hm
      exact ⟨found, w, Visit.from_bind_of_error found fs u _ hwalk, hw⟩
    | none =>
      rw [hend] at hm
      have hwalk : Visit.from (m.2.walk visit .modulesOnly m.1) found fs u =
          ((.ok (), found ++ (m.2.descriptor? fs).toList), w) :=
        Visit.from_bind_of_ok found fs u _ hm
      obtain ⟨before, w', hms, hw'⟩ := ih (found ++ (m.2.descriptor? fs).toList) (hw ▸ hc)
        fun m hm => hms m (List.mem_cons_of_mem _ hm)
      refine ⟨before, w', ?_, hw'.trans hw⟩
      rw [Visit.from_bind_of_ok found fs u _ hwalk, ← List.forM_eq_forM, hms, List.filterMap_cons]
      cases m.2.descriptor? fs <;> simp

/-- A scan of an image that opens finds what its contents have, if it ends. -/
theorem on_scan (hopen : Image.openContents.run.on fs u = (.ok c, v)) :
    ∃ w, scan.run.on fs u = ((c.scanned fs).map (·, none), w) ∧ w.image = v.image := by
  have hc := Image.contents_of_open hopen
  obtain ⟨before, w, hwalk, hw⟩ :=
    @from_walk_modules c fs v [] hc _ fun m hm => NameMap.mem_entries_iff.1 hm
  refine ⟨w, ?_, hw⟩
  have hrun : (Image.walkFrom [] visit .modulesOnly).on fs u =
      Image.walkEnd (Visit.from (c.walk visit .modulesOnly) [] fs v) := by
    rw [Image.on_walkFrom_eq, Image.from_walk hopen]
  have hcontents : Visit.from (c.walk visit .modulesOnly) [] fs v = _ := hwalk
  have hfatal := @Contents.isFatal_of_scanned fs c
  unfold scan
  rw [Image.Query.on_bind_of_ok fs u _ (Image.Query.on_lift fs u _), hrun, hcontents]
  unfold Contents.scanned at hfatal ⊢
  cases hend : c.modules.entries.findSome? fun m => m.2.fatal? fs with
  | none => rfl
  | some e =>
    rw [hend] at hfatal
    simp only [Image.walkEnd, hfatal rfl, if_true]
    rfl

/-- An image that does not open is not scanned. -/
theorem on_scan_of_error {e : Image.Error} (hopen : Image.openContents.run.on fs u = (.error e, v)) :
    scan.run.on fs u = (.ok ([], some e), v) := by
  have hwalk : Visit.from (Image.walk visit .modulesOnly) [] fs u = ((.error e, []), v) :=
    Visit.from_bind_of_error [] fs u _ (by rw [Visit.from_ofQuery, hopen])
  have hrun : (Image.walkFrom [] visit .modulesOnly).on fs u = ((some e, []), v) := by
    rw [Image.on_walkFrom_eq, hwalk]
    rfl
  have hsurvived : e.isFatal = false := Image.survived_openContents fs u e (by rw [hopen])
  unfold scan
  rw [Image.Query.on_bind_of_ok fs u _ (Image.Query.on_lift fs u _), hrun]
  dsimp only
  rw [if_neg (Bool.eq_false_iff.1 hsurvived)]
  rfl

/-! ## Registering -/

/-- The path that an image is registered under. -/
def keyOf (fs : FileSystem) (i : Image) : String :=
  i.canonical.getD (Image.canonicalOf fs i.root)

theorem on_canonicalPath (fs : FileSystem) (u : Use) : Image.canonicalPath.on fs u =
    (keyOf fs u.image,
      { u with image := { u.image with canonical := some (keyOf fs u.image) } }) := by
  unfold Image.canonicalPath keyOf
  rw [Image.Step.on_bind, Image.Step.on_current]
  obtain ⟨⟨root, canonical, normalized, contents, overlay, reported⟩, notices⟩ := u
  cases canonical <;> rfl

theorem image_canonicalPath (fs : FileSystem) (u : Use) : (Image.canonicalPath.on fs u).2.image =
    { u.image with canonical := some (keyOf fs u.image) } := by
  rw [on_canonicalPath]

/-- The modules registered under a path. -/
def modulesAt (r : Registry) (key : String) : Option Index := (r.snapshot? key).map (·.modules)

theorem modulesAt_publish (r : Registry) (key : String) (ds : List ModuleDescriptor) :
    (r.publish key ds).modulesAt key = some (.ofList ds) := by
  unfold modulesAt snapshot? publish
  dsimp only
  rw [List.lookup_cons_self]
  rfl

/-- The modules registered after a scan, by those before it and what it finds. -/
def afterScan (before : Option Index) (ds : List ModuleDescriptor) : Option Index :=
  if ds.isEmpty then before else some (.ofList ds)

/-- Registering descriptors, case by case. -/
theorem on_publishFound (key : String) (found : List ModuleDescriptor) (r : Registry)
    (fs : FileSystem) (u : Use) :
    ModuleStep.on (publishFound key found) r fs u =
      if found.isEmpty then ((r.snapshot? key, r), ⟨u.image, u.notices ++ [.emptyScan]⟩)
      else ((some (r.nextSnapshot key found), r.publish key found),
        ⟨u.image, u.notices ++ [.registered]⟩) := by
  unfold publishFound
  cases found <;> rfl

/-- Registering what a scan finds, case by case. -/
theorem on_publishScan_eq (r : Registry) (key : String) (fs : FileSystem) (u : Use) :
    ModuleStep.on (publishScan key) r fs u =
      match scan.run.on fs u with
      | (.error e, w) => ((.error e, r), w)
      | (.ok (found, error?), w) =>
        let notices := w.notices ++ if error?.isSome then [.brokenScan] else []
        let published := ModuleStep.on (publishFound key found) r fs ⟨w.image, notices⟩
        ((.ok published.1.1, published.1.2), published.2) := by
  unfold publishScan
  rw [ModuleStep.on_bind, ModuleStep.on_lift]
  rcases scan.run.on fs u with ⟨e | ⟨found, error?⟩, w⟩
  · rfl
  · cases error? with
    | none =>
      simp only [Option.isSome_none, Bool.false_eq_true, if_false, List.append_nil]
      rfl
    | some e => rfl

/-- What a scan finds is registered. -/
theorem on_publishScan (r : Registry) (key : String)
    (hopen : Image.openContents.run.on fs u = (.ok c, v)) :
    ∃ outcome r' w, ModuleStep.on (publishScan key) r fs u = ((outcome, r'), w) ∧
      r'.modulesAt key = afterScan (r.modulesAt key) (c.declared fs) ∧ w.image = v.image := by
  obtain ⟨w, hscan, hw⟩ := on_scan hopen
  rw [on_publishScan_eq, hscan, Contents.declared]
  cases c.scanned fs with
  | error e => exact ⟨_, _, _, rfl, rfl, hw⟩
  | ok found =>
    simp only [Except.map, on_publishFound, afterScan, Except.toOption, Option.getD_some]
    cases found with
    | nil => exact ⟨_, _, _, rfl, rfl, hw⟩
    | cons d ds => exact ⟨_, _, _, rfl, modulesAt_publish r _ _, hw⟩

/-- The modules registered after a load, by those before it and what a scan finds. -/
def afterLoad (again : Bool) (before : Option Index) (ds : List ModuleDescriptor) : Option Index :=
  match before, again with
  | some m, false => some m
  | _, _ => afterScan before ds

/-- A load, case by case: the snapshot is kept if there is one and no other is wanted; else the
    image is scanned. -/
theorem on_loadModules_eq (again : Bool) (r : Registry) (fs : FileSystem) (u : Use) :
    ModuleStep.on (loadModules again) r fs u =
      match r.snapshot? (keyOf fs u.image), again with
      | some s, false => ((.ok (some s), r), (Image.canonicalPath.on fs u).2)
      | _, _ =>
        ModuleStep.on (publishScan (keyOf fs u.image)) r fs (Image.canonicalPath.on fs u).2 := by
  unfold loadModules
  rw [ModuleStep.on_bind, ModuleStep.on_lift, ModuleStep.on_bind, ModuleStep.on_get, on_canonicalPath]
  dsimp only
  cases r.snapshot? (keyOf fs u.image) <;> cases again <;> rfl

/-- A load of an image that opens leaves it as opening it does, or does not even open it. -/
theorem on_loadModules (again : Bool) (r : Registry)
    (hopen : Image.openContents.run.on fs (Image.canonicalPath.on fs u).2 = (.ok c, v)) :
    ∃ outcome r' w, ModuleStep.on (loadModules again) r fs u = ((outcome, r'), w) ∧
      r'.modulesAt (keyOf fs u.image) =
        afterLoad again (r.modulesAt (keyOf fs u.image)) (c.declared fs) ∧
      (w.image = v.image ∨ w.image = (Image.canonicalPath.on fs u).2.image) := by
  obtain ⟨outcome, r', w, hscan, hr, hw⟩ := on_publishScan r (keyOf fs u.image) hopen
  rw [on_loadModules_eq]
  unfold modulesAt at hr ⊢
  cases hsnapshot : r.snapshot? (keyOf fs u.image) with
  | none =>
    rw [hsnapshot] at hr
    exact ⟨outcome, r', w, hscan, hr, .inl hw⟩
  | some s =>
    cases again with
    | true =>
      rw [hsnapshot] at hr
      exact ⟨outcome, r', w, hscan, hr, .inl hw⟩
    | false => exact ⟨.ok (some s), r, _, rfl, by rw [hsnapshot]; rfl, .inr rfl⟩

/-- The snapshot of an image, by the path it is registered under. -/
theorem on_snapshot? (r : Registry) (fs : FileSystem) (u : Use) :
    ModuleStep.on Entry.snapshot? r fs u =
      ((r.snapshot? (keyOf fs u.image), r), (Image.canonicalPath.on fs u).2) := by
  unfold Entry.snapshot?
  rw [ModuleStep.on_bind, ModuleStep.on_lift, on_canonicalPath]
  rfl

theorem on_getModule (r : Registry) (fs : FileSystem) (u : Use) (name : String) :
    ModuleStep.on (Entry.getModule name) r fs u =
      (((r.modulesAt (keyOf fs u.image)).bind fun m => Snapshot.get? ⟨"", 0, m⟩ name, r),
        (Image.canonicalPath.on fs u).2) := by
  unfold Entry.getModule
  rw [ModuleStep.on_bind, on_snapshot?, modulesAt]
  cases r.snapshot? (keyOf fs u.image) <;> rfl

theorem on_servesModule (r : Registry) (fs : FileSystem) (u : Use) (name : String) :
    ModuleStep.on (Entry.servesModule name) r fs u =
      ((((r.modulesAt (keyOf fs u.image)).map (·.contains name)).getD false, r),
        (Image.canonicalPath.on fs u).2) := by
  unfold Entry.servesModule
  rw [ModuleStep.on_bind, on_snapshot?, modulesAt]
  cases r.snapshot? (keyOf fs u.image) <;> rfl

end Registry

end PlatformImage
