import PlatformImage.Proofs.Alike
import PlatformImage.Proofs.Moves
/-! Both layouts of the same modules answer alike.

Most of what is asked for depends only on the names of the modules and on their trees,
which are the same in both layouts. What is read from a module is the same too, for any
path that does not end in a `/`. A path that does leads to nothing in a directory, and in
an archive at most to the empty entry of a directory, which holds no type. -/
namespace PlatformImage

namespace Image

section
variable {fs : FileSystem} {c d : Contents}

/-! ## What depends on names and trees -/

namespace Contents.Counterparts

theorem map_eq (h : c.Counterparts fs d) {α : Type} {f : String × Module → α}
    (hf : ∀ a b, a.1 = b.1 → Counterpart fs a.2 b.2 → f a = f b) :
    c.modules.entries.map f = d.modules.entries.map f := by
  have hmap : List.Forall₂ Eq (c.modules.entries.map f) (d.modules.entries.map f) := by
    rw [List.forall₂_map_left_iff, List.forall₂_map_right_iff]
    exact h.imp fun a b hab => hf a b hab.1 hab.2
  rwa [List.forall₂_eq_eq_eq] at hmap

theorem admitted (h : c.Counterparts fs d) (admits : String → Bool) :
    List.Forall₂ (fun a b => a.1 = b.1 ∧ Counterpart fs a.2 b.2) (c.admitted admits)
      (d.admitted admits) := by
  refine List.rel_filter (fun a b hab => ?_) h
  change admits a.1 ↔ admits b.1
  rw [hab.1]

theorem keys_eq (h : c.Counterparts fs d) : c.modules.keys = d.modules.keys :=
  h.map_eq fun _ _ hname _ => hname

/-- A walk is the same walk, whoever visits. -/
theorem walk_eq (h : c.Counterparts fs d) {m : Type → Type} [Monad m] [LawfulMonad m]
    (visit : Event → m Answer) (mode : Mode) : c.walk visit mode = d.walk visit mode := by
  have hwalks := h.map_eq (f := fun a => a.2.walk visit mode a.1) fun a b hname hmodule => by
    unfold Module.walk
    rw [hname, hmodule.tree]
  have hforM (c : Contents) : c.walk visit mode =
      (c.modules.entries.map fun a => a.2.walk visit mode a.1).forM id := by
    rw [List.forM_eq_forM, List.forM_map]
    rfl
  rw [hforM, hforM, hwalks]

theorem any_hasPackage_eq (h : c.Counterparts fs d) (admits : String → Bool) (package : String) :
    (c.admitted admits).any (fun m => m.2.hasPackage package) =
      (d.admitted admits).any fun m => m.2.hasPackage package := by
  have hmodules := h.map_eq (f := fun m => admits m.1 && m.2.hasPackage package)
    fun a b hname hmodule => by
      unfold Module.hasPackage
      rw [hname, hmodule.tree]
  have hany (c : Contents) : (c.admitted admits).any (fun m => m.2.hasPackage package) =
      (c.modules.entries.map fun m => admits m.1 && m.2.hasPackage package).any id := by
    rw [Contents.admitted, List.any_filter, List.any_map]
    rfl
  rw [hany, hany, hmodules]

/-- A scan finds the same, and ends alike: descriptors are right inside the roots of modules. -/
theorem declared_eq (h : c.Counterparts fs d) : c.declared fs = d.declared fs := by
  have hmodules := h.map_eq (f := fun m => (m.2.descriptor? fs, (m.2.fatal? fs).isSome))
    fun a b _ hmodule => by
      have hread : a.2.read fs descriptorFile = b.2.read fs descriptorFile :=
        hmodule.file descriptorFile (by decide) hmodule.rooted (by decide)
      unfold Module.descriptor? Module.fatal?
      rw [hread]
  have hdeclared (c : Contents) : c.declared fs =
      let reads := c.modules.entries.map fun m => (m.2.descriptor? fs, (m.2.fatal? fs).isSome)
      if reads.any (·.2) then [] else reads.filterMap (·.1) := by
    dsimp only
    rw [List.any_map, List.filterMap_map]
    unfold Contents.declared Contents.scanned
    cases hfirst : c.modules.entries.findSome? fun m => m.2.fatal? fs with
    | some e =>
      obtain ⟨m, hm, hend⟩ := List.exists_of_findSome?_eq_some hfirst
      rw [if_pos (List.any_eq_true.2 ⟨m, hm, by simp [hend]⟩)]
      rfl
    | none =>
      rw [if_neg, Except.toOption, Option.getD_some]
      · rfl
      · rw [Bool.not_eq_true, List.any_eq_false]
        intro m hm
        simp [List.findSome?_eq_none_iff.1 hfirst m hm]
  rw [hdeclared, hdeclared, hmodules]

end Contents.Counterparts

/-! ## What is read -/

/-- The same is read, or nothing where an archive has an empty entry. -/
def SameRead (r r' : Except Error (Option BinaryUnit)) : Prop :=
  r = r' ∨ r = .ok none ∧ ∃ m, r' = .ok (some ⟨m, []⟩)

section
variable {ms ms' : List (String × Module)} {name : String}

theorem firstUnit_eq (h : List.Forall₂ (fun a b => a.1 = b.1 ∧ Counterpart fs a.2 b.2) ms ms')
    (hrelative : Path.isAbsolute name = false) (hlast : name.toList.getLast? ≠ some '/') :
    firstUnit fs name ms = firstUnit fs name ms' := by
  induction h with
  | nil => rfl
  | @cons a b ms ms' hab _ ih =>
    obtain ⟨key, m⟩ := a
    obtain ⟨key', m'⟩ := b
    obtain ⟨rfl, hmodule⟩ : key = key' ∧ Counterpart fs m m' := hab
    rw [firstUnit, firstUnit, ← hmodule.tree, ih]
    split
    · next hfolder => rw [hmodule.file name hrelative hfolder hlast]
    · rfl

/-- No path that ends in a `/` leads to a file of a directory. -/
theorem firstUnit_eq_none (h : List.Forall₂ (fun a b => a.1 = b.1 ∧ Counterpart fs a.2 b.2) ms ms')
    (hrelative : Path.isAbsolute name = false) (hlast : name.toList.getLast? = some '/') :
    firstUnit fs name ms = .ok none := by
  induction h with
  | nil => rfl
  | @cons a b ms ms' hab _ ih =>
    obtain ⟨key, m⟩ := a
    rw [firstUnit, ih]
    split
    · next hfolder => rw [(hab.2.folder name hrelative hfolder hlast).1]
    · rfl

theorem firstUnit_archive (h : List.Forall₂ (fun a b => a.1 = b.1 ∧ Counterpart fs a.2 b.2) ms ms')
    (hrelative : Path.isAbsolute name = false) (hlast : name.toList.getLast? = some '/') :
    firstUnit fs name ms' = .ok none ∨ ∃ m, firstUnit fs name ms' = .ok (some ⟨m, []⟩) := by
  induction h with
  | nil => exact .inl rfl
  | @cons a b ms ms' hab _ ih =>
    obtain ⟨key, m⟩ := b
    rw [firstUnit, ← hab.2.tree]
    split
    · next hfolder =>
      rcases (hab.2.folder name hrelative hfolder hlast).2 with hread | hread <;> rw [hread]
      · exact ih
      · exact .inr ⟨key, rfl⟩
    · exact ih

end

theorem sameRead_firstUnit (h : c.Counterparts fs d) {name : String}
    (hrelative : Path.isAbsolute name = false) (admits : String → Bool) :
    SameRead (firstUnit fs name (c.admitted admits)) (firstUnit fs name (d.admitted admits)) := by
  by_cases hlast : name.toList.getLast? = some '/'
  · rw [firstUnit_eq_none (h.admitted admits) hrelative hlast]
    rcases firstUnit_archive (h.admitted admits) hrelative hlast with hread | hread
    · exact .inl hread.symm
    · exact .inr ⟨rfl, hread⟩
  · exact .inl (firstUnit_eq (h.admitted admits) hrelative hlast)

end

/-! ## Queries of an image -/

section
variable {fs : FileSystem} {root root' : String} {c d : Contents}
  (hroots : SameModules fs root root' c d)
include hroots

theorem answersAlike_moduleNames : AnswersAlike fs root root' moduleNames.run := by
  refine Relates.opening hroots ?_
  rw [hroots.counterparts.keys_eq]
  exact AnswersAlike.pure (Except.ok d.modules.keys)

theorem answersAlike_isPackage (package : String) (filter : Filter) :
    AnswersAlike fs root root' (isPackage package filter).run := by
  unfold isPackage
  dsimp only
  split
  · exact AnswersAlike.pure (Except.ok false)
  · refine Relates.opening hroots ?_
    rw [hroots.counterparts.any_hasPackage_eq]
    exact AnswersAlike.pure (Except.ok _)

theorem relates_readUnit {name : String} (hrelative : Path.isAbsolute name = false)
    (filter : Filter) :
    Relates fs root root' SameRead (readUnit name filter).run (readUnit name filter).run := by
  intro u v halike
  obtain ⟨u', v', hu, hv, hopen⟩ := halike.open hroots
  rw [on_readUnit hu, on_readUnit hv]
  exact ⟨sameRead_firstUnit hroots.counterparts hrelative filter.admits, hopen⟩

/-- A walk of a visitor that answers alike brings the same. -/
theorem answersAlike_walkFrom {σ : Type} (start : σ) {visit : Event → Visit σ Answer}
    (hvisit : ∀ e, Visit.AnswersAlike fs root root' (visit e)) (mode : Mode) :
    AnswersAlike fs root root' (walkFrom start visit mode) := by
  intro u v halike
  obtain ⟨u', v', hu, hv, hopen⟩ := halike.open hroots
  -- Both walks are through the same contents now, from images that are alike.
  obtain ⟨hsame, hafter⟩ := Visit.AnswersAlike.closed.walk hvisit mode c start u' v' hopen
  rw [on_walkFrom_eq, on_walkFrom_eq, from_walk hu, from_walk hv, ← hroots.counterparts.walk_eq]
  rcases hfirst : Visit.from (c.walk visit mode) start fs u' with ⟨⟨outcome, s⟩, w⟩
  rcases hsecond : Visit.from (c.walk visit mode) start fs v' with ⟨answer, w'⟩
  rw [hfirst, hsecond] at hsame hafter
  obtain rfl : (outcome, s) = answer := hsame
  cases outcome <;> exact ⟨rfl, hafter⟩

end

end Image

/-! ## Lookups of an entry -/

namespace Entry

open Image (Relates AnswersAlike SameModules BinaryUnit)

variable {fs : FileSystem} {root root' : String} {c d : Image.Contents}

/-- Which annotations a type gets depends on the overlays, and on which one is open. -/
theorem answersAlike_attachOverlays (typePath : String) (overlays : List String)
    (t : ClassFile.BinaryType) :
    AnswersAlike fs root root' (attachOverlays typePath t overlays).run := by
  induction overlays with
  | nil => exact AnswersAlike.pure (Except.ok t)
  | cons overlay rest ih =>
    intro u v halike
    -- The same overlay is open in both, so both attach the same and open the same.
    rw [on_attachOverlays_cons, on_attachOverlays_cons, ← halike.overlay]
    obtain ⟨outcome, slot⟩ := Overlay.lookUp fs overlay typePath u.image.overlay
    have hafter := halike.setOverlay slot
    cases outcome with
    | ok content? =>
      cases content? with
      | none => exact ih _ _ hafter
      | some content => exact ⟨rfl, hafter⟩
    | error e =>
      dsimp only
      split
      · exact ⟨rfl, hafter⟩
      · exact ih _ _ hafter

theorem relates_typeIn {e e' : Entry} (hrules : e.rules = e'.rules)
    (hpaths : e.annotationPaths = e'.annotationPaths) (unit : String) (found : BinaryUnit) :
    Relates fs root root' Eq (e.typeIn unit found).run (e'.typeIn unit found).run := by
  unfold typeIn
  rw [hrules, hpaths]
  cases ClassFile.BinaryType.parse found.content with
  | error why => exact Relates.note _ (Relates.pure rfl)
  | ok t =>
    exact AnswersAlike.query (answersAlike_attachOverlays _ _ t) fun t =>
      AnswersAlike.pure (Except.ok _)

section
variable (hroots : SameModules fs root root' c d)
include hroots

theorem answersAlike_isPackage (package : String) (filter : Image.Filter) :
    AnswersAlike fs root root' (isPackage package filter) := by
  refine AnswersAlike.bind (Image.answersAlike_isPackage hroots package filter) fun outcome => ?_
  cases outcome with
  | ok found => exact AnswersAlike.pure found
  | error e => exact Relates.note _ (AnswersAlike.pure false)

theorem answersAlike_findTypeNames (package : String) (filter : Image.Filter) :
    AnswersAlike fs root root' (findTypeNames package filter) := by
  refine AnswersAlike.bind (answersAlike_isPackage hroots _ filter) fun found => ?_
  cases found with
  | false => exact AnswersAlike.pure none
  | true =>
    have hvisit (e : Image.Event) : Image.Visit.AnswersAlike fs root root'
        (Collector.visit ⟨Image.packagePath package, filter⟩ e) :=
      Image.Visit.AnswersAlike.own fun names =>
        (.ok (Collector.answer _ e), (Collector.collect _ names e).2)
    refine AnswersAlike.bind (Image.answersAlike_walkFrom hroots [] hvisit .everything)
      fun result => ?_
    obtain ⟨error?, names⟩ := result
    cases error? with
    | none => exact AnswersAlike.pure _
    | some e => exact Relates.note _ (AnswersAlike.pure _)

/-- The same file is found, or none where an archive has an empty entry. -/
theorem relates_readUnit? {unit : String} (hrelative : Path.isAbsolute unit = false)
    (filter : Image.Filter) : Relates fs root root' Image.SameRead (readUnit? unit filter).run
      (readUnit? unit filter).run := by
  intro u v halike
  obtain ⟨hread, hafter⟩ := Image.relates_readUnit hroots hrelative filter u v halike
  rw [on_readUnit?_eq, on_readUnit?_eq]
  generalize (Image.readUnit unit filter).run.on fs u = left at hread hafter ⊢
  generalize (Image.readUnit unit filter).run.on fs v = right at hread hafter ⊢
  obtain ⟨r, u'⟩ := left
  obtain ⟨r', v'⟩ := right
  dsimp only at hread
  rcases hread with rfl | ⟨rfl, m, rfl⟩
  · cases r with
    | ok found => exact ⟨.inl rfl, hafter⟩
    | error e =>
      unfold unread
      dsimp only
      split <;> exact ⟨.inl rfl, hafter⟩
  · exact ⟨.inr ⟨rfl, m, rfl⟩, hafter⟩

theorem relates_findType {e e' : Entry} (hrules : e.rules = e'.rules)
    (hpaths : e.annotationPaths = e'.annotationPaths) (package : String) {unit : String}
    (hrelative : Path.isAbsolute unit = false) (filter : Image.Filter) :
    Relates fs root root' Eq (e.findType package unit filter).run
      (e'.findType package unit filter).run := by
  rw [findType_eq_typeIn, findType_eq_typeIn]
  refine Relates.lift (answersAlike_isPackage hroots package filter) fun found _ hfound => ?_
  subst hfound
  cases found with
  | false => exact Relates.pure rfl
  | true =>
    simp only [Bool.not_true, Bool.false_eq_true, if_false]
    refine Relates.query (relates_readUnit? hroots hrelative filter) fun r r' hr => ?_
    rcases hr with rfl | ⟨rfl, m, rfl⟩
    · cases r with
      | error why => exact Relates.pure rfl
      | ok found? =>
        cases found? with
        | none => exact Relates.pure rfl
        | some found => exact relates_typeIn hrules hpaths unit found
    · -- No type can be read from an empty entry.
      exact fun u v halike => ⟨rfl, halike⟩

end

end Entry

/-! ## Registered modules -/

namespace Registry

open Entry (ModuleStep)
open Image (Contents SameModules UpToDate Use)

/-- Images that are alike, and registries with the same modules for them. -/
structure Alike (fs : FileSystem) (root root' : String) (r r' : Registry) (i j : Image) : Prop where
  images : Image.Alike fs root root' i j
  modules : r.modulesAt (keyOf fs i) = r'.modulesAt (keyOf fs j)

/-- From images and registries that are alike, a step gives the same answer, and it leaves
    them alike. -/
def AnswersAlike (fs : FileSystem) (root root' : String) {α : Type} (x : ModuleStep α) : Prop :=
  ∀ (r r' : Registry) (u v : Use), Registry.Alike fs root root' r r' u.image v.image →
    (x.on r fs u).1.1 = (x.on r' fs v).1.1 ∧
      Registry.Alike fs root root' (x.on r fs u).1.2 (x.on r' fs v).1.2 (x.on r fs u).2.image
        (x.on r' fs v).2.image

section
variable {fs : FileSystem} {root root' : String} {c d : Contents} {r r' : Registry} {u v : Use}

theorem Alike.setCanonical (h : Registry.Alike fs root root' r r' u.image v.image) :
    Registry.Alike fs root root' r r' (Image.canonicalPath.on fs u).2.image
      (Image.canonicalPath.on fs v).2.image := by
  rw [image_canonicalPath, image_canonicalPath]
  exact ⟨⟨h.images.left.setCanonical _, h.images.right.setCanonical _, h.images.overlay⟩, h.modules⟩

/-- A load of an image that is up to date leaves it so. -/
theorem on_loadModules_upToDate (again : Bool) (r : Registry) (h : UpToDate fs root u.image)
    (hc : Contents.ofRoot fs root = .ok ⟨c, []⟩) :
    ∃ outcome r' w, ModuleStep.on (loadModules again) r fs u = ((outcome, r'), w) ∧
      r'.modulesAt (keyOf fs w.image) =
        afterLoad again (r.modulesAt (keyOf fs u.image)) (c.declared fs) ∧
      UpToDate fs root w.image ∧ w.image.overlay = u.image.overlay := by
  -- A load asks for the canonical path first, and then may open the image.
  have hcanonical : UpToDate fs root (Image.canonicalPath.on fs u).2.image := by
    rw [image_canonicalPath]
    exact h.setCanonical _
  obtain ⟨v, hopen, hv⟩ := hcanonical.open hc
  obtain ⟨outcome, r', w, hload, hmodules, hw⟩ := on_loadModules again r hopen
  refine ⟨outcome, r', w, hload, ?_⟩
  rcases hw with hw | hw <;> rw [hw]
  · rw [hv, image_canonicalPath]
    exact ⟨hmodules, (h.setCanonical _).setContents hc, rfl⟩
  · rw [image_canonicalPath]
    exact ⟨hmodules, h.setCanonical _, rfl⟩

theorem answersAlike_getModule (name : String) :
    AnswersAlike fs root root' (Entry.getModule name) := by
  intro r r' u v halike
  rw [on_getModule, on_getModule, halike.modules]
  exact ⟨rfl, halike.setCanonical⟩

theorem answersAlike_servesModule (name : String) :
    AnswersAlike fs root root' (Entry.servesModule name) := by
  intro r r' u v halike
  rw [on_servesModule, on_servesModule, halike.modules]
  exact ⟨rfl, halike.setCanonical⟩

/-- After a load the same modules are registered, so that what is asked then is answered
    alike. -/
theorem AnswersAlike.afterLoad (hroots : SameModules fs root root' c d) {α : Type}
    {x : ModuleStep α} (h : AnswersAlike fs root root' x) (again : Bool) :
    AnswersAlike fs root root' (loadModules again *> x) := by
  intro r r' u v halike
  obtain ⟨s, r₁, w, hload, hr, hup, hover⟩ :=
    on_loadModules_upToDate again r halike.images.left hroots.left
  obtain ⟨s', r₁', w', hload', hr', hup', hover'⟩ :=
    on_loadModules_upToDate again r' halike.images.right hroots.right
  rw [ModuleStep.on_seqRight, ModuleStep.on_seqRight, hload, hload']
  refine h r₁ r₁' w w' ⟨⟨hup, hup', ?_⟩, ?_⟩
  · rw [hover, hover', halike.images.overlay]
  · rw [hr, hr', halike.modules, hroots.counterparts.declared_eq]

end

end Registry

/-! ## Both layouts -/

namespace Image

/-- **The two layouts answer alike.** Take modules with ordinary names and files, a root
    with a directory for each and a root with an archive for each. From images of these
    roots and registries that are alike, such as new images and empty registries, everything
    that is asked for is answered alike and leaves them alike: the names of the modules; a
    walk, in what it makes of any visitor and in the error that ends it; whether there is a
    package, and the names of its types; a type, for rules and overlays that are the same;
    and after a load the registered modules. -/
theorem layouts_answer_alike {fs : FileSystem} {exploded archived : String} {ms : Sources}
    (hms : ms.Plain) (hexploded : Exploded fs exploded ms) (harchived : Archived fs archived ms) :
    Registry.Alike fs exploded archived .empty .empty (.new exploded) (.new archived) ∧
    (AnswersAlike fs exploded archived moduleNames.run ∧
      ∃ names : List String, names.Perm (ms.map (·.1)) ∧
        ∀ u v : Use, Alike fs exploded archived u.image v.image →
          (moduleNames.run.on fs u).1 = .ok names ∧ (moduleNames.run.on fs v).1 = .ok names) ∧
    (∀ {σ : Type} (start : σ) (visit : Event → σ → Except Error Answer × σ) (mode : Mode),
      AnswersAlike fs exploded archived (walkFrom start (fun e => Visit.own (visit e)) mode)) ∧
    (∀ (package : String) (filter : Filter),
      AnswersAlike fs exploded archived (isPackage package filter).run ∧
      AnswersAlike fs exploded archived (Entry.isPackage package filter) ∧
      AnswersAlike fs exploded archived (Entry.findTypeNames package filter)) ∧
    (∀ (e e' : Entry) (package unit : String) (filter : Filter), e.rules = e'.rules →
      e.annotationPaths = e'.annotationPaths → Path.isAbsolute unit = false →
      Relates fs exploded archived Eq (e.findType package unit filter).run
        (e'.findType package unit filter).run) ∧
    ∀ (again : Bool) (name : String),
      Registry.AnswersAlike fs exploded archived
        (Registry.loadModules again *> Entry.getModule name) ∧
      Registry.AnswersAlike fs exploded archived
        (Registry.loadModules again *> Entry.servesModule name) := by
  obtain ⟨c, d, hc, hd, hcounterparts, hkeys⟩ := ofRoot_counterparts hms hexploded harchived
  have hroots : SameModules fs exploded archived c d := ⟨hc, hd, hcounterparts⟩
  refine ⟨⟨Alike.new fs exploded archived, rfl⟩,
    ⟨answersAlike_moduleNames hroots, c.modules.keys, hkeys, fun u v halike => ?_⟩,
    fun start visit mode => ?_, fun package filter => ⟨?_, ?_, ?_⟩,
    fun e e' package unit filter hrules hpaths hrelative => ?_, fun again name => ⟨?_, ?_⟩⟩
  · obtain ⟨u', v', hu, hv, -⟩ := halike.open hroots
    unfold moduleNames
    rw [Query.on_bind_of_ok fs u _ hu, Query.on_bind_of_ok fs v _ hv, hcounterparts.keys_eq]
    exact ⟨rfl, rfl⟩
  · exact answersAlike_walkFrom hroots start (fun e => Visit.AnswersAlike.own (visit e)) mode
  · exact answersAlike_isPackage hroots package filter
  · exact Entry.answersAlike_isPackage hroots package filter
  · exact Entry.answersAlike_findTypeNames hroots package filter
  · exact Entry.relates_findType hroots hrules hpaths package hrelative filter
  · exact (Registry.answersAlike_getModule name).afterLoad hroots again
  · exact (Registry.answersAlike_servesModule name).afterLoad hroots again

/-- New images of both roots name the one module, and search its folder alike. -/
theorem layouts_answer_alike_bothLayouts :
    Sources.Plain [("m", inFolder)] ∧ Exploded bothLayouts "/exploded" [("m", inFolder)] ∧
    Archived bothLayouts "/archived" [("m", inFolder)] ∧
    ((moduleNames.run.on bothLayouts ⟨.new "/exploded", []⟩).1 = .ok ["m"] ∧
      (moduleNames.run.on bothLayouts ⟨.new "/archived", []⟩).1 = .ok ["m"]) ∧
    AnswersAlike bothLayouts "/exploded" "/archived" (Entry.findTypeNames "a" .all) := by
  have hplain : Sources.Plain [("m", inFolder)] :=
    ⟨by decide, by simp; decide, by simp [inFolder, plain]; decide⟩
  obtain ⟨hnew, ⟨-, names, hperm, hnames⟩, -, hpackages, -⟩ :=
    layouts_answer_alike hplain exploded_bothLayouts archived_bothLayouts
  obtain rfl := List.perm_singleton.1 hperm
  exact ⟨hplain, exploded_bothLayouts, archived_bothLayouts,
    hnames ⟨.new "/exploded", []⟩ ⟨.new "/archived", []⟩ hnew.images, (hpackages "a" .all).2.2⟩

end Image

end PlatformImage
