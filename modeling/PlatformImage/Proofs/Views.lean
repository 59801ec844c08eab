import PlatformImage.Proofs.Alike
import PlatformImage.Proofs.Filters
import PlatformImage.Proofs.Handles
import PlatformImage.Proofs.Publications
/-! What the view of one module may answer, while the files stay as they are.

Modules are served by the names that descriptors declare, and looked up by the names that they have
in the image, which need not be the same. So the view of a name answers only if some descriptor
declares it, and then from the module of that name, which may declare another one
(`view_swapped`). If no other module declares the name, it is that one that does
(`view_of_module`). -/
namespace PlatformImage

open ClassFile (ModuleDescriptor)

namespace Image

section
variable {fs : FileSystem} {overlays : String → Prop} {mayClose : Prop} {u v : Use} {i : Image}
  {c : Contents}

/-- What opening the root of an image finds. -/
def Finds (fs : FileSystem) (i : Image) (c : Contents) : Prop :=
  ∃ skipped, Contents.ofRoot fs i.root = .ok ⟨c, skipped⟩

theorem Finds.of_root {j : Image} (h : j.Finds fs c) (hroot : j.root = i.root) : i.Finds fs c := by
  rwa [Finds, ← hroot]

/-- While the files stay as they are, what an image has open is what is at its root. -/
theorem Moves.upToDate (hmoves : Moves fs overlays mayClose u v)
    (h : UpToDate fs u.image.root u.image) : UpToDate fs v.image.root v.image := by
  refine ⟨rfl, fun c hc => ?_⟩
  rw [hmoves.root]
  rcases hmoves.contents with hsame | hnone | ⟨found, hfound, hopened⟩
  · exact h.contents c (hsame ▸ hc)
  · cases hnone.symm.trans hc
  · cases hopened.symm.trans hc
    exact ⟨found.skipped, hfound⟩

theorem UpToDate.finds (h : UpToDate fs u.image.root u.image)
    (hopen : openContents.run.on fs u = (.ok c, v)) : u.image.Finds fs c := by
  rw [on_openContents] at hopen
  cases hcontents : u.image.contents with
  | some c' =>
    rw [hcontents] at hopen
    cases hopen
    exact h.contents _ hcontents
  | none =>
    rw [hcontents] at hopen
    rcases hfound : Contents.ofRoot fs u.image.root with e | found
    · rw [hfound] at hopen
      cases e <;> cases hopen
    · rw [hfound] at hopen
      cases hopen
      exact ⟨found.skipped, hfound⟩

/-- So what opens is what is at the root, whatever was done before. -/
theorem UpToDate.finds_of_moves (h : UpToDate fs i.root i) {notices : List Notice}
    (hmoves : Moves fs overlays mayClose ⟨i, notices⟩ u)
    (hopen : openContents.run.on fs u = (.ok c, v)) : i.Finds fs c :=
  ((hmoves.upToDate h).finds hopen).of_root hmoves.root

/-- What a scan finds is declared by the modules at the root. -/
theorem UpToDate.declares (h : UpToDate fs i.root i) {d : ModuleDescriptor}
    (hd : d ∈ i.declared fs) : ∃ c, i.Finds fs c ∧ c.Declares fs d.name := by
  have hmem (c : Contents) (hd : d ∈ (c.scanned fs).toOption.getD []) : c.Declares fs d.name := by
    rcases c.scanned_eq fs with ⟨-, hscanned⟩ | ⟨-, e, hscanned⟩ <;> rw [hscanned] at hd
    · exact Contents.declares_iff.2 ⟨d, hd, rfl⟩
    · cases hd
  unfold declared scanned at hd
  cases hcontents : i.contents with
  | some c =>
    rw [hcontents] at hd
    exact ⟨c, h.contents c hcontents, hmem c hd⟩
  | none =>
    rw [hcontents] at hd
    rcases hfound : Contents.ofRoot fs i.root with e | found
    · rw [hfound] at hd
      cases hd
    · rw [hfound] at hd
      exact ⟨found.contents, ⟨found.skipped, hfound⟩, hmem found.contents hd⟩

end

end Image

/-! ## Lookups in one module -/

namespace Entry

variable {fs : FileSystem} {u v : Image.Use} {c : Image.Contents} {m package unit : String}
  {filter : Image.Filter}

/-- An image that has a package opens. -/
theorem opens_of_isPackage (h : ((isPackage package filter).on fs u).1 = true) :
    ∃ c v, Image.openContents.run.on fs u = (.ok c, v) := by
  rcases hopen : Image.openContents.run.on fs u with ⟨outcome, v⟩
  cases outcome with
  | ok c => exact ⟨c, v, rfl⟩
  | error e =>
    have hnone : ((isPackage package filter).on fs u).1 = false := by
      unfold isPackage
      rw [Image.Step.on_bind]
      by_cases hempty : Image.packagePath package = ""
      · have hfalse : (Image.isPackage package filter).run.on fs u = (.ok false, u) := by
          rw [Image.isPackage, if_pos hempty]
          rfl
        rw [hfalse]
        rfl
      · have herror : (Image.isPackage package filter).run.on fs u = (.error e, v) := by
          rw [Image.isPackage, if_neg hempty]
          exact Image.Query.on_bind_of_error fs u _ hopen
        rw [herror]
        rfl
    rw [hnone] at h
    cases h

theorem isPackage_of_findType {e : Entry} {t : FoundType}
    (h : ((e.findType package unit filter).run.on fs u).1 = .ok (some t)) :
    ((isPackage package filter).on fs u).1 = true := by
  rw [findType_eq_typeIn,
    Image.Query.on_bind_of_ok fs u _ (Image.Query.on_lift fs u _)] at h
  cases hpackage : ((isPackage package filter).on fs u).1 with
  | true => rfl
  | false =>
    rw [hpackage] at h
    cases h

section
variable {i : Image} {overlays : String → Prop} {mayClose : Prop} {notices : List Notice}
  (hcurrent : Image.UpToDate fs i.root i)
  (hmoves : Image.Moves fs overlays mayClose ⟨i, notices⟩ u)
include hcurrent hmoves

/-- A package in a module of a name is in the one that goes by it at the root. -/
theorem of_isPackage_named (h : ((isPackage package (.named m)).on fs u).1 = true) :
    ∃ c owner, i.Finds fs c ∧ c.modules.get? m = some owner ∧
      owner.hasPackage (Image.packagePath package) = true := by
  obtain ⟨c, v, hopen⟩ := opens_of_isPackage h
  rw [on_isPackage hopen] at h
  split at h
  · cases h
  · obtain ⟨⟨name, owner⟩, hmem, hhas⟩ := List.any_eq_true.1 h
    obtain ⟨hget, hadmits⟩ := Image.mem_admitted.1 hmem
    rw [Image.admits_named, beq_iff_eq] at hadmits
    subst hadmits
    exact ⟨c, owner, hcurrent.finds_of_moves hmoves hopen, hget, hhas⟩

/-- A type found in a module of a name is in a file of it. -/
theorem of_findType_named {e : Entry} {t : FoundType}
    (h : ((e.findType package unit (.named m)).run.on fs u).1 = .ok (some t)) :
    t.module = m ∧ ∃ c owner content, i.Finds fs c ∧ c.modules.get? m = some owner ∧
      owner.read fs unit = .ok (some content) := by
  obtain ⟨c, v, hopen⟩ := opens_of_isPackage (isPackage_of_findType h)
  obtain ⟨-, -, content, hfound⟩ := of_findType_eq_some hopen h
  obtain ⟨owner, hmem, -, hread⟩ := Image.of_firstUnit_eq_some hfound
  obtain ⟨hget, hadmits⟩ := Image.mem_admitted.1 hmem
  rw [Image.admits_named, beq_iff_eq] at hadmits
  subst hadmits
  exact ⟨rfl, c, owner, content, hcurrent.finds_of_moves hmoves hopen, hget, hread⟩

end

end Entry

namespace Registry

/-- Publishing replaces what is served for one image. -/
theorem serves_publish_same {r : Registry} {path q m : String} {ds : List ModuleDescriptor} :
    (r.publish path ds).serves q m ↔
      if Path.same q path then ∃ d ∈ ds, d.name = m else r.serves q m = true := by
  unfold serves modulesAt
  rw [snapshot?_publish]
  split
  · exact Index.contains_ofList
  · rfl

end Registry

namespace Session

open Registry (keyOf)
open Entry (ModuleStep)

/-- A request that changes no file, and publishes at most what a load finds. -/
def Request.Quiet : Request → Prop
  | .write .. | .overwrite .. | .remove .. | .publish .. => False
  | _ => True

variable {fs : FileSystem} {s : Session} {path m : String} {c : Image.Contents}

theorem files_run {r : Request} (hquiet : r.Quiet) : (s.run r).session.files = s.files := by
  have hchange := change_run s r
  generalize (s.run r).session = s' at hchange
  generalize (s.run r).notices = notices at hchange
  cases hchange with
  | write | overwrite | remove | publish => exact hquiet.elim
  | aside | newImage | newEntry | configure | useImage => rfl
  | @useEntry name use before huse hbefore request => exact files_setRegister s _ use.register

/-- What opening the roots of the images of a canonical path finds. -/
def FindsAt (fs : FileSystem) (s : Session) (path : String) (c : Image.Contents) : Prop :=
  ∃ (number : Nat) (image : Image), s.images[number]? = some image ∧
    Path.same path (keyOf fs image) ∧ image.Finds fs c

/-- In a session over files that stay as they are, the images have open what is at their roots,
    and registered are names that modules at the canonical paths of images declare. -/
structure Settled (fs : FileSystem) (s : Session) : Prop where
  files : s.files = fs
  images : ∀ (number : Nat) image, s.images[number]? = some image → Image.UpToDate fs image.root image
  registered : ∀ k path m, (s.register k).serves path m = true →
    ∃ c, s.FindsAt fs path c ∧ c.Declares fs m

theorem Settled.start (fs : FileSystem) (vars : JavaHome.Variables) :
    (Session.start fs vars).Settled fs := by
  refine ⟨rfl, nofun, fun k path m h => ?_⟩
  rw [register_start] at h
  cases h

/-- Images are known under the same paths after a request, and have the same roots. -/
theorem FindsAt.run (h : s.FindsAt s.files path c) (r : Request) :
    (s.run r).session.FindsAt s.files path c := by
  obtain ⟨number, image, himage, hpath, skipped, hfound⟩ := h
  cases hafter : (s.run r).session.images[number]? with
  | none => cases (of_run_eq_none hafter).1.symm.trans himage
  | some image' =>
    rcases moves_run s r hafter with ⟨before, hbefore, hmoves⟩ | ⟨hnone, -⟩
    · cases hbefore.symm.trans himage
      refine ⟨number, image', hafter, ?_, skipped, ?_⟩
      · rw [hmoves.keyOf]
        exact hpath
      · rw [hmoves.root]
        exact hfound
    · cases hnone.symm.trans himage

theorem Settled.run (h : s.Settled fs) {r : Request} (hquiet : r.Quiet) :
    (s.run r).session.Settled fs := by
  obtain ⟨rfl, himages, hregistered⟩ := h
  refine ⟨files_run hquiet, fun number image hafter => ?_, fun k path m hserves => ?_⟩
  · rcases moves_run s r hafter with ⟨before, hbefore, hmoves⟩ | ⟨-, -, root, rfl⟩
    · exact hmoves.upToDate (himages number before hbefore)
    · exact .new s.files root
  · rw [register_run] at hserves
    suffices ∃ c, s.FindsAt s.files path c ∧ c.Declares s.files m by
      obtain ⟨c, hfinds, hdeclares⟩ := this
      exact ⟨c, hfinds.run r, hdeclares⟩
    cases hp : s.publication? r with
    | none =>
      rw [hp] at hserves
      exact hregistered k path m hserves
    | some p =>
      rw [hp, Option.elim_some, Publication.on] at hserves
      split at hserves
      · rw [Registry.serves_publish_same] at hserves
        split at hserves
        · next hsame =>
          -- What a load publishes, the modules of its image declare.
          cases publication?_eq_some.1 hp with
          | directly => exact hquiet.elim
          | load huse himage hloads hfound hwanted =>
            obtain ⟨d, hd, rfl⟩ := hserves
            obtain ⟨c, hfinds, hdeclares⟩ := (himages _ _ himage).declares hd
            exact ⟨c, ⟨_, _, himage, hsame, hfinds⟩, hdeclares⟩
        · exact hregistered k path m hserves
      · exact hregistered k path m hserves

theorem Settled.after (h : s.Settled fs) {rs : List Request} (hquiet : ∀ r ∈ rs, r.Quiet) :
    (s.after rs).Settled fs := by
  induction rs generalizing s with
  | nil => exact h
  | cons r rs ih =>
    exact ih (h.run (hquiet r List.mem_cons_self)) fun r' hr' =>
      hquiet r' (List.mem_cons_of_mem r hr')

/-! ## The view of a module -/

variable {name package unit : String} {use : EntryUse} {image : Image}

/-- The view of a module is that of its name, if the name is registered. -/
theorem on_scope (r : Registry) (fs : FileSystem) (u : Image.Use) (m : String) :
    ModuleStep.on (Entry.Scope.of (some m)) r fs u =
      ((if r.serves (keyOf fs u.image) m then .module m else .unserved, r),
        (Image.canonicalPath.on fs u).2) := by
  unfold Entry.Scope.of
  rw [ModuleStep.on_bind, Registry.on_servesModule]
  rfl

/-- What the lookups of a scope answer, one after the other. -/
def lookedUp (fs : FileSystem) (e : Entry) (m package unit : String) (scope : Entry.Scope)
    (u : Image.Use) : Answer :=
  let asked := (scope.isPackage package).on fs u
  .of (.lookUp (some m) scope.isServed asked.1)
    ((scope.findType e package unit).run.on fs asked.2).1

theorem lookedUp_module (fs : FileSystem) (e : Entry) (m package unit : String) (u : Image.Use) :
    let asked := (Entry.isPackage package (.named m)).on fs u
    lookedUp fs e m package unit (.module m) u = .of (.lookUp (some m) true asked.1)
      ((e.findType package unit (.named m)).run.on fs asked.2).1 :=
  rfl

theorem lookedUp_unserved (fs : FileSystem) (e : Entry) (m package unit : String) (u : Image.Use) :
    lookedUp fs e m package unit .unserved u = .of (.lookUp (some m) false false) (.ok none) :=
  rfl

/-- What the view of a module answers: nothing, or what is found in the module of its name. -/
theorem answer_lookUp (huse : s.entries.get? name = some use)
    (himage : s.images[use.image]? = some image) (m package unit : String) :
    (s.run (.useEntry name (.lookUp (some m) package unit))).answer =
      lookedUp s.files use.entry m package unit
        (if (s.register use.register).serves (keyOf s.files image) m then .module m else .unserved)
        (Image.canonicalPath.on s.files ⟨image, []⟩).2 := by
  rw [run, useEntry_eq huse himage, entryResult]
  change lookedUp s.files use.entry m package unit
    (ModuleStep.on (Entry.Scope.of (some m)) (s.register use.register) s.files ⟨image, []⟩).1.1
    (ModuleStep.on (Entry.Scope.of (some m)) (s.register use.register) s.files ⟨image, []⟩).2 = _
  rw [on_scope]

/-- **The view of a module looks at the module of that name, if its name is declared.** While the
    files stay as they are, and nothing is published but what loads find: a view has a package or a
    type only if its name is served, which it is only if some module declares it of an image with
    the same canonical path, and where the search for a type fails, the program ends. It has the
    packages of the module that goes by its name in the image, and the types in the files of that
    module. If no other module of the images of that path declares the name, then that module does,
    and it is that of the image itself if they all have the same root. -/
theorem view_of_module {files : FileSystem} {vars : JavaHome.Variables} {rs : List Request}
    (hquiet : ∀ r ∈ rs, r.Quiet)
    (huse : ((start files vars).after rs).entries.get? name = some use)
    (himage : ((start files vars).after rs).images[use.image]? = some image)
    (m package unit : String) :
    let s := (start files vars).after rs
    let path := keyOf files image
    ∃ served isPackage found,
      (s.run (.useEntry name (.lookUp (some m) package unit))).answer =
        .of (.lookUp (some m) served isPackage) found ∧
      (∀ e, found = .error e → e.isFatal) ∧
      (isPackage = true ∨ found ≠ .ok none → served = true) ∧
      (served = true → ∃ c, s.FindsAt files path c ∧ c.Declares files m) ∧
      (isPackage = true → ∃ c owner, image.Finds files c ∧ c.modules.get? m = some owner ∧
        owner.hasPackage (Image.packagePath package) = true) ∧
      (∀ t, found = .ok (some t) → t.module = m ∧ ∃ c owner content, image.Finds files c ∧
        c.modules.get? m = some owner ∧ owner.read files unit = .ok (some content)) ∧
      ((∀ c key owner d, s.FindsAt files path c → c.modules.get? key = some owner →
          owner.descriptor? files = some d → d.name = m → key = m) →
        served = true → ∃ c owner d, s.FindsAt files path c ∧ c.modules.get? m = some owner ∧
          owner.descriptor? files = some d ∧ d.name = m ∧
          ((∀ (number : Nat) other, s.images[number]? = some other →
              Path.same path (keyOf files other) → other.root = image.root) →
            image.Finds files c)) := by
  intro s path
  obtain ⟨hfiles, himages, hregistered⟩ := (Settled.start files vars).after hquiet
  have hupToDate := himages _ _ himage
  have hanswer := answer_lookUp huse himage m package unit
  rw [hfiles] at hanswer
  cases hserves : (s.register use.register).serves path m with
  | false =>
    rw [if_neg (Bool.eq_false_iff.1 hserves), lookedUp_unserved] at hanswer
    exact ⟨false, false, .ok none, hanswer, nofun, by simp, nofun, nofun, nofun, fun _ => nofun⟩
  | true =>
    rw [if_pos hserves, lookedUp_module] at hanswer
    have hcanonical : Image.Moves files (fun _ => False) False ⟨image, []⟩
        (Image.canonicalPath.on files ⟨image, []⟩).2 := Image.moves_canonicalPath _
    have hasked := hcanonical.trans
      (Image.Step.Moves.openingRule.entryPackage package (.named m) _)
    have hends := Entry.failsAtEnd_findType use.entry package unit (.named m)
    refine ⟨true, _, _, hanswer, fun e he => hends _ _ e he, fun _ => rfl,
      fun _ => hregistered _ _ _ hserves,
      fun hpackage => Entry.of_isPackage_named hupToDate hcanonical hpackage,
      fun t ht => Entry.of_findType_named hupToDate hasked ht, fun hothers _ => ?_⟩
    obtain ⟨c, hat, key, owner, content, d, hget, hread, hparse, hname⟩ := hregistered _ _ _ hserves
    have hd : owner.descriptor? files = some d :=
      Image.Module.descriptor?_eq_some.2 ⟨content, hread, hparse⟩
    obtain rfl := hothers c key owner d hat hget hd hname
    refine ⟨c, owner, d, hat, hget, hd, hname, fun hroots => ?_⟩
    obtain ⟨number, other, hother, hsame, hfinds⟩ := hat
    exact hfinds.of_root (hroots number other hother hsame)

/-! ## Two modules -/

/-- A module `m` with a class, and a module `n` without, each with a descriptor. -/
def twoSources (x y : UInt8) : Image.Sources :=
  [("m", described x ++ withClass), ("n", described y)]

/-- An image of the two. -/
def twoModules (x y : UInt8) : FileSystem :=
  let modules := (twoSources x y).map fun m => (m.1, Node.directory m.2)
  ⟨.directory [("i", .directory [("modules", .directory modules)])], [], []⟩

theorem plain_twoSources (x y : UInt8) : (twoSources x y).Plain := by
  refine ⟨by simp [twoSources], ?_, ?_⟩
  · simp only [twoSources, List.mem_cons, List.not_mem_nil, or_false]
    have hm : Ordinary "m" := by decide
    have hn : Ordinary "n" := by decide
    rintro m (rfl | rfl)
    · exact hm
    · exact hn
  · simp only [twoSources, List.mem_cons, List.not_mem_nil, or_false]
    rintro m (rfl | rfl)
    · simp [described, withClass, Image.plain]
      decide
    · simp [described, Image.plain]
      decide

theorem exploded_twoModules (x y : UInt8) :
    Image.Exploded (twoModules x y) "/i" (twoSources x y) := by
  have hroot : (twoModules x y).node? (Path.join "/" "i") = .ok (.directory _) :=
    FileSystem.node?_join (FileSystem.node?_root _) (by decide) rfl nofun (by decide)
  rw [join_root] at hroot
  refine ⟨Image.isDirectory_of_node? hroot,
    FileSystem.isDirectory_join_of_none hroot (by decide) rfl,
    _, FileSystem.node?_join hroot (by decide) rfl nofun (by decide), .refl _, ?_⟩
  simp only [twoSources, described, withClass, List.cons_append, List.nil_append, List.map_cons,
    List.map_nil, Image.Module.fits.eq_def]
  decide

/-- What is found of the two. -/
structure HasTwo (x y : UInt8) (c : Image.Contents) (m n : Image.Module) : Prop where
  opens : Image.Contents.ofRoot (twoModules x y) "/i" = .ok ⟨c, []⟩
  first : c.modules.get? "m" = some m
  second : c.modules.get? "n" = some n
  only : ∀ key owner, c.modules.get? key = some owner → key = "m" ∨ key = "n"
  folder : m.tree.hasFolder "a" = true
  noFolder : n.tree.hasFolder "a" = false
  unit : m.read (twoModules x y) "a/A.class" = .ok (some smallClass)
  descriptor : m.read (twoModules x y) Image.descriptorFile = .ok (some (describing x))
  descriptor' : n.read (twoModules x y) Image.descriptorFile = .ok (some (describing y))

/-- Both descriptors are read, so neither is fatal. -/
theorem HasTwo.harmless {x y : UInt8} {c : Image.Contents} {m n : Image.Module}
    (h : HasTwo x y c m n) : c.Harmless (twoModules x y) := by
  intro key owner hget
  rcases h.only key owner hget with rfl | rfl
  · cases h.first.symm.trans hget
    exact Image.Module.not_isFatal_of_read h.descriptor
  · cases h.second.symm.trans hget
    exact Image.Module.not_isFatal_of_read h.descriptor'

theorem exists_hasTwo (x y : UInt8) : ∃ c m n, HasTwo x y c m n := by
  obtain ⟨c, hc, hnone, hsome⟩ :=
    Image.ofRoot_exploded (plain_twoSources x y) (exploded_twoModules x y)
  have hm : ("m", described x ++ withClass) ∈ twoSources x y := List.mem_cons_self
  have hn : ("n", described y) ∈ twoSources x y := List.mem_cons_of_mem _ List.mem_cons_self
  obtain ⟨path, hnode, hfits, hget⟩ := hsome _ hm
  obtain ⟨path', hnode', hfits', hget'⟩ := hsome _ hn
  have hplain := (plain_twoSources x y).inside _ hm
  have hplain' := (plain_twoSources x y).inside _ hn
  have hlisting : Image.listing (described x ++ withClass) =
      [(Image.descriptorFile, some (describing x)), ("a", none), ("a/A.class", some smallClass)] := by
    simp [Image.listing, described, withClass, Image.descriptorFile]
  have hlisting' : Image.listing (described y) = [(Image.descriptorFile, some (describing y))] := by
    simp [Image.listing, described, Image.descriptorFile]
  refine ⟨c, _, _, hc, hget, hget', fun key owner hkey => ?_, ?_, ?_,
    Image.read_of_mem_listing hnode hplain hfits _ (by rw [hlisting]; simp),
    Image.read_of_mem_listing hnode hplain hfits _ (by rw [hlisting]; simp),
    Image.read_of_mem_listing hnode' hplain' hfits' _ (by rw [hlisting']; simp)⟩
  · by_contra hneither
    rw [not_or] at hneither
    have hmissing := hnone key fun other hother => by
      rcases List.mem_cons.1 hother with rfl | hother
      · exact Ne.symm hneither.1
      · rw [List.mem_singleton.1 hother]
        exact Ne.symm hneither.2
    cases hmissing.symm.trans hkey
  · simp only [Image.scan_eq hplain, hlisting, List.map_cons, List.map_nil, Image.entryName]
    decide +kernel
  · simp only [Image.scan_eq hplain', hlisting', List.map_cons, List.map_nil, Image.entryName]
    decide +kernel

/-- The session with an entry for the image, -/
def unprepared (x y : UInt8) : Session :=
  (start (twoModules x y) ⟨none, none, "/"⟩).after
    [.newImage "i" "/i", .newEntry "e" "i" bareUse.entry none]

/-- and after the entry was prepared, which loads the modules. -/
def prepared (x y : UInt8) : Session := (unprepared x y).after [.useEntry "e" .prepare]

/-- The requests for it. -/
def preparing : List Request :=
  [.newImage "i" "/i", .newEntry "e" "i" bareUse.entry none, .useEntry "e" .prepare]

theorem after_preparing (x y : UInt8) :
    (start (twoModules x y) ⟨none, none, "/"⟩).after preparing = prepared x y := rfl

theorem quiet_preparing : ∀ r ∈ preparing, r.Quiet := by simp [preparing, Request.Quiet]

theorem settled_prepared (x y : UInt8) : (prepared x y).Settled (twoModules x y) :=
  (Settled.start (twoModules x y) ⟨none, none, "/"⟩).after quiet_preparing

section
variable {x y : UInt8} {c : Image.Contents} {owner other : Image.Module}

theorem entry_unprepared : (unprepared x y).entries.get? "e" = some bareUse := by
  have hentries : (unprepared x y).entries = NameMap.empty.insert "e" bareUse := rfl
  rw [hentries, NameMap.get?_insert, if_pos rfl]

theorem image_unprepared : (unprepared x y).images[bareUse.image]? = some (.new "/i") := rfl

theorem entry_prepared : (prepared x y).entries.get? "e" = some bareUse := by
  obtain ⟨-, -, hentries⟩ := session_useEntry (@entry_unprepared x y) image_unprepared .prepare
  obtain ⟨-, hentry, -⟩ := @entryResult_load (unprepared x y) bareUse (.new "/i") .prepare false rfl
  change ((unprepared x y).useEntry "e" .prepare).session.entries.get? "e" = _
  rw [hentries, NameMap.get?_insert, if_pos rfl, hentry]

theorem exists_image_prepared (x y : UInt8) : ∃ image,
    (prepared x y).images[bareUse.image]? = some image ∧
    ∀ (number : Nat) found, (prepared x y).images[number]? = some found → found.root = "/i" := by
  obtain ⟨-, himage, -⟩ := session_useEntry (@entry_unprepared x y) image_unprepared .prepare
  refine ⟨_, himage, fun number found hfound => ?_⟩
  change ((unprepared x y).useEntry "e" .prepare).session.images[number]? = _ at hfound
  by_cases hnumber : number = bareUse.image
  · subst hnumber
    cases himage.symm.trans hfound
    exact (moves_useEntry entry_unprepared .prepare ⟨.new "/i", []⟩).root
  · -- There is no other image.
    rw [useEntry_eq entry_unprepared image_unprepared] at hfound
    dsimp only at hfound
    rw [Array.getElem?_setIfInBounds, if_neg (Ne.symm hnumber)] at hfound
    have hbound := (Array.getElem?_eq_some_iff.1 hfound).1
    exact absurd (Nat.lt_one_iff.1 hbound) hnumber

/-- What a module declares is served once the entry was prepared. -/
theorem serves_prepared (h : HasTwo x y c owner other) {m : String}
    (hm : c.Declares (twoModules x y) m) : (prepared x y).Serves "e" m := by
  obtain ⟨d, hd, hname⟩ := Image.Contents.declares_iff.1 hm
  have hmem : d ∈ (Image.new "/i").declared (unprepared x y).files := by
    have hscanned : (Image.new "/i").scanned (twoModules x y) = c.scanned (twoModules x y) := by
      unfold Image.scanned
      simp only [Image.new, h.opens]
    rw [h.harmless.scanned] at hscanned
    have hdeclared := Image.declared_of_scanned hscanned
    exact hdeclared.symm ▸ hd
  refine (serves_run_load rfl entry_unprepared image_unprepared).2 ?_
  rw [if_neg (not_or.2 ⟨List.ne_nil_of_mem hmem, fun hknown => Bool.false_ne_true hknown.1⟩)]
  exact ⟨d, hmem, hname⟩

/-- The view of `m` has the class of the module `m`, if one of the two declares `m`. -/
theorem answer_prepared (h : HasTwo x y c owner other) (hm : c.Declares (twoModules x y) "m") :
    ((prepared x y).run (.useEntry "e" (.lookUp (some "m") "a" "a/A.class"))).answer =
      .lookUp (some "m") true true (some ⟨smallType, none, "m"⟩) := by
  obtain ⟨hfiles, himages, -⟩ := settled_prepared x y
  obtain ⟨image, himage, hroots⟩ := exists_image_prepared x y
  have hserves := (serves_iff entry_prepared himage).1 (serves_prepared h hm)
  have hcanonical : Image.UpToDate (twoModules x y) "/i"
      (Image.canonicalPath.on (twoModules x y) ⟨image, []⟩).2.image := by
    rw [Registry.image_canonicalPath, ← hroots _ _ himage]
    exact (himages _ _ himage).setCanonical _
  obtain ⟨v, hopen, -⟩ := hcanonical.open h.opens
  have hpackage : Image.packagePath "a" = "a" := by decide +kernel
  have hparent : Text.parentPath "a/A.class" = "a" := by decide
  have hhas : (c.admitted (Image.Filter.named "m").admits).any
      (fun m => m.2.hasPackage (Image.packagePath "a")) = true := by
    rw [Image.admitted_named h.first, hpackage]
    simp [Image.Module.hasPackage, h.folder]
  have hunit : Image.firstUnit (twoModules x y) "a/A.class"
      (c.admitted (Image.Filter.named "m").admits) = .ok (some ⟨"m", smallClass⟩) := by
    rw [Image.admitted_named h.first, Image.firstUnit, hparent, if_pos h.folder, h.unit]
  have hasked := Entry.on_isPackage hopen "a" (.named "m")
  rw [hhas, if_neg (by rw [hpackage]; decide)] at hasked
  have hfound := Entry.on_findType (Image.on_openContents_again hopen) bareUse.entry "a" "a/A.class"
    (.named "m")
  rw [hhas, hunit, if_neg (by rw [hpackage]; decide), if_pos rfl] at hfound
  rw [answer_lookUp entry_prepared himage, if_pos hserves, hfiles, lookedUp_module, hasked]
  dsimp only
  rw [hfound]
  simp only [Entry.typeIn, parse_smallClass]
  rfl

end

/-- **The view of a module may answer from one that declares another name.** Of the two modules, `m`
    declares `n`, and `n` declares `m`. So `m` is served, and the view of it has the class, which is
    in the module `m`; but no module that declares `m` has the package of it. -/
theorem view_swapped : ∃ c owner d,
    Image.Contents.ofRoot (twoModules 110 109) "/i" = .ok ⟨c, []⟩ ∧
    ((prepared 110 109).run (.useEntry "e" (.lookUp (some "m") "a" "a/A.class"))).answer =
      .lookUp (some "m") true true (some ⟨smallType, none, "m"⟩) ∧
    c.modules.get? "m" = some owner ∧ owner.descriptor? (twoModules 110 109) = some d ∧
    d.name = "n" ∧
    ∀ key other d, c.modules.get? key = some other →
      other.descriptor? (twoModules 110 109) = some d → d.name = "m" →
      other.hasPackage "a" = false := by
  obtain ⟨c, owner, other, h⟩ := exists_hasTwo 110 109
  obtain ⟨d, d', hd, hname, hd', hname'⟩ := parse_describing
  have howner := Image.Module.descriptor?_eq_some.2 ⟨_, h.descriptor, hd'⟩
  refine ⟨c, owner, d', h.opens,
    answer_prepared h ⟨"n", other, _, d, h.second, h.descriptor', hd, hname⟩, h.first, howner, hname',
    fun key found e hget he hename => ?_⟩
  rcases h.only key found hget with rfl | rfl
  · cases h.first.symm.trans hget
    cases howner.symm.trans he
    exact absurd (hname'.symm.trans hename) (by decide)
  · cases h.second.symm.trans hget
    simp [Image.Module.hasPackage, h.noFolder]

/-- Where each of the two declares its own name, the view of `m` has the class of a module that
    declares `m`. -/
theorem view_of_module_declared :
    (∀ r ∈ preparing, r.Quiet) ∧ ((prepared 109 110).entries.get? "e" = some bareUse) ∧
    ∃ image, (prepared 109 110).images[bareUse.image]? = some image ∧
      ((prepared 109 110).run (.useEntry "e" (.lookUp (some "m") "a" "a/A.class"))).answer =
        .lookUp (some "m") true true (some ⟨smallType, none, "m"⟩) ∧
      ∃ c owner d, image.Finds (twoModules 109 110) c ∧ c.modules.get? "m" = some owner ∧
        owner.descriptor? (twoModules 109 110) = some d ∧ d.name = "m" := by
  obtain ⟨c, owner, other, h⟩ := exists_hasTwo 109 110
  obtain ⟨d, d', hd, hname, hd', hname'⟩ := parse_describing
  obtain ⟨image, himage, hroots⟩ := exists_image_prepared 109 110
  have hanswer := answer_prepared h ⟨"m", owner, _, d, h.first, h.descriptor, hd, hname⟩
  obtain ⟨served, isPackage, found, hanswer', hends, -, -, -, -, hdeclares⟩ :=
    view_of_module quiet_preparing (after_preparing 109 110 ▸ entry_prepared)
      (after_preparing 109 110 ▸ himage) "m" "a" "a/A.class"
  rw [after_preparing, hanswer] at hanswer'
  obtain rfl : served = true := by
    cases found with
    | error why =>
      rw [Answer.of, Answer.ofError, if_pos (hends why rfl)] at hanswer'
      cases hanswer'
    | ok found? =>
      cases hanswer'
      rfl
  obtain ⟨c', owner', e, -, hget, he, hename, hfinds⟩ := hdeclares (by
    -- The module `n` declares its own name.
    rintro c' key found e ⟨number, i, hi, -, skipped, hfinds⟩ hget he hename
    rw [hroots _ _ hi] at hfinds
    cases h.opens.symm.trans hfinds
    rcases h.only key found hget with rfl | rfl
    · rfl
    · cases h.second.symm.trans hget
      cases (Image.Module.descriptor?_eq_some.2 ⟨_, h.descriptor', hd'⟩).symm.trans he
      exact absurd (hname'.symm.trans hename) (by decide)) rfl
  exact ⟨quiet_preparing, entry_prepared, image, himage, hanswer, c', owner', e,
    hfinds fun number found hfound _ => (hroots _ _ hfound).trans (hroots _ _ himage).symm,
    hget, he, hename⟩

end Session

end PlatformImage
