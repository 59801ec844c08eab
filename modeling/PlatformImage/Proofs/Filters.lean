import PlatformImage.Proofs.OverlayHistory
import PlatformImage.Proofs.Parts
import PlatformImage.Proofs.TypeNames
/-! Queries that look at several modules, in terms of queries that look at one.

What a list of names admits are the modules of these names one after the other, in ascending
order (`admitted_anyOf`). Every answer is made of the admitted modules in turn, so it is made
of the answers for the single names; and two filters that admit the same modules of an image
cannot be told apart (`Interchangeable`). -/
namespace PlatformImage

namespace Image

/-! ## What filters admit -/

/-- The names in a list, each of them once and in ascending order. -/
def distinct (names : List String) : List String :=
  (names.foldr (fun name (known : NameMap Unit) => known.insert name ()) .empty).keys

theorem mem_distinct {name : String} {names : List String} :
    name ∈ distinct names ↔ name ∈ names := by
  unfold distinct
  induction names with
  | nil => rfl
  | cons k ks ih =>
    rw [List.foldr_cons, NameMap.insert, NameMap.mem_keys_alter, ih, List.mem_cons]

theorem ascending_distinct {names : List String} : (distinct names).Pairwise (· < ·) :=
  NameMap.ascending _

section
variable {c : Contents} {admits : String → Bool} {name : String} {m : Module}

theorem mem_admitted :
    (name, m) ∈ c.admitted admits ↔ c.modules.get? name = some m ∧ admits name = true :=
  NameMap.mem_among_iff

theorem ascending_admitted : ((c.admitted admits).map (·.1)).Pairwise (· < ·) :=
  (c.modules.among admits).ascending

/-- What is admitted is known by its members, as it is in ascending order. -/
theorem admitted_eq {ms : List (String × Module)} (hms : (ms.map (·.1)).Pairwise (· < ·))
    (hmem : ∀ name m, (name, m) ∈ ms ↔ c.modules.get? name = some m ∧ admits name = true) :
    c.admitted admits = ms := by
  apply (c.modules.among admits).entries_eq hms
  intro name m
  rw [hmem, ← mem_admitted]
  exact NameMap.mem_entries_iff (m := c.modules.among admits)

theorem admits_named : (Filter.named name).admits = fun k => name == k := rfl

/-- A name admits the module of that name. -/
theorem admitted_named (hget : c.modules.get? name = some m) :
    c.admitted (Filter.named name).admits = [(name, m)] := by
  refine admitted_eq (List.pairwise_singleton _ _) fun k m' => ?_
  rw [List.mem_singleton, Prod.mk.injEq, admits_named, beq_iff_eq]
  constructor
  · rintro ⟨rfl, rfl⟩
    exact ⟨hget, rfl⟩
  · rintro ⟨hget', rfl⟩
    exact ⟨rfl, Option.some.inj (hget'.symm.trans hget)⟩

/-- A list of names admits what these admit one by one, in ascending order. -/
theorem admitted_anyOf (c : Contents) (names : List String) :
    c.admitted (Filter.anyOf names).admits =
      (distinct names).flatMap fun name => c.admitted (Filter.named name).admits := by
  refine admitted_eq ?_ fun k m => ?_
  · have howner {name : String} : ∀ e ∈ c.admitted (Filter.named name).admits, e.1 = name := by
      rintro ⟨k, m⟩ he
      exact (beq_iff_eq.1 (mem_admitted.1 he).2).symm
    rw [List.pairwise_map, List.pairwise_flatMap]
    refine ⟨fun name _ => List.pairwise_map.1 ascending_admitted,
      ascending_distinct.imp fun hlt e he e' he' => ?_⟩
    rw [howner e he, howner e' he']
    exact hlt
  · simp only [List.mem_flatMap, mem_admitted, mem_distinct, admits_named, beq_iff_eq]
    constructor
    · rintro ⟨name, hname, hget, rfl⟩
      exact ⟨hget, List.contains_iff_mem.2 hname⟩
    · rintro ⟨hget, hname⟩
      exact ⟨k, List.contains_iff_mem.1 hname, hget, rfl⟩

/-- All names of an image admit all of its modules. -/
theorem admitted_keys (c : Contents) :
    c.admitted (Filter.anyOf c.modules.keys).admits = c.admitted Filter.all.admits := by
  refine List.filter_congr fun e he => ?_
  exact List.contains_iff_mem.2 (List.mem_map_of_mem he)

/-- Neither the order of names nor how often each of them is given matters. -/
theorem admitted_of_mem_iff (c : Contents) {names names' : List String}
    (h : ∀ name, name ∈ names ↔ name ∈ names') :
    c.admitted (Filter.anyOf names).admits = c.admitted (Filter.anyOf names').admits := by
  refine List.filter_congr fun e _ => ?_
  rw [Bool.eq_iff_iff]
  exact List.contains_iff_mem.trans ((h e.1).trans List.contains_iff_mem.symm)

end

/-! ## The first of several modules -/

section
variable {fs : FileSystem} {unit : String}

theorem firstUnit_append (ms ms' : List (String × Module)) :
    firstUnit fs unit (ms ++ ms') =
      match firstUnit fs unit ms with
      | .ok none => firstUnit fs unit ms'
      | outcome => outcome := by
  induction ms with
  | nil => rfl
  | cons e ms ih =>
    obtain ⟨name, m⟩ := e
    rw [List.cons_append, firstUnit, firstUnit, ih]
    split
    · cases m.read fs unit with
      | error e => rfl
      | ok content? => cases content? <;> rfl
    · rfl

/-- Of groups of modules in ascending order, the least that has an outcome gives it. -/
theorem firstUnit_flatMap {names : List String} (hnames : names.Pairwise (· < ·))
    (group : String → List (String × Module)) :
    (∀ name ∈ names, firstUnit fs unit (group name) = .ok none) ∧
        firstUnit fs unit (names.flatMap group) = .ok none ∨
      ∃ name ∈ names, firstUnit fs unit (group name) ≠ .ok none ∧
        (∀ k ∈ names, k < name → firstUnit fs unit (group k) = .ok none) ∧
        firstUnit fs unit (names.flatMap group) = firstUnit fs unit (group name) := by
  induction names with
  | nil => exact .inl ⟨nofun, rfl⟩
  | cons first rest ih =>
    obtain ⟨hlt, hrest⟩ := List.pairwise_cons.1 hnames
    rw [List.flatMap_cons, firstUnit_append]
    by_cases hfirst : firstUnit fs unit (group first) = .ok none
    · rw [hfirst]
      rcases ih hrest with ⟨hnone, hresult⟩ | ⟨name, hname, hne, hleast, hresult⟩
      · refine .inl ⟨fun k hk => ?_, hresult⟩
        rcases List.mem_cons.1 hk with rfl | hk
        · exact hfirst
        · exact hnone k hk
      · refine .inr ⟨name, List.mem_cons_of_mem first hname, hne, fun k hk hlt => ?_, hresult⟩
        rcases List.mem_cons.1 hk with rfl | hk
        · exact hfirst
        · exact hleast k hk hlt
    · refine .inr ⟨first, List.mem_cons_self, hfirst, fun k hk hless => ?_, ?_⟩
      · rcases List.mem_cons.1 hk with rfl | hk
        · exact absurd hless (String.lt_irrefl k)
        · exact absurd (String.lt_trans hless (hlt k hk)) (String.lt_irrefl k)
      · split
        · next h => exact absurd h hfirst
        · rfl

/-- What is found is a file of a module that has its folder. -/
theorem of_firstUnit_eq_some {ms : List (String × Module)} {found : BinaryUnit}
    (h : firstUnit fs unit ms = .ok (some found)) : ∃ m, (found.module, m) ∈ ms ∧
      m.tree.hasFolder (Text.parentPath unit) = true ∧
      m.read fs unit = .ok (some found.content) := by
  induction ms with
  | nil => cases h
  | cons e ms ih =>
    obtain ⟨name, m⟩ := e
    have hlater : firstUnit fs unit ms = .ok (some found) →
        ∃ m', (found.module, m') ∈ (name, m) :: ms ∧
          m'.tree.hasFolder (Text.parentPath unit) = true ∧
          m'.read fs unit = .ok (some found.content) := fun h =>
      let ⟨m', hmem, hfound⟩ := ih h
      ⟨m', List.mem_cons_of_mem _ hmem, hfound⟩
    rw [firstUnit] at h
    split at h
    · next hfolder =>
      cases hread : m.read fs unit with
      | error e =>
        rw [hread] at h
        cases h
      | ok content? =>
        rw [hread] at h
        cases content? with
        | none => exact hlater h
        | some content =>
          cases h
          exact ⟨m, List.mem_cons_self, hfolder, hread⟩
    · exact hlater h

/-- The module that a file was found in, asked alone. -/
theorem firstUnit_named {c : Contents} {admits : String → Bool} {found : BinaryUnit}
    (h : firstUnit fs unit (c.admitted admits) = .ok (some found)) :
    admits found.module = true ∧
    firstUnit fs unit (c.admitted (Filter.named found.module).admits) = .ok (some found) ∧
    ∀ m ∈ c.admitted (Filter.named found.module).admits,
      m.2.tree.hasFolder (Text.parentPath unit) = true := by
  obtain ⟨m, hmem, hfolder, hread⟩ := of_firstUnit_eq_some h
  obtain ⟨hget, hadmits⟩ := mem_admitted.1 hmem
  rw [admitted_named hget]
  refine ⟨hadmits, ?_, fun e he => ?_⟩
  · rw [firstUnit, if_pos hfolder, hread]
  · rw [List.mem_singleton.1 he]
    exact hfolder

end

end Image

namespace Entry

open Image (Filter Query distinct admitted_anyOf)
open Overlay (Usable Current)

/-- Two filters that no query of an image tells apart. -/
structure Interchangeable (fs : FileSystem) (u : Image.Use) (f g : Filter) : Prop where
  imagePackage : ∀ package,
    (Image.isPackage package f).run.on fs u = (Image.isPackage package g).run.on fs u
  readUnit : ∀ unit, (Image.readUnit unit f).run.on fs u = (Image.readUnit unit g).run.on fs u
  isPackage : ∀ package, (isPackage package f).on fs u = (isPackage package g).on fs u
  findTypeNames : ∀ package,
    (findTypeNames package f).on fs u = (findTypeNames package g).on fs u
  findType : ∀ (e : Entry) package unit,
    (e.findType package unit f).run.on fs u = (e.findType package unit g).run.on fs u

section
variable {c : Image.Contents} {fs : FileSystem} {u v : Image.Use}

/-- Filters that admit the same modules are interchangeable. -/
theorem interchangeable_of_admitted (hopen : Image.openContents.run.on fs u = (.ok c, v))
    {f g : Filter} (h : c.admitted f.admits = c.admitted g.admits) : Interchangeable fs u f g where
  imagePackage package := by rw [Image.on_isPackage hopen, Image.on_isPackage hopen, h]
  readUnit unit := by rw [Image.on_readUnit hopen, Image.on_readUnit hopen, h]
  isPackage package := by rw [on_isPackage hopen, on_isPackage hopen, h]
  findTypeNames package := by
    rw [on_findTypeNames hopen, on_findTypeNames hopen]
    unfold listed
    rw [h]
  findType e package unit := by rw [on_findType hopen, on_findType hopen, h]

/-! ## Packages and names -/

theorem any_admitted_anyOf (names : List String) (p : String × Image.Module → Bool) :
    (c.admitted (Filter.anyOf names).admits).any p = true ↔
      ∃ name ∈ names, (c.admitted (Filter.named name).admits).any p = true := by
  rw [admitted_anyOf, List.any_flatMap, List.any_eq_true]
  simp only [Image.mem_distinct]

/-- Modules of given names have a package if the module of one of these names has it. -/
theorem isPackage_anyOf (hopen : Image.openContents.run.on fs u = (.ok c, v)) (package : String)
    (names : List String) :
    ((isPackage package (.anyOf names)).on fs u).1 = true ↔
      ∃ name ∈ names, ((isPackage package (.named name)).on fs u).1 = true := by
  simp only [on_isPackage hopen]
  by_cases hempty : Image.packagePath package = ""
  · simp [hempty]
  · simp only [if_neg hempty]
    exact any_admitted_anyOf names _

/-- An entry passes on what the image answers about a package. -/
theorem imagePackage_eq (hopen : Image.openContents.run.on fs u = (.ok c, v)) (package : String)
    (filter : Filter) :
    ((Image.isPackage package filter).run.on fs u).1 =
      .ok ((isPackage package filter).on fs u).1 := by
  rw [Image.on_isPackage hopen, on_isPackage hopen]
  split <;> rfl

/-- The names of the types of a package in several modules are those in each, in turn. -/
theorem findTypeNames_anyOf (hopen : Image.openContents.run.on fs u = (.ok c, v))
    {package : String} (hinternal : Image.packagePath package = package) (modules : List String) :
    ((findTypeNames package (.anyOf modules)).on fs u).1 =
      let names := (distinct modules).flatMap fun m =>
        ((findTypeNames package (.named m)).on fs u).1.getD []
      if names = [] then none else some names := by
  have hnames : ((distinct modules).flatMap fun m =>
      ((findTypeNames package (.named m)).on fs u).1.getD []) =
      if package = "" then [] else listed c (.anyOf modules) package := by
    simp only [getD_findTypeNames hopen hinternal]
    split
    · simp
    · rw [listed, admitted_anyOf, List.flatMap_assoc]
      rfl
  rw [findTypeNames_eq hopen hinternal, hnames]

/-! ## Types -/

theorem module_of_typeIn {e : Entry} {unit : String} {found : Image.BinaryUnit} {a : FoundType}
    (h : ((e.typeIn unit found).run.on fs v).1 = .ok (some a)) : a.module = found.module := by
  unfold typeIn at h
  cases hparse : ClassFile.BinaryType.parse found.content with
  | error e =>
    rw [hparse] at h
    cases h
  | ok t =>
    simp only [hparse, Query.on_bind_pure] at h
    cases hattach : ((attachOverlays (typePath unit) t e.annotationPaths).run.on fs v).1 with
    | error why =>
      rw [hattach] at h
      cases h
    | ok t' =>
      rw [hattach] at h
      cases h
      rfl

/-- What is looked at before a type is found: the package, and the file of its module. -/
theorem of_findType_eq_some (hopen : Image.openContents.run.on fs u = (.ok c, v)) {e : Entry}
    {package unit : String} {filter : Filter} {a : FoundType}
    (h : ((e.findType package unit filter).run.on fs u).1 = .ok (some a)) :
    Image.packagePath package ≠ "" ∧
    (c.admitted filter.admits).any (fun m => m.2.hasPackage (Image.packagePath package)) = true ∧
    ∃ content, Image.firstUnit fs unit (c.admitted filter.admits) =
      .ok (some ⟨a.module, content⟩) := by
  rw [on_findType hopen] at h
  by_cases hempty : Image.packagePath package = ""
  · rw [if_pos hempty] at h
    cases h
  · rw [if_neg hempty] at h
    split at h
    · next hhas =>
      refine ⟨hempty, hhas, ?_⟩
      split at h
      · next found hfound =>
        obtain ⟨owner, content⟩ := found
        obtain rfl : a.module = owner := module_of_typeIn h
        exact ⟨content, hfound⟩
      · cases h
      · exact absurd h unread_ne_some
    · cases h

/-- With a package that some admitted module has, what is found is the type in the file. -/
theorem on_findType_of_found (hopen : Image.openContents.run.on fs u = (.ok c, v)) (e : Entry)
    {package unit : String} {filter : Filter} {found : Image.BinaryUnit}
    (hpackage : Image.packagePath package ≠ "")
    (hhas : (c.admitted filter.admits).any (fun m =>
      m.2.hasPackage (Image.packagePath package)) = true)
    (hfound : Image.firstUnit fs unit (c.admitted filter.admits) = .ok (some found)) :
    (e.findType package unit filter).run.on fs u = (e.typeIn unit found).run.on fs v := by
  rw [on_findType hopen, if_neg hpackage, if_pos hhas, hfound]

/-- While the contents are the same, the module that a type was found in gives the same. -/
theorem findType_named (hopen : Image.openContents.run.on fs u = (.ok c, v)) {e : Entry}
    {package unit : String} {filter : Filter} {a : FoundType}
    (hplace : Image.packagePath package = Text.parentPath unit)
    (h : ((e.findType package unit filter).run.on fs u).1 = .ok (some a)) :
    filter.admits a.module = true ∧
    ∀ w x, Image.openContents.run.on fs w = (.ok c, x) →
      (e.findType package unit (.named a.module)).run.on fs w =
        (e.findType package unit filter).run.on fs w := by
  obtain ⟨hpackage, hhas, content, hfound⟩ := of_findType_eq_some hopen h
  obtain ⟨hadmits, hnamed, hfolder⟩ := Image.firstUnit_named hfound
  refine ⟨hadmits, fun w x hopen' => ?_⟩
  have hhas' : (c.admitted (Filter.named a.module).admits).any
      (fun m => m.2.hasPackage (Image.packagePath package)) = true := by
    obtain ⟨m, hmem, -⟩ := Image.of_firstUnit_eq_some hnamed
    refine List.any_eq_true.2 ⟨_, hmem, ?_⟩
    rw [Image.Module.hasPackage, hplace, hfolder _ hmem, ← hplace]
    simp [hpackage]
  rw [on_findType_of_found hopen' e hpackage hhas' hnamed,
    on_findType_of_found hopen' e hpackage hhas hfound]

/-! ## Asking again -/

theorem contents_attachOverlays (typePath : String) (t : ClassFile.BinaryType)
    (paths : List String) (u : Image.Use) :
    ((attachOverlays typePath t paths).run.on fs u).2.image.contents = u.image.contents := by
  induction paths generalizing u with
  | nil => rfl
  | cons overlay rest ih =>
    rw [on_attachOverlays_cons]
    rcases Overlay.lookUp fs overlay typePath u.image.overlay with ⟨outcome, slot⟩
    cases outcome with
    | error e =>
      dsimp only
      split
      · rfl
      · exact ih _
    | ok content? =>
      cases content? with
      | none => exact ih _
      | some content => rfl

theorem contents_typeIn (e : Entry) (unit : String) (found : Image.BinaryUnit) (u : Image.Use) :
    ((e.typeIn unit found).run.on fs u).2.image.contents = u.image.contents := by
  unfold typeIn
  cases ClassFile.BinaryType.parse found.content with
  | error e => rfl
  | ok t =>
    dsimp only
    rw [Query.on_bind_pure]
    exact contents_attachOverlays _ t e.annotationPaths u

/-- An image in which a type was found is open. -/
theorem open_of_findType_eq_some (hopen : Image.openContents.run.on fs u = (.ok c, v)) {e : Entry}
    {package unit : String} {filter : Filter} {a : FoundType}
    (h : ((e.findType package unit filter).run.on fs u).1 = .ok (some a)) :
    Image.openContents.run.on fs ((e.findType package unit filter).run.on fs u).2 =
      (.ok c, ((e.findType package unit filter).run.on fs u).2) := by
  obtain ⟨hpackage, hhas, content, hfound⟩ := of_findType_eq_some hopen h
  refine Image.on_openContents_of_some ?_
  rw [on_findType_of_found hopen e hpackage hhas hfound, contents_typeIn]
  exact Image.contents_of_open hopen

/-- Without overlays, just the contents of the image matter. -/
theorem findType_bare {w x : Image.Use} (hopen : Image.openContents.run.on fs u = (.ok c, v))
    (hopen' : Image.openContents.run.on fs w = (.ok c, x)) (e : Entry) (package unit : String)
    (filter : Filter) :
    ((({ e with annotationPaths := [] } : Entry).findType package unit filter).run.on fs w).1 =
      ((({ e with annotationPaths := [] } : Entry).findType package unit filter).run.on fs u).1 := by
  have htype (found : Image.BinaryUnit) (y : Image.Use) :
      ((({ e with annotationPaths := [] } : Entry).typeIn unit found).run.on fs y).1 =
        ((({ e with annotationPaths := [] } : Entry).typeIn unit found).run.on fs v).1 := by
    unfold typeIn
    cases ClassFile.BinaryType.parse found.content <;> rfl
  rw [on_findType hopen, on_findType hopen']
  split
  · rfl
  · split
    · cases Image.firstUnit fs unit (c.admitted filter.admits) with
      | error e => exact fst_unread e x v
      | ok found? =>
        cases found? with
        | none => rfl
        | some found => exact htype found x
    · rfl

/-- With usable overlays, the same type is found from all states with these contents and a
    current slot. -/
theorem findType_of_current {w x : Image.Use} (hopen : Image.openContents.run.on fs u = (.ok c, v))
    (hopen' : Image.openContents.run.on fs w = (.ok c, x)) {overlays : String → Prop}
    (husable : ∀ p, overlays p → Usable p) (e : Entry) (hpaths : ∀ p ∈ e.annotationPaths, overlays p)
    (hslot : Current fs overlays u.image.overlay) (hslot' : Current fs overlays w.image.overlay)
    (package unit : String) (filter : Filter) :
    ((e.findType package unit filter).run.on fs w).1 =
      ((e.findType package unit filter).run.on fs u).1 := by
  have hu := findType_eq husable e hpaths hslot package unit filter
  have hw := findType_eq husable e hpaths hslot' package unit filter
  rw [findType_bare hopen hopen', ← hu] at hw
  exact hw

/-! ## All queries -/

/-- **What is asked of several modules is made of what is asked of each.** In an image that
    opens, a package is in modules with given names if it is in the module of one of these; the
    names of its types are those from each of them in turn, and a file is that of the first that
    does not lack it, in ascending order. Looking at all modules is looking at those with the
    names of the image; and a list of names stands for the set of them. A type is found in a
    module that the filter admits, and this module alone gives the same type: from any state in
    which the same contents open, and also afterwards, if the overlays have usable paths. -/
theorem filters_decompose (hopen : Image.openContents.run.on fs u = (.ok c, v))
    (modules : List String) :
    (∀ package, ((isPackage package (.anyOf modules)).on fs u).1 = true ↔
      ∃ m ∈ modules, ((isPackage package (.named m)).on fs u).1 = true) ∧
    (∀ package filter, ((Image.isPackage package filter).run.on fs u).1 =
      .ok ((isPackage package filter).on fs u).1) ∧
    (∀ package, Image.packagePath package = package →
      ((findTypeNames package (.anyOf modules)).on fs u).1 =
        let names := (distinct modules).flatMap fun m =>
          ((findTypeNames package (.named m)).on fs u).1.getD []
        if names = [] then none else some names) ∧
    (∀ unit,
      (∀ m ∈ modules, ((Image.readUnit unit (.named m)).run.on fs u).1 = .ok none) ∧
          ((Image.readUnit unit (.anyOf modules)).run.on fs u).1 = .ok none ∨
        ∃ m ∈ modules, ((Image.readUnit unit (.named m)).run.on fs u).1 ≠ .ok none ∧
          (∀ k ∈ modules, k < m → ((Image.readUnit unit (.named k)).run.on fs u).1 = .ok none) ∧
          ((Image.readUnit unit (.anyOf modules)).run.on fs u).1 =
            ((Image.readUnit unit (.named m)).run.on fs u).1) ∧
    (∃ names, (Image.moduleNames.run.on fs u).1 = .ok names ∧
      Interchangeable fs u .all (.anyOf names)) ∧
    (∀ modules', (∀ m, m ∈ modules' ↔ m ∈ modules) →
      Interchangeable fs u (.anyOf modules') (.anyOf modules)) ∧
    ∀ (e : Entry) package unit filter a, Image.packagePath package = Text.parentPath unit →
      ((e.findType package unit filter).run.on fs u).1 = .ok (some a) →
      filter.admits a.module = true ∧
      (∀ w x, Image.openContents.run.on fs w = (.ok c, x) →
        (e.findType package unit (.named a.module)).run.on fs w =
          (e.findType package unit filter).run.on fs w) ∧
      ∀ overlays, (∀ p, overlays p → Usable p) → (∀ p ∈ e.annotationPaths, overlays p) →
        Current fs overlays u.image.overlay →
        ((e.findType package unit (.named a.module)).run.on fs
          ((e.findType package unit filter).run.on fs u).2).1 = .ok (some a) := by
  refine ⟨fun package => isPackage_anyOf hopen package modules, imagePackage_eq hopen,
    fun package hinternal => findTypeNames_anyOf hopen hinternal modules, fun unit => ?_,
    ⟨c.modules.keys, ?_, interchangeable_of_admitted hopen (Image.admitted_keys c).symm⟩,
    fun modules' hsame => interchangeable_of_admitted hopen (Image.admitted_of_mem_iff c hsame),
    fun e package unit filter a hplace hfound => ?_⟩
  · simp only [Image.on_readUnit hopen, admitted_anyOf]
    simpa only [Image.mem_distinct] using Image.firstUnit_flatMap Image.ascending_distinct
      fun m => c.admitted (Filter.named m).admits
  · rw [Image.moduleNames, Image.Query.on_bind_of_ok fs u _ hopen]
    rfl
  · obtain ⟨hadmits, hnamed⟩ := findType_named hopen hplace hfound
    refine ⟨hadmits, hnamed, fun overlays husable hpaths hslot => ?_⟩
    have hopen' := open_of_findType_eq_some hopen hfound
    rw [hnamed _ _ hopen', ← hfound]
    exact findType_of_current hopen hopen' husable e hpaths hslot
      ((moves_findType e hpaths package unit filter u).current hslot) package unit filter

end

section
open Session (annotatedFiles annotatedUse shortPath smallType)

/-- The class that is found with all modules, and again with the one it was found in. -/
theorem filters_decompose_annotated : ∃ c v,
    Image.openContents.run.on annotatedFiles ⟨.new "/i", []⟩ = (.ok c, v) ∧
    Image.packagePath "a" = Text.parentPath "a/A.class" ∧
    let first := (annotatedUse.entry.findType "a" "a/A.class" .all).run.on annotatedFiles
      ⟨.new "/i", []⟩
    let a : FoundType := ⟨{ smallType with annotations := some ⟨shortPath, "a/A", [7]⟩ }, none, "m"⟩
    first.1 = .ok (some a) ∧ Usable shortPath ∧
    (annotatedUse.entry.findType "a" "a/A.class" (.named "m")).run.on annotatedFiles
      ⟨.new "/i", []⟩ = first ∧
    ((annotatedUse.entry.findType "a" "a/A.class" (.named "m")).run.on annotatedFiles
      first.2).1 = .ok (some a) := by
  obtain ⟨c, handle, hclass, -, -, hfound⟩ := Session.on_findType_annotated
  have hopen := Image.on_openContents_new hclass.opens
  have husable : Usable shortPath := ⟨by decide, by decide⟩
  have hplace : Image.packagePath "a" = Text.parentPath "a/A.class" := by decide +kernel
  obtain ⟨-, -, -, -, -, -, htype⟩ := filters_decompose hopen ["m"]
  obtain ⟨-, hnamed, hagain⟩ := htype annotatedUse.entry "a" "a/A.class" .all _ hplace
    (congrArg Prod.fst hfound)
  refine ⟨c, _, hopen, hplace, congrArg Prod.fst hfound, husable, hnamed _ _ hopen,
    hagain (· = shortPath) (fun p hp => hp ▸ husable) (fun p hp => List.mem_singleton.1 hp) .empty⟩

end

end Entry

end PlatformImage
