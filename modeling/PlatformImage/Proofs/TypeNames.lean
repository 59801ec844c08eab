import PlatformImage.Entry.Basic
import PlatformImage.Proofs.Index
import PlatformImage.Proofs.Lookups
import PlatformImage.Proofs.Walk
/-! The names of the types of a package, found by a walk that leaves out most of an
image, are those that the folder of the package lists in each admitted module.

`listed` is that plain answer. A collector enters just the folders of the package's
lineage, so in a tree exactly one way leads down to the package, and only the files
at its end bring names (`filterMap_events`). That the way is there whenever the package
is, the trees say by their type. -/
namespace PlatformImage

namespace Text

/-- Below a folder of a lineage, other than its end, one more of its folders lies. -/
theorem exists_mem_lineage_below {d p : String} (hd : d = "" ∨ d ∈ lineage p) (hne : d ≠ p) :
    ∃ e ∈ lineage p, parentPath e = d := by
  induction p using lineage.induct with
  | case1 =>
    rcases hd with hd | hd
    · exact absurd hd hne
    · simp at hd
  | case2 p hp ih =>
    rw [lineage_of_ne hp]
    by_cases hpar : parentPath p = d
    · exact ⟨p, List.mem_cons_self, hpar⟩
    · have hd' : d = "" ∨ d ∈ lineage (parentPath p) := by
        rw [lineage_of_ne hp] at hd
        exact hd.imp_right fun h => (List.mem_cons.1 h).resolve_left hne
      obtain ⟨e, he, hed⟩ := ih hd' (Ne.symm hpar)
      exact ⟨e, List.mem_cons_of_mem p he, hed⟩

end Text

namespace Entry

open Image (Tree Event Visit visiting)

/-- The names of the types that the files right inside a package hold. -/
def typesIn (t : Tree) (package : String) : List TypeName :=
  (t.filesOf package).filterMap fun file =>
    (Text.beforeEnd? classEnding file).map fun name => Text.segments package ++ [name]

theorem ascending_filesOf {t : Tree} {dir : String} : (t.filesOf dir).Pairwise (· < ·) :=
  ((t.folders.get? dir).getD .empty).ascending

theorem nodup_typesIn {t : Tree} {package : String} : (typesIn t package).Nodup := by
  refine List.Nodup.filterMap ?_ Tree.nodup_filesOf
  intro file file' name hfile hfile'
  obtain ⟨n, hn, rfl⟩ := Option.map_eq_some_iff.1 hfile
  obtain ⟨n', hn', he⟩ := Option.map_eq_some_iff.1 hfile'
  rw [Text.beforeEnd?_eq_some_iff.1 hn, Text.beforeEnd?_eq_some_iff.1 hn',
    List.cons.inj (List.append_cancel_left he) |>.1]

/-- The names of the types of a package in all admitted modules. -/
def listed (c : Image.Contents) (filter : Image.Filter) (package : String) : List TypeName :=
  (c.admitted filter.admits).flatMap fun m => typesIn m.2.tree package

/-! ## What a collector takes from a tree -/

theorem flatMap_eq_of_only {α β : Type} {as : List α} {f : α → List β} {a : α} (hnodup : as.Nodup)
    (ha : a ∈ as) (honly : ∀ b ∈ as, b ≠ a → f b = []) : as.flatMap f = f a := by
  induction as with
  | nil => cases ha
  | cons b as ih =>
    obtain ⟨hb, has⟩ := List.nodup_cons.1 hnodup
    rw [List.flatMap_cons]
    rcases List.mem_cons.1 ha with rfl | ha
    · have hrest : as.flatMap f = [] := List.flatMap_eq_nil_iff.2 fun d hd =>
        honly d (List.mem_cons_of_mem _ hd) fun he => hb (he ▸ hd)
      rw [hrest, List.append_nil]
    · rw [honly b List.mem_cons_self fun he => hb (he ▸ ha), List.nil_append]
      exact ih has ha fun d hd => honly d (List.mem_cons_of_mem b hd)

section
variable {c : Collector} {t : Tree} {owner dir : String}

theorem leadsToPackage_iff_above : c.leadsToPackage dir = true ↔ Text.Above dir c.package := by
  unfold Collector.leadsToPackage
  cases hafter : Text.afterStart? dir c.package with
  | none =>
    have hnot (rest : String) : c.package ≠ dir ++ rest := by
      intro hpackage
      rw [Text.afterStart?_eq_some_iff.2 hpackage] at hafter
      cases hafter
    refine iff_of_false Bool.false_ne_true fun habove => ?_
    obtain hself | ⟨rest, hrest⟩ := habove
    · exact hnot "" (hself.trans String.append_empty.symm)
    · exact hnot _ (hrest.trans String.append_assoc)
  | some rest =>
    have hpackage := Text.afterStart?_eq_some_iff.1 hafter
    dsimp only
    rw [Text.above_iff_toList, hpackage, String.toList_append, Bool.or_eq_true, beq_iff_eq,
      List.head?_eq_some_iff]
    simp

theorem leadsToPackage_of_mem_lineage (h : dir ∈ Text.lineage c.package) :
    c.leadsToPackage dir = true :=
  leadsToPackage_iff_above.2 (Text.mem_lineage_iff_above.1 h).2

theorem filterMap_own (c : Collector) (t : Tree) (owner dir : String) :
    ((t.filesOf dir).map (fun name => Event.file (Tree.join dir name) owner) ++
        (t.foldersOf dir).map (fun p => Event.folder p owner)).filterMap c.typeName? =
      if dir = c.package then typesIn t c.package else [] := by
  rw [List.filterMap_append, List.filterMap_map, List.filterMap_map]
  have hfolders : (t.foldersOf dir).filterMap (c.typeName? ∘ fun p => Event.folder p owner) = [] :=
    List.filterMap_eq_nil_iff.2 fun _ _ => rfl
  rw [hfolders, List.append_nil]
  have hfile {name : String} (hn : name ∈ t.filesOf dir) :
      c.typeName? (.file (Tree.join dir name) owner) = if dir = c.package then
        (Text.beforeEnd? classEnding name).map fun n => Text.segments c.package ++ [n]
      else none := by
    have hs := Tree.not_mem_filesOf hn
    rw [Collector.typeName?, Text.parentPath_join dir hs, Text.lastSegment_join dir hs]
  split
  · next hd =>
    rw [← hd, typesIn]
    refine List.filterMap_congr fun name hn => ?_
    rw [Function.comp_apply, hfile hn, if_pos hd, hd]
  · next hd =>
    refine List.filterMap_eq_nil_iff.2 fun name hn => ?_
    rw [Function.comp_apply, hfile hn, if_neg hd]

/-- From a folder on the way to the package come all its names, from any other none. -/
theorem filterMap_events (hpackage : c.package ≠ "") (dir : String) :
    (t.events owner dir).filterMap c.typeName? =
      if dir = "" ∨ dir ∈ Text.lineage c.package then typesIn t c.package else [] := by
  induction dir using Image.Tree.events.induct (t := t) with
  | case1 dir ih =>
    rw [Tree.events_eq, List.filterMap_append, filterMap_own, List.filterMap_flatMap]
    have hbelow {p : String} (hp : p ∈ t.foldersOf dir) :
        (t.events owner p).filterMap c.typeName? =
          if p ∈ Text.lineage c.package then typesIn t c.package else [] := by
      have hne : p ≠ "" := (Tree.mem_foldersOf.1 hp).2.1
      simpa [hne] using ih ⟨p, hp⟩
    have hnone (h : ∀ p ∈ t.foldersOf dir, p ∉ Text.lineage c.package) :
        (t.foldersOf dir).flatMap (fun p => (t.events owner p).filterMap c.typeName?) = [] :=
      List.flatMap_eq_nil_iff.2 fun p hp => by rw [hbelow hp, if_neg (h p hp)]
    by_cases hend : dir = c.package
    · -- The way ends here: nothing below the package is on it.
      have hself : c.package ∈ Text.lineage c.package := by
        rw [Text.lineage_of_ne hpackage]; exact List.mem_cons_self
      rw [hnone fun p hp hin => ?_, if_pos hend, List.append_nil, if_pos (.inr (hend ▸ hself))]
      rw [← hend, ← Tree.parentPath_of_mem_foldersOf hp] at hin
      exact Text.not_mem_lineage_parentPath hin
    · rw [if_neg hend, List.nil_append]
      by_cases hway : dir = "" ∨ dir ∈ Text.lineage c.package
      · rw [if_pos hway]
        cases hhas : t.hasFolder c.package with
        | false =>
          have hempty : typesIn t c.package = [] := by
            rw [typesIn, Tree.filesOf_eq_nil hhas]; rfl
          rw [hempty]
          exact List.flatMap_eq_nil_iff.2 fun p hp => by rw [hbelow hp, hempty, ite_self]
        | true =>
          -- The way goes on through just one of the folders.
          obtain ⟨next, hnext, hparent⟩ := Text.exists_mem_lineage_below hway hend
          have hmem : next ∈ t.foldersOf dir := Tree.mem_foldersOf.2
            ⟨Tree.mem_paths_iff.2 (Tree.hasFolder_of_mem_lineage hhas hnext),
              Text.ne_empty_of_mem_lineage hnext, hparent⟩
          rw [flatMap_eq_of_only Tree.nodup_foldersOf hmem, hbelow hmem, if_pos hnext]
          intro p hp hne
          rw [hbelow hp, if_neg fun hin => hne ?_]
          exact Text.eq_of_mem_lineage hin hnext
            ((Tree.parentPath_of_mem_foldersOf hp).trans hparent.symm)
      · rw [if_neg hway]
        refine hnone fun p hp hin => hway ?_
        rw [← Tree.parentPath_of_mem_foldersOf hp]
        exact Text.parentPath_mem_lineage hin

/-- What brings a name is reached in every admitted module. -/
theorem told_of_typeName? {e : Event} {name : TypeName} (h : c.typeName? e = some name)
    (hadmits : c.filter.admits e.owner = true) : Event.told c.answer .everything e = true := by
  cases e with
  | module _ => cases h
  | folder _ _ => cases h
  | file path owner =>
    simp only [Collector.typeName?] at h
    split at h
    · next hplace =>
      have hway : ∀ dir ∈ Text.lineage (Text.parentPath path),
          c.answer (.folder dir owner) = .enter := by
        intro dir hdir
        have hleads : c.leadsToPackage dir = true :=
          leadsToPackage_of_mem_lineage (hplace ▸ hdir)
        simp [Collector.answer, hleads]
      have hmodule : c.answer (.module owner) = .enter := if_pos hadmits
      simp only [Event.told, Event.reached, Event.isModule, Bool.false_or, decide_eq_true_eq]
      exact ⟨hmodule, hway⟩
    · cases h

/-- The names that one module brings. -/
theorem filterMap_module (hpackage : c.package ≠ "") (m : String × Image.Module) :
    ((Event.module m.1 :: m.2.tree.events m.1 "").filter
        (Event.told c.answer .everything)).filterMap c.typeName? =
      if c.filter.admits m.1 then typesIn m.2.tree c.package else [] := by
  have howner {e : Event} (he : e ∈ m.2.tree.events m.1 "") :
      e.isModule = false ∧ e.owner = m.1 :=
    let ⟨hm, ho, _⟩ := Tree.lineage_subset_of_mem_events he
    ⟨hm, ho⟩
  have hmodule : Event.told c.answer .everything (.module m.1) = true := rfl
  rw [List.filter_cons_of_pos hmodule, List.filterMap_cons_none rfl]
  split
  · next hadmits =>
    have hall : (m.2.tree.events m.1 "").filterMap c.typeName? = typesIn m.2.tree c.package := by
      rw [filterMap_events hpackage, if_pos (.inl rfl)]
    rw [← hall, List.filterMap_filter]
    refine List.filterMap_congr fun e he => ?_
    cases hname : c.typeName? e with
    | none => simp
    | some name =>
      rw [if_pos (told_of_typeName? hname (by rw [(howner he).2]; exact hadmits))]
  · next hadmits =>
    refine List.filterMap_eq_nil_iff.2 fun e he => ?_
    obtain ⟨he, hr⟩ := List.mem_filter.1 he
    simp [Event.told, Event.reached, (howner he).1, (howner he).2, Collector.answer, hadmits] at hr

end

/-- The names that a whole walk brings. -/
theorem filterMap_delivered {c : Collector} (hpackage : c.package ≠ "") (contents : Image.Contents) :
    (contents.delivered c.answer .everything).filterMap c.typeName? =
      listed contents c.filter c.package := by
  unfold Image.Contents.delivered Image.Contents.events listed Image.Contents.admitted
  rw [List.filter_flatMap, List.filterMap_flatMap]
  induction contents.modules.entries with
  | nil => rfl
  | cons m ms ih =>
    rw [List.flatMap_cons, ih, filterMap_module hpackage m]
    by_cases hadmits : c.filter.admits m.1
    · simp [hadmits]
    · simp [hadmits]

/-! ## The search -/

section
variable {c : Collector} (fs : FileSystem) (u : Image.Use)

/-- Takes up the name that an event brings. -/
def Collector.take (c : Collector) (e : Event) : Visit (List TypeName) Unit := do
  set ((← get) ++ (c.typeName? e).toList)

theorem visit_eq_visiting (c : Collector) : c.visit = visiting c.answer c.take := rfl

theorem from_forM_take (events : List Event) (names : List TypeName) :
    Visit.from (events.forM c.take) names fs u =
      ((.ok (), names ++ events.filterMap c.typeName?), u) := by
  induction events generalizing names with
  | nil => simp [List.forM_eq_forM]
  | cons e events ih =>
    rw [List.forM_eq_forM, List.forM_cons]
    have hstep : Visit.from (c.take e) names fs u =
        ((.ok (), names ++ (c.typeName? e).toList), u) := rfl
    rw [Visit.from_bind_of_ok names fs u _ hstep, ← List.forM_eq_forM, ih, List.filterMap_cons]
    cases c.typeName? e <;> simp

end

/-- A package of no admitted module has no names. -/
theorem listed_eq_nil {contents : Image.Contents} {filter : Image.Filter} {package : String}
    (h : (contents.admitted filter.admits).any (fun m => m.2.hasPackage package) = false)
    (hpackage : package ≠ "") : listed contents filter package = [] := by
  refine List.flatMap_eq_nil_iff.2 fun m hm => ?_
  have hfolder : m.2.tree.hasFolder package = false := by
    simpa [Image.Module.hasPackage, hpackage] using List.any_eq_false.1 h m hm
  rw [typesIn, Tree.filesOf_eq_nil hfolder]
  rfl

/-- The walk of a collector brings the listed names. -/
theorem on_walkFrom_collector {contents : Image.Contents} {fs : FileSystem} {u v : Image.Use}
    (hopen : Image.openContents.run.on fs u = (.ok contents, v)) {package : String}
    (hpackage : package ≠ "") (filter : Image.Filter) :
    (Image.walkFrom [] (Collector.visit ⟨package, filter⟩) .everything).on fs u =
      ((none, listed contents filter package), v) := by
  rw [visit_eq_visiting, Image.on_walkFrom _ _ _ _ hopen, from_forM_take,
    filterMap_delivered hpackage]
  rfl

/-- The search for the names of a package, case by case. -/
theorem on_findTypeNames {contents : Image.Contents} {fs : FileSystem} {u v : Image.Use}
    (hopen : Image.openContents.run.on fs u = (.ok contents, v)) (package : String)
    (filter : Image.Filter) :
    (findTypeNames package filter).on fs u =
      let path := Image.packagePath package
      if Image.packagePath path = "" then (none, u)
      else if (contents.admitted filter.admits).any
          (fun m => m.2.hasPackage (Image.packagePath path)) then
        (if listed contents filter path = [] then none else some (listed contents filter path), v)
      else (none, v) := by
  unfold findTypeNames
  dsimp only
  generalize Image.packagePath package = path
  rw [Image.Step.on_bind, on_isPackage hopen]
  split
  · rfl
  · next hne =>
    have hpath : path ≠ "" := by
      rintro rfl
      exact hne (by decide +kernel)
    cases hhas : (contents.admitted filter.admits).any fun m =>
      m.2.hasPackage (Image.packagePath path) with
    | false => rfl
    | true =>
      have hwalk := on_walkFrom_collector (Image.on_openContents_again hopen) hpath filter
      simp only [Bool.not_true, Bool.false_eq_true, if_false, if_true, Image.Step.on_bind, hwalk]
      simp

section
variable {contents : Image.Contents} {fs : FileSystem} {u v : Image.Use}

/-- What is answered about a package in internal form. -/
theorem findTypeNames_eq (hopen : Image.openContents.run.on fs u = (.ok contents, v))
    {package : String} (hinternal : Image.packagePath package = package) (filter : Image.Filter) :
    ((findTypeNames package filter).on fs u).1 =
      let names := if package = "" then [] else listed contents filter package
      if names = [] then none else some names := by
  rw [on_findTypeNames hopen]
  dsimp only
  rw [hinternal, hinternal]
  by_cases hpackage : package = ""
  · rw [if_pos hpackage, if_pos hpackage]
    rfl
  · rw [if_neg hpackage, if_neg hpackage]
    cases hhas : (contents.admitted filter.admits).any fun m => m.2.hasPackage package with
    | false =>
      rw [listed_eq_nil hhas hpackage]
      rfl
    | true => rfl

theorem getD_findTypeNames (hopen : Image.openContents.run.on fs u = (.ok contents, v))
    {package : String} (hinternal : Image.packagePath package = package) (filter : Image.Filter) :
    ((findTypeNames package filter).on fs u).1.getD [] =
      if package = "" then [] else listed contents filter package := by
  rw [findTypeNames_eq hopen hinternal]
  dsimp only
  generalize (if package = "" then [] else listed contents filter package) = names
  split
  · next h => exact h.symm
  · rfl

end

/-- **The search for the names of a package loses none and adds none.** In an image
    that opens it gives the listed names, and `none` just if there are none: those of
    the admitted modules in ascending order, of each the names of the package's own
    files in ascending order, and none of these twice. -/
theorem findTypeNames_eq_listed {contents : Image.Contents} {fs : FileSystem} {u v : Image.Use}
    (hopen : Image.openContents.run.on fs u = (.ok contents, v)) {package : String}
    (hpackage : package ≠ "") (hinternal : Image.packagePath package = package)
    (filter : Image.Filter) :
    (findTypeNames package filter).on fs u =
      (if listed contents filter package = [] then none
        else some (listed contents filter package), v) ∧
    ((contents.admitted filter.admits).map (·.1)).Pairwise (· < ·) ∧
    ∀ m ∈ contents.admitted filter.admits,
      (m.2.tree.filesOf package).Pairwise (· < ·) ∧ (typesIn m.2.tree package).Nodup := by
  refine ⟨?_, ?_, fun m _ => ⟨ascending_filesOf, nodup_typesIn⟩⟩
  · rw [on_findTypeNames hopen]
    dsimp only
    rw [hinternal, hinternal, if_neg hpackage]
    cases hhas : (contents.admitted filter.admits).any fun m => m.2.hasPackage package with
    | false =>
      rw [if_pos (listed_eq_nil hhas hpackage)]
      rfl
    | true => rfl
  · exact contents.modules.ascending.sublist (List.filter_sublist.map _)

/-- Two modules with a package each, next to a folder below it and one whose name
    begins like its own. -/
def twoPackages : Image.Contents :=
  ⟨.exploded, (NameMap.empty.insert "m"
      ⟨.directory "m", .ofEntries ["a/b/D.class", "a/b/c/F.class", "a/b/C.class", "a/b/C.txt"]⟩).insert
    "l" ⟨.directory "l", .ofEntries ["a/bx/E.class", "a/b/C.class"]⟩⟩

theorem findTypeNames_twoPackages :
    Image.openContents.run.on (.emptyAt [])
        ⟨{ Image.new "r" with contents := some twoPackages }, []⟩ =
      (.ok twoPackages, ⟨{ Image.new "r" with contents := some twoPackages }, []⟩) ∧
    "a/b" ≠ "" ∧ Image.packagePath "a/b" = "a/b" ∧
    ((findTypeNames "a/b" .all).on (.emptyAt [])
        ⟨{ Image.new "r" with contents := some twoPackages }, []⟩).1 =
      some [["a", "b", "C"], ["a", "b", "C"], ["a", "b", "D"]] := by
  have hopen : Image.openContents.run.on (.emptyAt [])
      ⟨{ Image.new "r" with contents := some twoPackages }, []⟩ =
      (.ok twoPackages, ⟨{ Image.new "r" with contents := some twoPackages }, []⟩) := rfl
  have hpackage : "a/b" ≠ "" := by decide
  have hinternal : Image.packagePath "a/b" = "a/b" := by decide +kernel
  refine ⟨hopen, hpackage, hinternal, ?_⟩
  rw [(findTypeNames_eq_listed hopen hpackage hinternal .all).1]
  decide +kernel

end Entry

end PlatformImage
