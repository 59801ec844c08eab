import PlatformImage.Proofs.LastWriter
/-! What a snapshot says of the descriptors that it was made of.

Under each name it has the descriptors of that name, in their order and each once
(`Index.get?_ofList`). So a name is there just if a descriptor has it, and the first descriptor of
a name is the first one that was published (`Snapshot.get?_published`). Descriptors that are there
already add nothing (`Index.ofList_append`).

All snapshots in a register of a session were made of descriptors (`snapshot_made`). That is why
it does not matter there whether a module is asked for by its name among the names, or by its
descriptor. -/
namespace PlatformImage

open ClassFile (ModuleDescriptor)

namespace Registry

variable {ds es : List ModuleDescriptor} {name : String}

/-! ## The descriptors of a name -/

/-- Taking out what comes again leaves the first item. -/
theorem head?_eraseDups {α : Type} [BEq α] (as : List α) : as.eraseDups.head? = as.head? := by
  cases as with
  | nil => rfl
  | cons a as => rw [List.eraseDups_cons, List.head?_cons, List.head?_cons]

/-- No name has an empty list of descriptors. -/
theorem Index.get?_ofList_eq (ds : List ModuleDescriptor) (name : String) :
    (Index.ofList ds).get? name =
      if ds.filter (·.name = name) = [] then none
      else some (ds.filter (·.name = name)).eraseDups := by
  have hbucket := Index.get?_ofList ds name
  have hcontains : (Index.ofList ds).contains name ↔ ds.filter (·.name = name) ≠ [] := by
    rw [Index.contains_ofList, Ne, List.filter_eq_nil_iff]
    simp
  unfold NameMap.contains at hcontains
  cases hget : (Index.ofList ds).get? name with
  | none =>
    rw [hget] at hcontains
    have hempty : ds.filter (·.name = name) = [] := by
      by_contra hne
      exact absurd (hcontains.2 hne) (by simp)
    rw [if_pos hempty]
  | some bucket =>
    rw [hget] at hbucket hcontains
    rw [if_neg (hcontains.1 rfl), ← hbucket, Option.getD_some]

/-- An index is known by the descriptors of each name. -/
theorem Index.ofList_congr
    (h : ∀ name, (ds.filter (·.name = name)).eraseDups = (es.filter (·.name = name)).eraseDups) :
    Index.ofList ds = Index.ofList es := by
  have hempty (as : List ModuleDescriptor) : as.eraseDups = [] ↔ as = [] := by
    rw [← List.head?_eq_none_iff, head?_eraseDups, List.head?_eq_none_iff]
  apply NameMap.ext_get?
  intro name
  have hnil : ds.filter (·.name = name) = [] ↔ es.filter (·.name = name) = [] := by
    rw [← hempty, h name, hempty]
  rw [Index.get?_ofList_eq, Index.get?_ofList_eq, h name]
  simp only [hnil]

/-- Descriptors that are there already add nothing. -/
theorem Index.ofList_append (h : es ⊆ ds) : Index.ofList (ds ++ es) = Index.ofList ds := by
  apply Index.ofList_congr
  intro name
  have hgone : (es.filter (·.name = name)).removeAll (ds.filter (·.name = name)) = [] := by
    rw [List.removeAll, List.filter_eq_nil_iff]
    intro d hd
    obtain ⟨hmem, hname⟩ := List.mem_filter.1 hd
    have hthere : d ∈ ds.filter (·.name = name) := List.mem_filter.2 ⟨h hmem, hname⟩
    simpa using hthere
  rw [List.filter_append, List.eraseDups_append, hgone]
  exact List.append_nil _

/-! ## Snapshots -/

namespace Snapshot

variable {s : Snapshot}

/-- The first descriptor of a name is the first one that was published with it. -/
theorem get?_published (hs : s.modules = .ofList ds) (name : String) :
    s.get? name = ds.find? fun d => d.name = name := by
  have hbucket : s.descriptors name = (ds.filter (·.name = name)).eraseDups := by
    rw [descriptors, hs]
    exact Index.get?_ofList ds name
  -- The name is asked for once more in the list, but all descriptors there have it.
  have hnamed : (ds.filter (·.name = name)).eraseDups.filter (fun d => d.name == name) =
      (ds.filter (·.name = name)).eraseDups := by
    apply List.filter_eq_self.2
    intro d hd
    have hmem := (List.mem_filter.1 (List.mem_eraseDups.1 hd)).2
    exact beq_iff_eq.2 (of_decide_eq_true hmem)
  calc s.get? name
      = ((s.descriptors name).filter fun d => d.name == name).head? := List.head?_filter.symm
    _ = (ds.filter (·.name = name)).eraseDups.head? := by rw [hbucket, hnamed]
    _ = (ds.filter (·.name = name)).head? := head?_eraseDups _
    _ = ds.find? fun d => d.name = name := List.head?_filter

theorem contains_published (hs : s.modules = .ofList ds) :
    s.contains name ↔ ∃ d ∈ ds, d.name = name := by
  rw [contains, hs]
  exact Index.contains_ofList

theorem isSome_get?_published (hs : s.modules = .ofList ds) :
    (s.get? name).isSome ↔ ∃ d ∈ ds, d.name = name := by
  rw [get?_published hs, List.find?_isSome]
  simp

theorem mem_names : name ∈ s.names ↔ s.contains name := by
  unfold names contains NameMap.contains
  rw [NameMap.mem_keys_iff, Option.isSome_iff_exists]

/-- Whether the name is there or a descriptor under it is one question. -/
theorem contains_eq_isSome (hs : s.modules = .ofList ds) (name : String) :
    s.contains name = (s.get? name).isSome := by
  rw [Bool.eq_iff_iff, contains_published hs, isSome_get?_published hs]

end Snapshot

end Registry

/-! ## Snapshots in a session -/

namespace Session

open Entry (ModuleStep)
open Registry (keyOf)

/-- The snapshots in the registers of a session were made of descriptors. -/
theorem snapshot_made {files : FileSystem} {vars : JavaHome.Variables} {rs : List Request}
    {k : Option String} {q : String} {snapshot : Registry.Snapshot}
    (h : (((start files vars).after rs).register k).snapshot? q = some snapshot) :
    ∃ ds, snapshot.modules = .ofList ds := by
  rw [register_eq_publishAll, register_start] at h
  obtain ⟨before, path, ds, after, -, -, -, rfl⟩ := Registry.snapshot?_publishAll.1 h
  exact ⟨ds, rfl⟩

section
variable {s : Session} {name module : String} {use : EntryUse} {image : Image}

/-- An entry answers for a module with the descriptor registered under the path of its image. -/
theorem answer_getModule (huse : s.entries.get? name = some use)
    (himage : s.images[use.image]? = some image) (module : String) :
    (s.run (.useEntry name (.getModule module))).answer =
      .module (((s.register use.register).snapshot? (keyOf s.files image)).bind
        fun snapshot => snapshot.get? module) := by
  have hstep := Registry.on_getModule (s.register use.register) s.files ⟨image, []⟩ module
  rw [run, useEntry_eq huse himage, entryResult]
  change Answer.module (ModuleStep.on (Entry.getModule module) _ _ _).1.1 = _
  rw [hstep, Registry.modulesAt]
  cases (s.register use.register).snapshot? (keyOf s.files image) <;> rfl

/-- What is not there answers nothing. -/
theorem answer_nothing (h : ∀ use, s.entries.get? name = some use → s.images[use.image]? = none)
    (request : EntryRequest) : (s.run (.useEntry name request)).answer = .nothing := by
  rw [run, useEntry]
  cases huse : s.entries.get? name with
  | none => rfl
  | some use =>
    dsimp only
    rw [h use huse]

/-- If all snapshots were made of descriptors, an entry serves the modules that it has descriptors
    for. -/
theorem serves_iff_getModule (hmade : ∀ k q snapshot, (s.register k).snapshot? q = some snapshot →
      ∃ ds, snapshot.modules = .ofList ds) :
    s.Serves name module ↔
      ∃ d, (s.run (.useEntry name (.getModule module))).answer = .module (some d) := by
  by_cases hthere : ∃ use image, s.entries.get? name = some use ∧ s.images[use.image]? = some image
  · obtain ⟨use, image, huse, himage⟩ := hthere
    rw [serves_iff huse himage, answer_getModule huse himage, Registry.serves, Registry.modulesAt]
    cases hsnapshot : (s.register use.register).snapshot? (keyOf s.files image) with
    | none => simp
    | some snapshot =>
      obtain ⟨ds, hds⟩ := hmade _ _ _ hsnapshot
      have hsame := Registry.Snapshot.contains_eq_isSome hds module
      rw [Registry.Snapshot.contains] at hsame
      simp [hsame, Option.isSome_iff_exists]
  · have hnone : ∀ use, s.entries.get? name = some use → s.images[use.image]? = none := by
      intro use huse
      rw [Option.eq_none_iff_forall_ne_some]
      intro image himage
      exact hthere ⟨use, image, huse, himage⟩
    rw [Serves, answer_nothing hnone, answer_nothing hnone]
    simp

end

end Session

namespace Registry

/-- **A snapshot has all descriptors that were published, each once.** Under each name it has those
    of that name, in the order in which they first occur. A name is contained, leads to a
    descriptor, and is one of the names, just if one of them has it; and it leads to the first one
    that has it. The names are in strictly ascending order, and as many as the size says. To
    publish everything twice is the same. And in every session an entry serves just the modules
    that it can give a descriptor of. -/
theorem snapshot_indexes (r : Registry) (image : String) (ds : List ModuleDescriptor) :
    ∃ s, (r.publish image ds).snapshot? image = some s ∧
      (∀ name, s.descriptors name = (ds.filter (·.name = name)).eraseDups ∧
        (s.contains name ↔ ∃ d ∈ ds, d.name = name) ∧
        ((s.get? name).isSome ↔ ∃ d ∈ ds, d.name = name) ∧
        (name ∈ s.names ↔ ∃ d ∈ ds, d.name = name) ∧
        s.get? name = ds.find? fun d => d.name = name) ∧
      s.names.Pairwise (· < ·) ∧ s.names.length = s.size ∧
      (∃ s', (r.publish image (ds ++ ds)).snapshot? image = some s' ∧ s'.modules = s.modules) ∧
      ∀ files vars rs name module,
        let session := (Session.start files vars).after rs
        session.Serves name module ↔ ∃ d,
          (session.run (.useEntry name (.getModule module))).answer = .module (some d) := by
  have hpublished (ds : List ModuleDescriptor) :
      (r.publish image ds).snapshot? image = some (r.nextSnapshot image ds) := by
    have hself : Path.same image image = true := beq_self_eq_true _
    rw [snapshot?_publish, if_pos hself]
  have hmade : (r.nextSnapshot image ds).modules = .ofList ds := rfl
  refine ⟨r.nextSnapshot image ds, hpublished ds, fun name => ⟨?_, ?_, ?_, ?_, ?_⟩, ?_, ?_, ?_, ?_⟩
  · exact Index.get?_ofList ds name
  · exact Snapshot.contains_published hmade
  · exact Snapshot.isSome_get?_published hmade
  · rw [Snapshot.mem_names]
    exact Snapshot.contains_published hmade
  · exact Snapshot.get?_published hmade name
  · exact (Index.ofList ds).ascending
  · exact List.length_map ..
  · exact ⟨_, hpublished (ds ++ ds), Index.ofList_append (List.Subset.refl ds)⟩
  · intro files vars rs name module session
    exact Session.serves_iff_getModule fun k q snapshot h => Session.snapshot_made h

end Registry

end PlatformImage
