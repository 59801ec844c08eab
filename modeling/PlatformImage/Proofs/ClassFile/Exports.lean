import Mathlib.Data.Set.Finite.Basic
import PlatformImage.ClassFile.ModuleDescriptor
/-! The packages that a module exports to all modules, and to each of them.

The same directives are searched for both. What is exported to one module is what is exported to
all, and what some directive names that module for (`exportsPackageTo_iff_or`). So a stranger, a
module that no directive names, is exported just the former (`exportsPackageTo_stranger`). The
directives name only so many modules, so there are strangers, and a package that is exported to
each module is exported to all (`exportsPackage_iff_forall`). -/
namespace PlatformImage.ClassFile.ModuleDescriptor

variable {d : ModuleDescriptor} {package m : String}

/-! ## The two searches -/

theorem exportsPackage_iff : d.exportsPackage package = true ↔
    ∃ e ∈ d.exports, e.package = package ∧ e.isQualified = false := by
  simp [exportsPackage]

theorem exportsPackage_eq_false_iff : d.exportsPackage package = false ↔
    ∀ e ∈ d.exports, e.package = package → e.isQualified = true := by
  simp [exportsPackage]

theorem exportsPackageTo_iff : d.exportsPackageTo package m = true ↔
    ∃ e ∈ d.exports, e.package = package ∧ (e.isQualified = false ∨ m ∈ e.targets) := by
  simp [exportsPackageTo]

/-- A package is exported to a module with all others, or by name. -/
theorem exportsPackageTo_iff_or : d.exportsPackageTo package m = true ↔
    d.exportsPackage package = true ∨ ∃ e ∈ d.exports, e.package = package ∧ m ∈ e.targets := by
  rw [exportsPackageTo_iff, exportsPackage_iff]
  constructor
  · intro h
    obtain ⟨e, he, hpackage, hopen | hnamed⟩ := h
    · exact .inl ⟨e, he, hpackage, hopen⟩
    · exact .inr ⟨e, he, hpackage, hnamed⟩
  · intro h
    obtain ⟨e, he, hpackage, hopen⟩ | ⟨e, he, hpackage, hnamed⟩ := h
    · exact ⟨e, he, hpackage, .inl hopen⟩
    · exact ⟨e, he, hpackage, .inr hnamed⟩

/-! ## Strangers -/

/-- The modules that the directives name. -/
def namedTargets (d : ModuleDescriptor) : List String := d.exports.flatMap (·.targets)

/-- Among infinitely many modules some is named by no directive. -/
theorem exists_stranger (d : ModuleDescriptor) {names : Set String} (h : names.Infinite) :
    ∃ m ∈ names, m ∉ d.namedTargets := by
  obtain ⟨m, hm, hnot⟩ := h.exists_notMem_finset d.namedTargets.toFinset
  refine ⟨m, hm, ?_⟩
  rwa [List.mem_toFinset] at hnot

/-- A stranger is exported just what is exported to all. -/
theorem exportsPackageTo_stranger (hm : m ∉ d.namedTargets) (package : String) :
    d.exportsPackageTo package m = d.exportsPackage package := by
  rw [Bool.eq_iff_iff, exportsPackageTo_iff_or]
  apply or_iff_left
  intro hnamed
  obtain ⟨e, he, -, htarget⟩ := hnamed
  exact hm (List.mem_flatMap.2 ⟨e, he, htarget⟩)

/-- Whichever texts are names of modules, as long as there are infinitely many: what is exported to
    each of them is exported to all. -/
theorem exportsPackage_of_forall_mem {names : Set String} (hnames : names.Infinite)
    (h : ∀ m ∈ names, d.exportsPackageTo package m = true) : d.exportsPackage package = true := by
  obtain ⟨m, hm, hstranger⟩ := d.exists_stranger hnames
  rw [← exportsPackageTo_stranger hstranger]
  exact h m hm

/-- **Exported to all is exported to each.** A package is exported to all modules just if it is
    exported to every single one. It is exported to a module but not to all just if each directive
    for it is qualified, and some one of them names the module. -/
theorem exportsPackage_iff_forall (d : ModuleDescriptor) (package : String) :
    (d.exportsPackage package = true ↔ ∀ m, d.exportsPackageTo package m = true) ∧
    ∀ m, (d.exportsPackageTo package m = true ∧ d.exportsPackage package = false) ↔
      (∀ e ∈ d.exports, e.package = package → e.isQualified = true) ∧
      ∃ e ∈ d.exports, e.package = package ∧ m ∈ e.targets := by
  constructor
  · constructor
    · intro hall m
      exact exportsPackageTo_iff_or.2 (.inl hall)
    · intro heach
      apply exportsPackage_of_forall_mem Set.infinite_univ
      intro m _
      exact heach m
  · intro m
    rw [exportsPackageTo_iff_or, ← exportsPackage_eq_false_iff]
    constructor
    · intro h
      obtain ⟨hall | hnamed, hnot⟩ := h
      · rw [hnot] at hall
        cases hall
      · exact ⟨hnot, hnamed⟩
    · intro h
      obtain ⟨hnot, hnamed⟩ := h
      exact ⟨.inr hnamed, hnot⟩

end PlatformImage.ClassFile.ModuleDescriptor
