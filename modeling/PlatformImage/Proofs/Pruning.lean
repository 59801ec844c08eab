import Mathlib.Logic.Function.Iterate
import PlatformImage.Proofs.Resolve
import PlatformImage.Proofs.TypeNames
/-! Where the search for the names of a package cuts a walk short.

A folder leads to a package if it is above it: the package's name begins like the folder's, and
goes on with a `/` if it goes on. There are two more ways to tell: the segments of the folder are
the first segments of the package (`segments_prefix_iff`), and the folder is reached from the
package by going up (`mem_lineage_iff_iterate`). Slashes at an end or in a row are no exception.
The root is one to the second way: from every path one comes to it in the end, but a text without
segments is the first one of just the paths that begin with a slash. -/
namespace PlatformImage

namespace Text

/-! ## The first segments of a path -/

section
variable {α : Type} [DecidableEq α] {sep c d : α} {cs ds : List α}

/-- The parts of a list that begins with something else than a separator. -/
theorem cut_cons_of_ne (hc : c ≠ sep) (cs : List α) : ∃ part parts,
    cut sep cs = part :: parts ∧ cut sep (c :: cs) = (c :: part) :: parts := by
  cases hcut : cut sep cs with
  | nil => exact absurd hcut (cut_ne_nil sep cs)
  | cons part parts =>
    refine ⟨part, parts, rfl, ?_⟩
    rw [cut, if_neg hc, hcut]

theorem cut_cons_self (sep : α) (cs : List α) : cut sep (sep :: cs) = [] :: cut sep cs := by
  rw [cut, if_pos rfl]

/-- The parts of an empty list come first where there is nothing or a separator. -/
theorem cut_nil_prefix_iff : cut sep [] <+: cut sep cs ↔ cs = [] ∨ ∃ rest, cs = sep :: rest := by
  cases cs with
  | nil => simp
  | cons c cs =>
    by_cases hc : c = sep
    · subst hc
      simp [cut]
    · obtain ⟨part, parts, -, hcut⟩ := cut_cons_of_ne hc cs
      rw [hcut]
      simp [cut, hc]

theorem not_cut_cons_prefix_nil : ¬cut sep (d :: ds) <+: cut sep [] := by
  by_cases hd : d = sep
  · subst hd
    rw [cut_cons_self]
    simp [cut, cut_ne_nil]
  · obtain ⟨part, parts, -, hcut⟩ := cut_cons_of_ne hd ds
    rw [hcut]
    simp [cut]

/-- A first element in common plays no part. -/
theorem cut_cons_prefix_iff : cut sep (c :: ds) <+: cut sep (c :: cs) ↔
    cut sep ds <+: cut sep cs := by
  by_cases hc : c = sep
  · subst hc
    rw [cut_cons_self, cut_cons_self, List.cons_prefix_cons, and_iff_right rfl]
  · obtain ⟨part, parts, hds, hcds⟩ := cut_cons_of_ne hc ds
    obtain ⟨part', parts', hcs, hccs⟩ := cut_cons_of_ne hc cs
    rw [hds, hcs, hcds, hccs, List.cons_prefix_cons, List.cons_prefix_cons, List.cons_inj_right]

/-- How the first part begins tells how the list does. -/
theorem exists_head?_cut_cons (sep c : α) (cs : List α) : ∃ part parts,
    cut sep (c :: cs) = part :: parts ∧ part.head? = if c = sep then none else some c := by
  by_cases hc : c = sep
  · subst hc
    exact ⟨[], cut c cs, cut_cons_self c cs, by simp⟩
  · obtain ⟨part, parts, -, hcut⟩ := cut_cons_of_ne hc cs
    exact ⟨c :: part, parts, hcut, by simp [hc]⟩

theorem eq_of_cut_cons_prefix (h : cut sep (d :: ds) <+: cut sep (c :: cs)) : d = c := by
  obtain ⟨part, parts, hcutd, hd⟩ := exists_head?_cut_cons sep d ds
  obtain ⟨part', parts', hcutc, hc⟩ := exists_head?_cut_cons sep c cs
  rw [hcutd, hcutc, List.cons_prefix_cons] at h
  have hsame : (if d = sep then none else some d) = if c = sep then none else some c := by
    rw [← hd, ← hc, h.1]
  by_cases hdsep : d = sep
  · by_cases hcsep : c = sep
    · rw [hdsep, hcsep]
    · simp [hdsep, hcsep] at hsame
  · by_cases hcsep : c = sep
    · simp [hdsep, hcsep] at hsame
    · simpa [hdsep, hcsep] using hsame

/-- The parts of a list come first in those of the list itself, and of what goes on behind it with
    a separator. -/
theorem cut_prefix_iff : cut sep ds <+: cut sep cs ↔
    cs = ds ∨ ∃ rest, cs = ds ++ sep :: rest := by
  induction ds generalizing cs with
  | nil => exact cut_nil_prefix_iff
  | cons d ds ih =>
    cases cs with
    | nil =>
      rw [iff_false_left not_cut_cons_prefix_nil]
      simp
    | cons c cs =>
      by_cases hdc : d = c
      · subst hdc
        rw [cut_cons_prefix_iff, ih]
        simp
      · rw [iff_false_left (mt eq_of_cut_cons_prefix hdc)]
        simp [Ne.symm hdc]

end

/-- The segments of a folder are the first ones of just the paths that it is above. -/
theorem segments_prefix_iff {dir path : String} :
    segments dir <+: segments path ↔ Above dir path := by
  rw [above_iff_toList, ← cut_prefix_iff]
  constructor
  · intro h
    have hback := h.map String.toList
    simpa [segments, Function.comp_def] using hback
  · intro h
    exact h.map String.ofList

/-! ## Going up -/

/-- The lineage of a path is what one gets to when one goes up from it, but the root. -/
theorem mem_lineage_iff_iterate {dir path : String} :
    dir ∈ lineage path ↔ dir ≠ "" ∧ ∃ n, parentPath^[n] path = dir := by
  induction path using lineage.induct with
  | case1 =>
    have hroot (n : Nat) : parentPath^[n] "" = "" := Function.iterate_fixed parentPath_empty n
    simp only [lineage_empty, List.not_mem_nil, hroot, exists_const, false_iff, not_and]
    intro hdir hself
    exact hdir hself.symm
  | case2 path hpath ih =>
    rw [lineage_of_ne hpath, List.mem_cons, ih]
    constructor
    · intro h
      obtain rfl | ⟨hdir, n, hn⟩ := h
      · exact ⟨hpath, 0, rfl⟩
      · exact ⟨hdir, n + 1, hn⟩
    · intro h
      obtain ⟨hdir, n, hn⟩ := h
      cases n with
      | zero => exact .inl hn.symm
      | succ n => exact .inr ⟨hdir, n, hn⟩

end Text

namespace Entry

/-- **A walk is cut short at segments only.** A folder leads to a package, and is entered on the
    way, just if its segments are the first ones of the package. Of the folders other than the root
    those are the package itself and what one gets to when one goes up from it again and again,
    whatever empty segments there are. -/
theorem leadsToPackage_iff (c : Collector) (dir : String) :
    (c.leadsToPackage dir = true ↔ Text.segments dir <+: Text.segments c.package) ∧
    (∀ owner, c.answer (.folder dir owner) = .enter ↔
      Text.segments dir <+: Text.segments c.package) ∧
    (dir ≠ "" ∧ c.leadsToPackage dir = true ↔
      dir ≠ "" ∧ ∃ n, Text.parentPath^[n] c.package = dir) := by
  have hfirst : c.leadsToPackage dir = true ↔ Text.segments dir <+: Text.segments c.package :=
    leadsToPackage_iff_above.trans Text.segments_prefix_iff.symm
  refine ⟨hfirst, ?_, ?_⟩
  · intro owner
    rw [← hfirst]
    cases hleads : c.leadsToPackage dir <;> simp [Collector.answer, hleads]
  · rw [leadsToPackage_iff_above, ← Text.mem_lineage_iff_above]
    exact Text.mem_lineage_iff_iterate

end Entry

end PlatformImage
