import Mathlib.Data.List.Basic
import PlatformImage.Image.Tree
/-! Paths within a module: a name joined to a folder can be taken off again, and
each folder has a lineage, the folders that one is in when one is in it.

`lineage p` is `p` itself and the folders above it, the innermost first and without
the root: those that `p` begins with, up to a `/` (`mem_lineage_iff_above`). Two folders of
one lineage are never inside of the same folder (`eq_of_mem_lineage`), which is what keeps the
subtrees of two sister folders apart. -/
namespace PlatformImage.Text

/-! ## Beginnings and ends -/

theorem afterStart?_eq_some_iff {start s rest : String} :
    afterStart? start s = some rest ↔ s = start ++ rest := by
  unfold afterStart?
  rw [Option.map_eq_some_iff]
  constructor
  · rintro ⟨r, hr, rfl⟩
    apply String.toList_injective
    simp [← List.isPrefixOf?_eq_some_iff_append_eq.1 hr]
  · rintro rfl
    exact ⟨rest.toList, List.isPrefixOf?_eq_some_iff_append_eq.2 (by simp), by simp⟩

theorem beforeEnd?_eq_some_iff {ending s front : String} :
    beforeEnd? ending s = some front ↔ s = front ++ ending := by
  unfold beforeEnd?
  rw [Option.map_eq_some_iff]
  constructor
  · rintro ⟨r, hr, rfl⟩
    apply String.toList_injective
    simp [← List.isSuffixOf?_eq_some_iff_append_eq.1 hr]
  · rintro rfl
    exact ⟨front.toList, List.isSuffixOf?_eq_some_iff_append_eq.2 (by simp), by simp⟩

/-! ## The last cut -/

theorem cutLast_eq_none {α : Type} [DecidableEq α] {sep : α} {cs : List α} (h : sep ∉ cs) :
    cutLast sep cs = none := by
  cases hc : cutLast sep cs with
  | none => rfl
  | some p =>
    obtain ⟨before, after⟩ := p
    exact absurd (by rw [eq_append_of_cutLast hc]; simp) h

theorem cutLast_append {α : Type} [DecidableEq α] {sep : α} (before after : List α)
    (h : sep ∉ after) : cutLast sep (before ++ sep :: after) = some (before, after) := by
  induction before with
  | nil => simp [cutLast, cutLast_eq_none h]
  | cons c before ih => simp [cutLast, ih]

theorem splitLast_append (dir : String) {name : String} (h : '/' ∉ name.toList) :
    splitLast '/' (dir ++ "/" ++ name) = some (dir, name) := by
  unfold splitLast
  have hl : (dir ++ "/" ++ name).toList = dir.toList ++ '/' :: name.toList := by simp
  rw [hl, cutLast_append _ _ h]
  simp

theorem splitLast_single {name : String} (h : '/' ∉ name.toList) : splitLast '/' name = none := by
  unfold splitLast
  rw [cutLast_eq_none h]
  rfl

/-- A path with a `/` is its parent, a `/` and its last segment. -/
theorem eq_append_of_splitLast {p dir name : String} (h : splitLast '/' p = some (dir, name)) :
    p = dir ++ "/" ++ name := by
  unfold splitLast at h
  obtain ⟨⟨before, after⟩, hc, he⟩ := Option.map_eq_some_iff.1 h
  cases he
  apply String.toList_injective
  rw [eq_append_of_cutLast hc]
  simp

theorem parentPath_append (dir : String) {name : String} (h : '/' ∉ name.toList) :
    parentPath (dir ++ "/" ++ name) = dir := by
  rw [parentPath, splitLast_append dir h]
  rfl

theorem lastSegment_append (dir : String) {name : String} (h : '/' ∉ name.toList) :
    lastSegment (dir ++ "/" ++ name) = name := by
  rw [lastSegment, splitLast_append dir h]
  rfl

theorem lastSegment_single {name : String} (h : '/' ∉ name.toList) : lastSegment name = name := by
  rw [lastSegment, splitLast_single h]
  rfl

/-- A path is a single name, or its parent, a `/` and its last segment. -/
theorem eq_lastSegment_or (p : String) :
    parentPath p = "" ∧ p = lastSegment p ∨ p = parentPath p ++ "/" ++ lastSegment p := by
  unfold parentPath lastSegment
  cases hsplit : splitLast '/' p with
  | none => exact .inl ⟨rfl, rfl⟩
  | some parts => exact .inr (eq_append_of_splitLast hsplit)

/-! ## The folders above a path -/

/-- A folder and those above it, without the root. -/
def lineage (dir : String) : List String :=
  if _h : dir = "" then [] else dir :: lineage (parentPath dir)
termination_by dir.length
decreasing_by exact length_parentPath_lt _h

@[simp] theorem lineage_empty : lineage "" = [] := by simp [lineage]

theorem lineage_of_ne {dir : String} (h : dir ≠ "") :
    lineage dir = dir :: lineage (parentPath dir) := by
  rw [lineage, dif_neg h]

theorem ne_empty_of_mem_lineage {d dir : String} (h : d ∈ lineage dir) : d ≠ "" := by
  induction dir using lineage.induct with
  | case1 => simp at h
  | case2 dir hne ih =>
    rw [lineage_of_ne hne] at h
    rcases List.mem_cons.1 h with rfl | h
    · exact hne
    · exact ih h

/-- Being in a folder's lineage goes on upwards. -/
theorem lineage_subset {d dir : String} (h : d ∈ lineage dir) : lineage d ⊆ lineage dir := by
  induction dir using lineage.induct with
  | case1 => simp at h
  | case2 dir hne ih =>
    rw [lineage_of_ne hne] at h ⊢
    rcases List.mem_cons.1 h with rfl | h
    · rw [lineage_of_ne hne]; exact List.Subset.refl _
    · exact List.subset_cons_of_subset _ (ih h)

theorem parentPath_mem_lineage {d dir : String} (h : d ∈ lineage dir) :
    parentPath d = "" ∨ parentPath d ∈ lineage dir := by
  by_cases hp : parentPath d = ""
  · exact .inl hp
  · refine .inr (lineage_subset h ?_)
    rw [lineage_of_ne (ne_empty_of_mem_lineage h), lineage_of_ne hp]
    simp

theorem length_le_of_mem_lineage {d dir : String} (h : d ∈ lineage dir) :
    d.length ≤ dir.length := by
  induction dir using lineage.induct with
  | case1 => simp at h
  | case2 dir hne ih =>
    rw [lineage_of_ne hne] at h
    rcases List.mem_cons.1 h with rfl | h
    · exact Nat.le_refl _
    · exact Nat.le_trans (ih h) (Nat.le_of_lt (length_parentPath_lt hne))

/-- No folder lies in one of the folders above it. -/
theorem not_mem_lineage_parentPath {dir : String} : dir ∉ lineage (parentPath dir) := by
  intro h
  have := length_le_of_mem_lineage h
  have := length_parentPath_lt (ne_empty_of_mem_lineage h)
  omega

/-- Of two folders in one lineage one lies in the other. -/
theorem mem_lineage_or {d e dir : String} (hd : d ∈ lineage dir) (he : e ∈ lineage dir) :
    d ∈ lineage e ∨ e ∈ lineage d := by
  induction dir using lineage.induct with
  | case1 => simp at hd
  | case2 dir hne ih =>
    have whole {a : String} (ha : a ∈ lineage dir) : a ∈ dir :: lineage (parentPath dir) := by
      rwa [lineage_of_ne hne] at ha
    rcases List.mem_cons.1 (whole hd) with rfl | hd'
    · exact .inr he
    · rcases List.mem_cons.1 (whole he) with rfl | he'
      · exact .inl hd
      · exact ih hd' he'

/-- Folders of one lineage that are right inside of the same folder are the same. -/
theorem eq_of_mem_lineage {d e dir : String} (hd : d ∈ lineage dir) (he : e ∈ lineage dir)
    (hp : parentPath d = parentPath e) : d = e := by
  have below {a b : String} (ha : a ∈ lineage b) (hb : b ≠ "")
      (hab : parentPath a = parentPath b) : a = b := by
    rw [lineage_of_ne hb] at ha
    rcases List.mem_cons.1 ha with rfl | ha
    · rfl
    · rw [← hab] at ha
      exact absurd ha not_mem_lineage_parentPath
  rcases mem_lineage_or hd he with h | h
  · exact below h (ne_empty_of_mem_lineage he) hp
  · exact (below h (ne_empty_of_mem_lineage hd) hp.symm).symm

/-! ## What is above a path -/

/-- A folder is above a path if the path is the folder's, or goes on behind it with a `/`. -/
def Above (dir path : String) : Prop := path = dir ∨ ∃ rest, path = dir ++ "/" ++ rest

section
variable {dir path : String}

theorem above_iff_toList : Above dir path ↔
    path.toList = dir.toList ∨ ∃ rest, path.toList = dir.toList ++ '/' :: rest := by
  unfold Above
  rw [String.toList_inj]
  apply or_congr_right
  constructor
  · intro h
    obtain ⟨rest, rfl⟩ := h
    exact ⟨rest.toList, by simp⟩
  · intro h
    obtain ⟨rest, hrest⟩ := h
    refine ⟨String.ofList rest, String.toList_injective ?_⟩
    rw [hrest]
    simp

/-- Nothing but the root is above it. -/
theorem eq_empty_of_above_empty (h : Above dir "") : dir = "" := by
  obtain hroot | ⟨rest, hroot⟩ := above_iff_toList.1 h
  · exact String.toList_injective hroot.symm
  · simp at hroot

/-- A folder above the parent of a path is above the path. -/
theorem Above.of_parentPath (h : Above dir (parentPath path)) (hdir : dir ≠ "") :
    Above dir path := by
  obtain ⟨hroot, -⟩ | hpath := eq_lastSegment_or path
  · rw [hroot] at h
    exact absurd (eq_empty_of_above_empty h) hdir
  · obtain hparent | ⟨rest, hrest⟩ := h
    · exact .inr ⟨lastSegment path, by rw [← hparent]; exact hpath⟩
    · refine .inr ⟨rest ++ "/" ++ lastSegment path, ?_⟩
      calc path = parentPath path ++ "/" ++ lastSegment path := hpath
        _ = dir ++ "/" ++ rest ++ "/" ++ lastSegment path := by rw [hrest]
        _ = dir ++ "/" ++ (rest ++ "/" ++ lastSegment path) := by simp only [String.append_assoc]

/-- A folder above a path is above its parent, or is the path itself. -/
theorem Above.parentPath (h : Above dir path) (hne : path ≠ dir) :
    Above dir (parentPath path) := by
  obtain hself | ⟨rest, hpath⟩ := h
  · exact absurd hself hne
  · have hname := not_mem_lastSegment rest
    obtain ⟨-, hsingle⟩ | hrest := eq_lastSegment_or rest
    · rw [hpath, hsingle, parentPath_append dir hname]
      exact .inl rfl
    · have hsplit : path = dir ++ "/" ++ Text.parentPath rest ++ "/" ++ lastSegment rest := by
        calc path = dir ++ "/" ++ rest := hpath
          _ = dir ++ "/" ++ (Text.parentPath rest ++ "/" ++ lastSegment rest) := by rw [← hrest]
          _ = _ := by simp only [String.append_assoc]
      rw [hsplit, parentPath_append _ hname]
      exact .inr ⟨Text.parentPath rest, rfl⟩

/-- The lineage of a path is all that is above it, but the root. -/
theorem mem_lineage_iff_above : dir ∈ lineage path ↔ dir ≠ "" ∧ Above dir path := by
  constructor
  · intro h
    refine ⟨ne_empty_of_mem_lineage h, ?_⟩
    induction path using lineage.induct with
    | case1 => simp at h
    | case2 path hpath ih =>
      rw [lineage_of_ne hpath] at h
      obtain rfl | h := List.mem_cons.1 h
      · exact .inl rfl
      · exact (ih h).of_parentPath (ne_empty_of_mem_lineage h)
  · intro h
    obtain ⟨hdir, habove⟩ := h
    induction path using lineage.induct with
    | case1 => exact absurd (eq_empty_of_above_empty habove) hdir
    | case2 path hpath ih =>
      rw [lineage_of_ne hpath]
      by_cases hself : path = dir
      · rw [hself]
        exact List.mem_cons_self
      · exact List.mem_cons_of_mem path (ih (habove.parentPath hself))

end

/-! ## Names in folders -/

open Image.Tree (join)

theorem parentPath_join (dir : String) {name : String} (h : '/' ∉ name.toList) :
    parentPath (join dir name) = dir := by
  unfold join
  split
  · next hd => rw [parentPath, splitLast_single h, hd]; rfl
  · exact parentPath_append dir h

theorem lastSegment_join (dir : String) {name : String} (h : '/' ∉ name.toList) :
    lastSegment (join dir name) = name := by
  unfold join
  split
  · exact lastSegment_single h
  · exact lastSegment_append dir h

theorem join_injective {dir name name' : String} (h : '/' ∉ name.toList) (h' : '/' ∉ name'.toList)
    (he : join dir name = join dir name') : name = name' := by
  rw [← lastSegment_join dir h, he, lastSegment_join dir h']

end PlatformImage.Text
