import Mathlib.Data.List.TakeWhile
import PlatformImage.Proofs.TypeNames
/-! The internal form of package names.

A name is trimmed first and rewritten then, so points at its ends become slashes that stay.
A name that has none there is brought into a normal form, which is the same however the name
is written; for any other name this takes a second time, when the slashes go
(`packagePath_packagePath`). The search for the types of a package asks for the package a
second time and so, for just these names, about another folder (`packagePath_normal_iff`). -/
namespace PlatformImage

namespace Text

/-! ## Trimmed texts -/

/-- A text that neither begins nor ends with a character. -/
structure Within (c : Char) (s : String) : Prop where
  first : s.toList.head? ≠ some c
  last : s.toList.getLast? ≠ some c

section
variable {s t : String} {m n : Nat}

theorem takeWhile_slash (cs : List Char) : ∃ n, cs.takeWhile (· == '/') = List.replicate n '/' := by
  refine ⟨_, List.eq_replicate_of_mem fun c hc => ?_⟩
  simpa using List.mem_takeWhile_imp hc

theorem dropWhile_slash {cs : List Char} (h : cs.head? ≠ some '/') :
    (List.replicate n '/' ++ cs).dropWhile (· == '/') = cs := by
  rw [List.dropWhile_append_of_pos (by simp)]
  cases cs with
  | nil => rfl
  | cons c cs =>
    rw [List.dropWhile_cons_of_neg]
    intro hc
    apply h
    simpa using hc

/-- What is left of a text that is trimmed, and what is taken off. -/
theorem toList_eq_trimSlashes (s : String) : ∃ m n,
    s.toList = List.replicate m '/' ++ (trimSlashes s).toList ++ List.replicate n '/' := by
  obtain ⟨m, hm⟩ := takeWhile_slash s.toList
  obtain ⟨n, hn⟩ := takeWhile_slash (s.toList.dropWhile (· == '/')).reverse
  refine ⟨m, n, ?_⟩
  calc s.toList
      = s.toList.takeWhile (· == '/') ++ s.toList.dropWhile (· == '/') :=
        List.takeWhile_append_dropWhile.symm
    _ = List.replicate m '/' ++ s.toList.dropWhile (· == '/') := by rw [hm]
    _ = List.replicate m '/' ++ ((s.toList.dropWhile (· == '/')).reverse.takeWhile (· == '/') ++
          (s.toList.dropWhile (· == '/')).reverse.dropWhile (· == '/')).reverse := by
        rw [List.takeWhile_append_dropWhile, List.reverse_reverse]
    _ = _ := by
        rw [hn, List.reverse_append, List.reverse_replicate, ← List.append_assoc, trimSlashes,
          String.toList_ofList]

theorem head?_dropWhile_slash (cs : List Char) : (cs.dropWhile (· == '/')).head? ≠ some '/' := by
  intro h
  have hnot := List.head?_dropWhile_not (· == '/') cs
  rw [h] at hnot
  simp at hnot

/-- A trimmed text is within the slashes that are taken off. -/
theorem within_trimSlashes (s : String) : Within '/' (trimSlashes s) := by
  have htext : (trimSlashes s).toList =
      ((s.toList.dropWhile (· == '/')).reverse.dropWhile (· == '/')).reverse := by
    rw [trimSlashes, String.toList_ofList]
  constructor
  · intro h
    -- What is taken off the end leaves the first character, if it leaves any.
    obtain ⟨cs, hcs⟩ := List.head?_eq_some_iff.1 h
    apply head?_dropWhile_slash s.toList
    obtain ⟨ds, hds⟩ : (s.toList.dropWhile (· == '/')).reverse.dropWhile (· == '/') <:+ _ :=
      List.dropWhile_suffix _
    have hfront := congrArg List.reverse hds
    rw [List.reverse_append, List.reverse_reverse, ← htext, hcs] at hfront
    rw [← hfront]
    rfl
  · rw [htext, List.getLast?_reverse]
    apply head?_dropWhile_slash

/-- A text that is within slashes is what is left when they are taken off. -/
theorem trimSlashes_of_toList (ht : Within '/' t)
    (h : s.toList = List.replicate m '/' ++ t.toList ++ List.replicate n '/') :
    trimSlashes s = t := by
  apply String.toList_injective
  rw [trimSlashes, String.toList_ofList, h, List.append_assoc]
  by_cases hempty : t.toList = []
  · rw [hempty, List.nil_append, List.replicate_append_replicate, List.dropWhile_replicate]
    simp
  · have hfirst : (t.toList ++ List.replicate n '/').head? ≠ some '/' := by
      rw [List.head?_append_of_ne_nil _ hempty]
      exact ht.first
    have hlast : t.toList.reverse.head? ≠ some '/' := by
      rw [List.head?_reverse]
      exact ht.last
    rw [dropWhile_slash hfirst, List.reverse_append, List.reverse_replicate, dropWhile_slash hlast,
      List.reverse_reverse]

theorem trimSlashes_eq_self_iff : trimSlashes s = s ↔ Within '/' s := by
  constructor
  · intro h
    rw [← h]
    exact within_trimSlashes s
  · intro h
    apply trimSlashes_of_toList (m := 0) (n := 0) h
    simp

theorem mem_of_mem_trimSlashes {c : Char} (h : c ∈ (trimSlashes s).toList) : c ∈ s.toList := by
  obtain ⟨m, n, hs⟩ := toList_eq_trimSlashes s
  rw [hs]
  simp [h]

/-! ## Points for slashes -/

theorem toList_slashed (s : String) :
    (slashed s).toList = s.toList.map fun c => if c = '.' then '/' else c := by
  rw [slashed, exchange, String.toList_ofList]

theorem point_not_mem_slashed (s : String) : '.' ∉ (slashed s).toList := by
  rw [toList_slashed, List.mem_map]
  rintro ⟨c, -, hc⟩
  split at hc
  · cases hc
  · next hne => exact hne hc

theorem slashed_of_not_mem (h : '.' ∉ s.toList) : slashed s = s := by
  apply String.toList_injective
  rw [toList_slashed]
  have hid : ∀ c ∈ s.toList, (if c = '.' then '/' else c) = c := by
    intro c hc
    apply if_neg
    rintro rfl
    exact h hc
  rw [List.map_congr_left hid, List.map_id']

/-- What becomes a slash at an end was a slash or a point. -/
theorem within_slashed : Within '/' (slashed s) ↔ Within '/' s ∧ Within '.' s := by
  have hchar (c? : Option Char) : c?.map (fun c => if c = '.' then '/' else c) ≠ some '/' ↔
      c? ≠ some '/' ∧ c? ≠ some '.' := by
    cases c? with
    | none => simp
    | some c => by_cases hc : c = '.' <;> simp [hc]
  have hends (c : Char) (t : String) :
      Within c t ↔ t.toList.head? ≠ some c ∧ t.toList.getLast? ≠ some c :=
    ⟨fun h => ⟨h.first, h.last⟩, fun h => ⟨h.1, h.2⟩⟩
  rw [hends, hends, hends, toList_slashed, List.head?_map, List.getLast?_map, hchar, hchar]
  exact and_and_and_comm

/-- Of two folders only one lies in the other. -/
theorem lineage_antisymm (hs : s ∈ lineage t) (ht : t ∈ lineage s) : s = t := by
  rw [lineage_of_ne (ne_empty_of_mem_lineage ht)] at hs
  rcases List.mem_cons.1 hs with rfl | habove
  · rfl
  · have hle := length_le_of_mem_lineage habove
    have hge := length_le_of_mem_lineage ht
    have hlt := length_parentPath_lt (ne_empty_of_mem_lineage ht)
    omega

/-- To trim a name before it is rewritten makes no difference if it is trimmed afterwards. -/
theorem trimSlashes_slashed_trimSlashes (s : String) :
    trimSlashes (slashed (trimSlashes s)) = trimSlashes (slashed s) := by
  obtain ⟨m, n, hs⟩ := toList_eq_trimSlashes s
  obtain ⟨k, l, ht⟩ := toList_eq_trimSlashes (slashed (trimSlashes s))
  symm
  apply trimSlashes_of_toList (m := m + k) (n := l + n) (within_trimSlashes _)
  rw [toList_slashed, hs, List.map_append, List.map_append, ← toList_slashed, ht,
    List.map_replicate, List.map_replicate]
  simp [← List.replicate_append_replicate]

end

end Text

open Text (Within trimSlashes slashed)

/-! ## The internal form -/

namespace Image

/-- To take the internal form a second time is to rewrite a name first and trim it then. -/
theorem packagePath_packagePath (q : String) :
    packagePath (packagePath q) = trimSlashes (slashed q) := by
  rw [packagePath, packagePath, Text.trimSlashes_slashed_trimSlashes]
  apply Text.slashed_of_not_mem
  intro h
  exact Text.point_not_mem_slashed q (Text.mem_of_mem_trimSlashes h)

theorem within_packagePath {q : String} :
    Within '/' (packagePath q) ↔ Within '.' (trimSlashes q) := by
  rw [packagePath, Text.within_slashed]
  exact and_iff_right (Text.within_trimSlashes q)

theorem packagePath_eq_self_iff {q : String} (h : '.' ∉ q.toList) :
    packagePath q = q ↔ Within '/' q := by
  have hpoints : packagePath q = trimSlashes q := by
    apply Text.slashed_of_not_mem
    intro hmem
    exact h (Text.mem_of_mem_trimSlashes hmem)
  rw [hpoints, Text.trimSlashes_eq_self_iff]

theorem packagePath_fixed_iff {q : String} :
    packagePath (packagePath q) = packagePath q ↔ Within '.' (trimSlashes q) := by
  have hpoints : '.' ∉ (packagePath q).toList := Text.point_not_mem_slashed _
  rw [packagePath_eq_self_iff hpoints, within_packagePath]

end Image

namespace Entry

/-- The names that a walk collects from a package in internal form. -/
def collectNames (package : String) (filter : Image.Filter) :
    Image.Step (Option (List TypeName)) := do
  let (error?, names) ← Image.walkFrom [] (Collector.visit ⟨package, filter⟩) .everything
  if error?.isSome then Image.note .brokenNameWalk
  return if names.isEmpty then none else some names

/-- The search for the names of a package asks for its internal form, and so takes that twice. -/
theorem findTypeNames_eq_collectNames (q : String) (filter : Image.Filter) :
    findTypeNames q filter = (do
      if !(← isPackage (Image.packagePath q) filter) then return none
      collectNames (Image.packagePath q) filter) :=
  rfl

theorem isPackage_congr {p q : String} (h : Image.packagePath p = Image.packagePath q)
    (filter : Image.Filter) : isPackage p filter = isPackage q filter := by
  unfold isPackage Image.isPackage
  rw [h]

/-- An image with one folder and those above it. -/
def withFolder (dir : String) : Image.Use :=
  ⟨{ Image.new "r" with contents := some ⟨.exploded,
    NameMap.empty.insert "m" ⟨.directory "m", Image.Tree.root.addFolder dir⟩⟩ }, []⟩

/-- All folders of it but the root are packages. -/
theorem on_isPackage_withFolder (q dir : String) :
    ((isPackage q .all).on (.emptyAt []) (withFolder dir)).1 = true ↔
      Image.packagePath q ∈ Text.lineage dir := by
  rw [on_isPackage (Image.on_openContents_of_some rfl)]
  by_cases hempty : Image.packagePath q = ""
  · rw [if_pos hempty, hempty]
    exact iff_of_false Bool.false_ne_true fun h => Text.ne_empty_of_mem_lineage h rfl
  · have hadmitted (t : Image.Tree) : Image.Contents.admitted ⟨.exploded,
        NameMap.empty.insert "m" ⟨.directory "m", t⟩⟩ Image.Filter.all.admits =
          [("m", ⟨.directory "m", t⟩)] := rfl
    rw [if_neg hempty, hadmitted]
    simp [Image.Module.hasPackage, Image.Tree.hasFolder_addFolder, hempty]

/-- A name and its internal form ask for the same folder just if there are no points at the
    ends. -/
theorem isPackage_packagePath_iff {q : String} :
    (∀ filter, isPackage (Image.packagePath q) filter = isPackage q filter) ↔
      Within '.' (trimSlashes q) := by
  rw [← Image.packagePath_fixed_iff]
  constructor
  · intro h
    have hanswer (dir : String) : Image.packagePath (Image.packagePath q) ∈ Text.lineage dir ↔
        Image.packagePath q ∈ Text.lineage dir := by
      rw [← on_isPackage_withFolder, ← on_isPackage_withFolder, h]
    by_cases hempty : Image.packagePath q = ""
    · rw [hempty]
      decide +kernel
    · -- Each of the two folders lies in the other one or is it.
      have hinside := (hanswer (Image.packagePath q)).2 (by simp [Text.lineage_of_ne hempty])
      have houtside := (hanswer (Image.packagePath (Image.packagePath q))).1
        (by simp [Text.lineage_of_ne (Text.ne_empty_of_mem_lineage hinside)])
      exact Text.lineage_antisymm hinside houtside
  · intro h filter
    exact isPackage_congr h filter

/-- **Which package names have a normal form.** The internal form of a name has no points in it.
    It is within slashes, is its own internal form, and is that of the other spellings of the
    name, just if there are no points at the ends of the trimmed name; and just then the search
    for the types of the package asks for the package that is meant, when it takes the internal
    form a second time. The second internal form is that of all spellings, and has a normal
    form whatever the name is. -/
theorem packagePath_normal_iff (q : String) :
    '.' ∉ (Image.packagePath q).toList ∧
    (Within '/' (Image.packagePath q) ↔ Within '.' (trimSlashes q)) ∧
    (Image.packagePath (Image.packagePath q) = Image.packagePath q ↔ Within '.' (trimSlashes q)) ∧
    (∀ p, slashed p = slashed q →
      (Within '.' (trimSlashes p) →
        (Image.packagePath p = Image.packagePath q ↔ Within '.' (trimSlashes q))) ∧
      Image.packagePath (Image.packagePath p) = Image.packagePath (Image.packagePath q)) ∧
    (Within '/' (Image.packagePath (Image.packagePath q)) ∧
      Image.packagePath (Image.packagePath (Image.packagePath q)) =
        Image.packagePath (Image.packagePath q)) ∧
    (∀ filter, findTypeNames q filter = (do
      if !(← isPackage (Image.packagePath q) filter) then return none
      collectNames (Image.packagePath q) filter)) ∧
    ((∀ filter, isPackage (Image.packagePath q) filter = isPackage q filter) ↔
      Within '.' (trimSlashes q)) := by
  have htwice : Within '/' (Image.packagePath (Image.packagePath q)) := by
    rw [Image.packagePath_packagePath]
    apply Text.within_trimSlashes
  refine ⟨Text.point_not_mem_slashed _, Image.within_packagePath, Image.packagePath_fixed_iff,
    fun p hp => ⟨fun hwithin => ?_, ?_⟩, ⟨htwice, ?_⟩, findTypeNames_eq_collectNames q,
    isPackage_packagePath_iff⟩
  · rw [← Image.packagePath_fixed_iff, ← Image.packagePath_fixed_iff.2 hwithin,
      Image.packagePath_packagePath, Image.packagePath_packagePath, hp]
  · rw [Image.packagePath_packagePath, Image.packagePath_packagePath, hp]
  · exact (Image.packagePath_eq_self_iff (Text.point_not_mem_slashed _)).2 htwice

/-- **A point in front of a name becomes a slash that stays.** It is gone from the internal
    form of the internal form, and is not there if the name is written with a slash. In an image
    with the folder the name is that of no package, but its internal form is. -/
theorem packagePath_leadingPoint :
    slashed ".a" = slashed "/a" ∧ Image.packagePath ".a" = "/a" ∧ Image.packagePath "/a" = "a" ∧
    Image.packagePath (Image.packagePath ".a") = "a" ∧ ¬Within '/' (Image.packagePath ".a") ∧
    ((isPackage ".a" .all).on (.emptyAt []) (withFolder "a")).1 = false ∧
    ((isPackage (Image.packagePath ".a") .all).on (.emptyAt []) (withFolder "a")).1 = true := by
  have hpoint : Image.packagePath ".a" = "/a" := by decide +kernel
  have hslash : Image.packagePath "/a" = "a" := by decide +kernel
  have hlineage : Text.lineage "a" = ["a"] := by
    rw [Text.lineage_of_ne (by decide)]
    simp [Text.parentPath, Text.splitLast, Text.cutLast]
  refine ⟨by decide +kernel, hpoint, hslash, by rw [hpoint, hslash], ?_, ?_, ?_⟩
  · intro h
    rw [hpoint] at h
    exact h.first rfl
  · rw [← Bool.not_eq_true, on_isPackage_withFolder, hpoint, hlineage]
    decide
  · rw [on_isPackage_withFolder, hpoint, hslash, hlineage]
    decide

end Entry

end PlatformImage
