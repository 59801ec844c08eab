import PlatformImage.NameMap
import PlatformImage.Text.Segments
/-! The folders of a module and the files in each.

Folders are known by their paths from the root of the module, with `/` between
the names; the root is the empty path. Adding a folder adds those above it, so a
tree has the folder above each of its folders, as its type says. A tree is kept as
a map from paths, and seen as nested folders when it is walked. -/
namespace PlatformImage.Image

/-- A set of names, in ascending order. -/
abbrev NameSet := NameMap Unit

/-- Folders by path, each with the names of its files. -/
abbrev Folders := NameMap NameSet

namespace Folders

/-- Adds a folder and those above it. -/
def withFolder (m : Folders) (dir : String) : Folders :=
  if m.contains dir then m
  else if _h : dir = "" then m.insert dir .empty
  else withFolder (m.insert dir .empty) (Text.parentPath dir)
termination_by dir.length
decreasing_by exact Text.length_parentPath_lt _h

/-- Adds a file and the folders above it. -/
def withFile (m : Folders) (path : String) : Folders :=
  let dir := Text.parentPath path
  (withFolder m dir).alter dir fun files => (files.getD .empty).insert (Text.lastSegment path) ()

/-- The folder above each folder is there too, and files go by single names. -/
structure WellFormed (m : Folders) : Prop where
  closed : ∀ dir, m.contains dir → m.contains (Text.parentPath dir)
  single : ∀ dir files name, m.get? dir = some files → name ∈ files.keys → '/' ∉ name.toList

theorem wellFormed_empty : WellFormed .empty :=
  ⟨fun _ h => by simp at h, fun _ _ _ h => by simp at h⟩

theorem contains_withFolder_of_contains {m : Folders} {dir d : String} (h : m.contains d) :
    (m.withFolder dir).contains d := by
  fun_induction withFolder m dir with
  | case1 => exact h
  | case2 => simp [h]
  | case3 m dir _ _ ih => exact ih (by simp [h])

theorem contains_withFolder_self {m : Folders} {dir : String} : (m.withFolder dir).contains dir := by
  unfold withFolder
  split
  · assumption
  · split
    · simp
    · exact contains_withFolder_of_contains (by simp)

/-- Adding a folder completes a map in which at most that folder is missing. -/
theorem closed_withFolder {m : Folders} {dir : String}
    (h : ∀ d, m.contains d → m.contains (Text.parentPath d) ∨ Text.parentPath d = dir) :
    ∀ d, (m.withFolder dir).contains d → (m.withFolder dir).contains (Text.parentPath d) := by
  fun_induction withFolder m dir with
  | case1 m dir hdir =>
    intro d hd
    rcases h d hd with hp | hp
    · exact hp
    · rw [hp]; exact hdir
  | case2 m hdir =>
    intro d hd
    rcases (by simpa using hd : d = "" ∨ m.contains d) with rfl | hd
    · simp
    · rcases h d hd with hp | hp <;> simp [hp]
  | case3 m dir _ _ ih =>
    refine ih fun d hd => ?_
    rcases (by simpa using hd : d = dir ∨ m.contains d) with rfl | hd
    · exact .inr rfl
    · left
      rcases h d hd with hp | hp <;> simp [hp]

theorem get?_insert_empty {m : Folders} {dir d : String} {files : NameSet}
    (h : (m.insert dir .empty).get? d = some files) : m.get? d = some files ∨ files = .empty := by
  rw [NameMap.get?_insert] at h
  split at h
  · exact .inr (Option.some.inj h).symm
  · exact .inl h

/-- A folder that is added holds no files. -/
theorem get?_withFolder {m : Folders} {dir d : String} {files : NameSet}
    (h : (m.withFolder dir).get? d = some files) : m.get? d = some files ∨ files = .empty := by
  fun_induction withFolder m dir with
  | case1 => exact .inl h
  | case2 => exact get?_insert_empty h
  | case3 m dir _ _ ih =>
    rcases ih h with h | h
    · exact get?_insert_empty h
    · exact .inr h

theorem WellFormed.withFolder {m : Folders} (h : m.WellFormed) (dir : String) :
    (m.withFolder dir).WellFormed where
  closed := closed_withFolder fun d hd => .inl (h.closed d hd)
  single d files name hf hn := by
    rcases get?_withFolder hf with hf | rfl
    · exact h.single d files name hf hn
    · simp at hn

theorem WellFormed.withFile {m : Folders} (h : m.WellFormed) (path : String) :
    (m.withFile path).WellFormed where
  closed d hd := by
    have hself : (m.withFolder (Text.parentPath path)).contains (Text.parentPath path) :=
      contains_withFolder_self
    have hkeep (d : String) : (m.withFile path).contains d ↔
        (m.withFolder (Text.parentPath path)).contains d := by
      simp only [Folders.withFile, NameMap.contains_alter, Bool.or_eq_true, beq_iff_eq]
      exact ⟨fun hd => hd.elim (fun he => he ▸ hself) id, .inr⟩
    rw [hkeep] at hd ⊢
    exact (h.withFolder _).closed d hd
  single d files name hf hn := by
    simp only [Folders.withFile, NameMap.get?_alter] at hf
    split at hf
    · cases Option.some.inj hf
      rcases NameMap.mem_keys_alter.1 hn with rfl | hn
      · exact Text.not_mem_lastSegment path
      · cases hg : (m.withFolder (Text.parentPath path)).get? (Text.parentPath path) with
        | none => simp [hg] at hn
        | some known =>
          rw [hg] at hn
          exact (h.withFolder _).single _ known name hg hn
    · exact (h.withFolder _).single d files name hf hn

end Folders

/-- The folders of a module. -/
structure Tree where
  folders : Folders
  wellFormed : folders.WellFormed

namespace Tree

/-- A name within a folder, as a path. -/
def join (dir name : String) : String := if dir = "" then name else dir ++ "/" ++ name

/-- The tree without any folder. -/
def none : Tree := ⟨.empty, Folders.wellFormed_empty⟩

def hasFolder (t : Tree) (dir : String) : Bool := t.folders.contains dir

/-- Adds a folder and those above it. -/
def addFolder (t : Tree) (dir : String) : Tree :=
  ⟨t.folders.withFolder dir, t.wellFormed.withFolder dir⟩

/-- Adds a file and the folders above it. -/
def addFile (t : Tree) (path : String) : Tree :=
  ⟨t.folders.withFile path, t.wellFormed.withFile path⟩

/-- The tree with the root only. -/
def root : Tree := none.addFolder ""

/-- Adds the entry of an archive: a folder if its name ends in `/`, else a file. -/
def addEntry (t : Tree) (entry : String) : Tree :=
  match Text.beforeEnd? "/" entry with
  | some dir => t.addFolder dir
  | Option.none => t.addFile entry

/-- The tree of a list of entries. -/
def ofEntries (entries : List String) : Tree := entries.foldl addEntry root

/-- The paths of the folders, in ascending order. -/
def paths (t : Tree) : List String := t.folders.keys

/-- The names of the files in a folder, in ascending order. -/
def filesOf (t : Tree) (dir : String) : List String := ((t.folders.get? dir).getD .empty).keys

/-- The folders below the root, each behind the path of the one it is in. -/
def parents (t : Tree) : List (String × String) :=
  (t.paths.filter (· ≠ "")).map fun p => (Text.parentPath p, p)

/-- The second of those pairs whose first is `dir`. -/
def under (dir : String) (pairs : List (String × String)) : List String :=
  (pairs.filter (·.1 = dir)).map (·.2)

/-- The paths of the folders right inside a folder, in ascending order. -/
def foldersOf (t : Tree) (dir : String) : List String := under dir t.parents

end Tree

/-- A folder with all in it: its path, its files and its folders, both in
    ascending order. -/
inductive Folder where
  | mk (path : String) (files : List String) (folders : List Folder)

namespace Folder

def path : Folder → String
  | mk path _ _ => path

end Folder

namespace Tree

/-- The length of the longest path. -/
def longest (t : Tree) : Nat := t.paths.foldr (fun p n => max p.length n) 0

theorem length_le_longest {t : Tree} {p : String} (h : p ∈ t.paths) : p.length ≤ t.longest := by
  unfold longest
  generalize t.paths = ps at h
  induction ps with
  | nil => cases h
  | cons q ps ih =>
    simp only [List.foldr_cons]
    rcases List.mem_cons.1 h with rfl | h
    · exact Nat.le_max_left _ _
    · exact Nat.le_trans (ih h) (Nat.le_max_right _ _)

theorem mem_foldersOf {t : Tree} {dir p : String} :
    p ∈ t.foldersOf dir ↔ p ∈ t.paths ∧ p ≠ "" ∧ Text.parentPath p = dir := by
  simp only [foldersOf, under, parents, List.mem_map, List.mem_filter, decide_eq_true_eq]
  constructor
  · rintro ⟨_, ⟨⟨q, hq, rfl⟩, hd⟩, rfl⟩
    exact ⟨hq.1, hq.2, hd⟩
  · rintro ⟨hp, hne, hd⟩
    exact ⟨(dir, p), ⟨⟨p, ⟨hp, hne⟩, by rw [hd]⟩, rfl⟩, rfl⟩

theorem deeper_of_mem_foldersOf {t : Tree} {dir p : String} (h : p ∈ t.foldersOf dir) :
    t.longest + 1 - p.length < t.longest + 1 - dir.length := by
  obtain ⟨hp, hne, hd⟩ := mem_foldersOf.1 h
  have h₁ := length_le_longest hp
  have h₂ := Text.length_parentPath_lt hne
  rw [hd] at h₂
  omega

/-- A folder with all below it. The pairs of folders and those they are in are
    found once, for all folders. -/
def folderAmong (t : Tree) (pairs : List (String × String)) (h : pairs = t.parents)
    (dir : String) : Folder :=
  .mk dir (t.filesOf dir) ((under dir pairs).attach.map fun p => t.folderAmong pairs h p.1)
termination_by t.longest + 1 - dir.length
decreasing_by exact deeper_of_mem_foldersOf (h ▸ p.2)

/-- A folder with all below it. -/
def folder (t : Tree) (dir : String) : Folder := t.folderAmong t.parents rfl dir

end Tree

end PlatformImage.Image
