import Mathlib.Data.List.Sort
import PlatformImage.Proofs.Index
import PlatformImage.Proofs.Runs
import PlatformImage.Proofs.Walk
/-! The tree of an archive, from the list of its entries.

A tree finds the folders inside of a folder by their paths. One can keep them as well, in a record
for each folder, and write a new folder into the record of the one above it: `Inventory`. That is
done on the way back, for a folder is put down before the one that it is in, and so the records
are wrong in between. What holds all the time is that at most the folders still to be written down
are missing (`Exact`), and with none left the records are those of the tree
(`Inventory.get?_ofEntries`).

Neither depends on the order of the entries, so that it does not matter that an archive gives them
in any order. -/
namespace PlatformImage.Image

open Text (parentPath lastSegment lineage)

/-- What is right inside a folder: folders by their paths, files by their names. -/
structure FolderRecord where
  folders : NameSet
  files : NameSet

namespace FolderRecord

def empty : FolderRecord := ⟨.empty, .empty⟩

def addFolder (path : String) (r : FolderRecord) : FolderRecord :=
  { r with folders := r.folders.insert path () }

def addFile (name : String) (r : FolderRecord) : FolderRecord :=
  { r with files := r.files.insert name () }

theorem ext_keys {r s : FolderRecord} (hfolders : r.folders.keys = s.folders.keys)
    (hfiles : r.files.keys = s.files.keys) : r = s := by
  cases r
  cases s
  rw [mk.injEq]
  exact ⟨NameSet.ext_keys fun k => by rw [hfolders], NameSet.ext_keys fun k => by rw [hfiles]⟩

end FolderRecord

/-- A record for each folder. -/
abbrev Inventory := NameMap FolderRecord

namespace Inventory

/-- Changes the record of a folder, if there is one. -/
def adjust (inv : Inventory) (dir : String) (f : FolderRecord → FolderRecord) : Inventory :=
  match inv.get? dir with
  | some r => inv.insert dir (f r)
  | none => inv

/-- Adds a folder and those above it, and writes each into the record of the one that it is in. -/
def withFolder (inv : Inventory) (dir : String) : Inventory :=
  if inv.contains dir then inv
  else if _h : dir = "" then inv.insert dir .empty
  else (withFolder (inv.insert dir .empty) (parentPath dir)).adjust (parentPath dir)
    (.addFolder dir)
termination_by dir.length
decreasing_by exact Text.length_parentPath_lt _h

/-- Adds a file and the folders above it. -/
def withFile (inv : Inventory) (path : String) : Inventory :=
  (inv.withFolder (parentPath path)).adjust (parentPath path) (.addFile (lastSegment path))

/-- Adds the entry of an archive: a folder if its name ends in `/`, else a file. -/
def withEntry (inv : Inventory) (entry : String) : Inventory :=
  match Text.beforeEnd? "/" entry with
  | some dir => inv.withFolder dir
  | none => inv.withFile entry

/-- The records of a list of entries. -/
def ofEntries (entries : List String) : Inventory :=
  entries.foldl withEntry (withFolder .empty "")

variable {inv : Inventory} {dir d p : String} {f : FolderRecord → FolderRecord}

theorem get?_adjust (inv : Inventory) (dir d : String) (f : FolderRecord → FolderRecord) :
    (inv.adjust dir f).get? d = if d = dir then (inv.get? d).map f else inv.get? d := by
  unfold adjust
  cases hr : inv.get? dir with
  | some r =>
    dsimp only
    rw [NameMap.get?_insert]
    split
    · next hd => rw [hd, hr, Option.map_some]
    · rfl
  | none =>
    dsimp only
    split
    · next hd => rw [hd, hr, Option.map_none]
    · rfl

@[simp] theorem contains_adjust : (inv.adjust dir f).contains d = inv.contains d := by
  unfold NameMap.contains
  rw [get?_adjust]
  split
  · exact Option.isSome_map
  · rfl

/-! ## The files in the records -/

/-- The records are of the same folders, and have the same files, as a map of these. -/
def HasFiles (inv : Inventory) (m : Folders) : Prop :=
  ∀ d, (inv.get? d).map (·.files) = m.get? d

namespace HasFiles
variable {m : Folders}

theorem contains (h : HasFiles inv m) (d : String) : inv.contains d = m.contains d := by
  unfold NameMap.contains
  rw [← h d, Option.isSome_map]

theorem insert (h : HasFiles inv m) (dir : String) :
    HasFiles (inv.insert dir .empty) (m.insert dir .empty) := by
  intro d
  rw [NameMap.get?_insert, NameMap.get?_insert]
  split
  · rfl
  · exact h d

theorem adjust_addFolder (h : HasFiles inv m) (dir path : String) :
    HasFiles (inv.adjust dir (.addFolder path)) m := by
  intro d
  rw [get?_adjust, ← h d]
  split
  · rw [Option.map_map]
    rfl
  · rfl

theorem withFolder (h : HasFiles inv m) (dir : String) :
    HasFiles (inv.withFolder dir) (m.withFolder dir) := by
  fun_induction Inventory.withFolder inv dir generalizing m with
  | case1 inv dir hdir =>
    rw [Folders.withFolder, if_pos (by rw [← h.contains]; exact hdir)]
    exact h
  | case2 inv hdir =>
    rw [Folders.withFolder, if_neg (by rw [← h.contains]; exact hdir), dif_pos rfl]
    exact h.insert ""
  | case3 inv dir hdir hne ih =>
    rw [Folders.withFolder, if_neg (by rw [← h.contains]; exact hdir), dif_neg hne]
    exact (ih (h.insert dir)).adjust_addFolder _ _

theorem withFile (h : HasFiles inv m) (path : String) :
    HasFiles (inv.withFile path) (m.withFile path) := by
  have hfolder := h.withFolder (parentPath path)
  have hthere : (m.withFolder (parentPath path)).contains (parentPath path) :=
    Folders.contains_withFolder_self
  obtain ⟨files, hfiles⟩ := Option.isSome_iff_exists.1 hthere
  intro d
  unfold Inventory.withFile Folders.withFile
  rw [get?_adjust, NameMap.get?_alter]
  split
  · next hd =>
    subst hd
    have hrecord := hfolder (parentPath path)
    rw [hfiles] at hrecord ⊢
    obtain ⟨r, hr, rfl⟩ := Option.map_eq_some_iff.1 hrecord
    rw [hr]
    rfl
  · exact hfolder d

theorem withEntry {t : Tree} (h : HasFiles inv t.folders) (entry : String) :
    HasFiles (inv.withEntry entry) (t.addEntry entry).folders := by
  unfold Inventory.withEntry Tree.addEntry
  cases Text.beforeEnd? "/" entry with
  | some dir => exact h.withFolder dir
  | none => exact h.withFile entry

end HasFiles

/-- The records have the files of the tree. -/
theorem hasFiles_ofEntries (entries : List String) :
    HasFiles (ofEntries entries) (Tree.ofEntries entries).folders := by
  have hrun (entries : List String) (inv : Inventory) (t : Tree) (h : HasFiles inv t.folders) :
      HasFiles (entries.foldl withEntry inv) (entries.foldl Tree.addEntry t).folders := by
    induction entries generalizing inv t with
    | nil => exact h
    | cons e entries ih => exact ih _ _ (h.withEntry e)
  have hempty : HasFiles .empty .empty := fun _ => rfl
  exact hrun entries _ Tree.root (hempty.withFolder "")

/-! ## The folders in the records -/

/-- A folder is written in the record of another one. -/
def Lists (inv : Inventory) (dir p : String) : Prop :=
  ∃ r, inv.get? dir = some r ∧ p ∈ r.folders.keys

/-- Each folder is written in the record of the one above it and in no other, but for those that
    still have to be. -/
structure Exact (inv : Inventory) (pending : List String) : Prop where
  there : ∀ p ∈ pending, inv.contains p
  lists : ∀ dir p, inv.Lists dir p ↔
    inv.contains p ∧ p ∉ pending ∧ p ≠ "" ∧ parentPath p = dir

theorem lists_insert (hdir : ¬inv.contains dir) :
    Lists (inv.insert dir .empty) d p ↔ inv.Lists d p := by
  unfold Lists
  rw [NameMap.get?_insert]
  split
  · next hd =>
    subst hd
    have hnone : inv.get? d = none := by
      unfold NameMap.contains at hdir
      rwa [Option.not_isSome_iff_eq_none] at hdir
    simp [hnone, FolderRecord.empty]
  · exact Iff.rfl

theorem lists_adjust_addFolder {path : String} (hdir : inv.contains dir) :
    (inv.adjust dir (.addFolder path)).Lists d p ↔ inv.Lists d p ∨ d = dir ∧ p = path := by
  unfold Lists
  rw [get?_adjust]
  split
  · next hd =>
    subst hd
    obtain ⟨r, hr⟩ := Option.isSome_iff_exists.1 hdir
    simp [hr, FolderRecord.addFolder, NameMap.insert, NameMap.mem_keys_alter, or_comm]
  · next hd => simp [hd]

theorem lists_adjust_addFile {name : String} :
    (inv.adjust dir (.addFile name)).Lists d p ↔ inv.Lists d p := by
  unfold Lists
  rw [get?_adjust]
  split
  · simp [FolderRecord.addFile]
  · exact Iff.rfl

theorem contains_withFolder_of_contains (h : inv.contains d) : (inv.withFolder dir).contains d := by
  fun_induction withFolder inv dir with
  | case1 => exact h
  | case2 => simp [h]
  | case3 inv dir _ _ ih =>
    rw [contains_adjust]
    exact ih (by simp [h])

theorem contains_withFolder_self : (inv.withFolder dir).contains dir := by
  unfold withFolder
  split
  · assumption
  · split
    · simp
    · rw [contains_adjust]
      exact contains_withFolder_of_contains (by simp)

namespace Exact
variable {pending : List String}

/-- A folder that is put down is one more to be written into a record, unless it is the root. -/
theorem insert (h : Exact inv pending) (hdir : ¬inv.contains dir) :
    Exact (inv.insert dir .empty) (dir :: pending) where
  there := by
    intro p hp
    rcases List.mem_cons.1 hp with rfl | hp
    · simp
    · simp [h.there p hp]
  lists := by
    intro d p
    rw [lists_insert hdir, h.lists d p, NameMap.contains_insert, List.mem_cons]
    by_cases hp : p = dir
    · subst hp
      simp [hdir]
    · simp [hp]

/-- Once it is written into the record of the folder above it, it no longer waits. -/
theorem adjust (h : Exact inv (dir :: pending)) (hne : dir ≠ "") (hnot : dir ∉ pending)
    (habove : inv.contains (parentPath dir)) :
    Exact (inv.adjust (parentPath dir) (.addFolder dir)) pending where
  there := by
    intro p hp
    rw [contains_adjust]
    exact h.there p (List.mem_cons_of_mem _ hp)
  lists := by
    intro d p
    rw [lists_adjust_addFolder habove, h.lists d p, contains_adjust, List.mem_cons, not_or]
    by_cases hp : p = dir
    · subst hp
      have hthere := h.there p List.mem_cons_self
      simp [hthere, hne, hnot, eq_comm]
    · simp [hp]

/-- The root is never written into a record. -/
theorem of_cons_root (h : Exact inv ("" :: pending)) : Exact inv pending where
  there := by
    intro p hp
    exact h.there p (List.mem_cons_of_mem _ hp)
  lists := by
    intro d p
    rw [h.lists d p, List.mem_cons, not_or]
    by_cases hp : p = ""
    · simp [hp]
    · simp [hp]

/-- Adding a folder leaves those waiting that waited before. -/
theorem withFolder (h : Exact inv pending) (dir : String) : Exact (inv.withFolder dir) pending := by
  fun_induction Inventory.withFolder inv dir generalizing pending with
  | case1 => exact h
  | case2 inv hdir => exact (h.insert hdir).of_cons_root
  | case3 inv dir hdir hne ih =>
    have hnot : dir ∉ pending := fun hmem => hdir (h.there dir hmem)
    exact (ih (h.insert hdir)).adjust hne hnot contains_withFolder_self

theorem withFile (h : Exact inv pending) (path : String) : Exact (inv.withFile path) pending where
  there := by
    intro p hp
    unfold Inventory.withFile
    rw [contains_adjust]
    exact (h.withFolder _).there p hp
  lists := by
    intro d p
    unfold Inventory.withFile
    rw [lists_adjust_addFile, contains_adjust]
    exact (h.withFolder _).lists d p

theorem withEntry (h : Exact inv pending) (entry : String) :
    Exact (inv.withEntry entry) pending := by
  unfold Inventory.withEntry
  cases Text.beforeEnd? "/" entry with
  | some dir => exact h.withFolder dir
  | none => exact h.withFile entry

end Exact

/-- After all entries no folder waits any more. -/
theorem exact_ofEntries (entries : List String) : Exact (ofEntries entries) [] := by
  have hrun (entries : List String) (inv : Inventory) (h : Exact inv []) :
      Exact (entries.foldl withEntry inv) [] := by
    induction entries generalizing inv with
    | nil => exact h
    | cons e entries ih => exact ih _ (h.withEntry e)
  have hempty : Exact .empty [] := ⟨by simp, by simp [Lists]⟩
  exact hrun entries _ (hempty.withFolder "")

/-! ## The records and the tree -/

/-- The record of each folder has what is right inside that folder in the tree. -/
theorem get?_ofEntries (entries : List String) (dir : String) :
    ((ofEntries entries).get? dir).map (fun r => (r.folders.keys, r.files.keys)) =
      if (Tree.ofEntries entries).hasFolder dir then
        some ((Tree.ofEntries entries).foldersOf dir, (Tree.ofEntries entries).filesOf dir)
      else none := by
  have hfiles := hasFiles_ofEntries entries
  have hlists := (exact_ofEntries entries).lists dir
  generalize Tree.ofEntries entries = t at hfiles
  generalize ofEntries entries = inv at hfiles hlists
  have hcontains (p : String) : inv.contains p = t.hasFolder p := hfiles.contains p
  rw [← hcontains dir]
  cases hr : inv.get? dir with
  | none => simp [NameMap.contains, hr]
  | some r =>
    have hsame := hfiles dir
    rw [hr, Option.map_some] at hsame
    have hfolders : r.folders.keys = t.foldersOf dir := by
      -- Both are in ascending order, so they are equal once they have the same members.
      apply List.Pairwise.eq_of_mem_iff r.folders.ascending Tree.ascending_foldersOf
      intro p
      have hp : inv.Lists dir p ↔ p ∈ r.folders.keys := by
        unfold Lists
        simp only [hr, Option.some.injEq, exists_eq_left']
      calc p ∈ r.folders.keys
          ↔ inv.Lists dir p := hp.symm
        _ ↔ t.hasFolder p ∧ p ≠ "" ∧ parentPath p = dir := by
            rw [hlists p, hcontains p]
            simp
        _ ↔ p ∈ t.foldersOf dir := by rw [Tree.mem_foldersOf, Tree.mem_paths_iff]
    have hthere : inv.contains dir = true := by
      rw [NameMap.contains, hr]
      rfl
    rw [Option.map_some, if_pos hthere, hfolders]
    unfold Tree.filesOf
    rw [← hsame]
    rfl

/-- The records depend on which entries there are, not on their order or number. -/
theorem ofEntries_congr {entries entries' : List String} (h : ∀ e, e ∈ entries ↔ e ∈ entries') :
    ofEntries entries = ofEntries entries' := by
  apply NameMap.ext_get?
  intro d
  have hd := get?_ofEntries entries d
  rw [Tree.ofEntries_congr h, ← get?_ofEntries entries' d] at hd
  exact Option.map_injective (fun r s hrs =>
    FolderRecord.ext_keys (Prod.ext_iff.1 hrs).1 (Prod.ext_iff.1 hrs).2) hd

end Inventory

/-! ## The tree and the entries -/

namespace Tree

variable {entries : List String} {d name : String}

theorem beforeEnd?_eq_none_iff {e : String} :
    Text.beforeEnd? "/" e = Option.none ↔ ¬∃ front, e = front ++ "/" := by
  simp [Option.eq_none_iff_forall_ne_some, Text.beforeEnd?_eq_some_iff]

/-- The folders that an entry brings with it. -/
theorem mem_lineage_folderOf {e : String} : d ∈ lineage (folderOf e) ↔
    (∃ front, e = front ++ "/" ∧ d ∈ lineage front) ∨
      (¬∃ front, e = front ++ "/") ∧ d ∈ lineage (parentPath e) := by
  unfold folderOf
  cases hfront : Text.beforeEnd? "/" e with
  | some front =>
    have he := Text.beforeEnd?_eq_some_iff.1 hfront
    simp [he]
  | none =>
    have he := beforeEnd?_eq_none_iff.1 hfront
    simp only [not_exists] at he
    simp [he]

theorem hasFolder_ofEntries : (ofEntries entries).hasFolder d ↔ d = "" ∨
    (∃ front, front ++ "/" ∈ entries ∧ d ∈ lineage front) ∨
    ∃ e ∈ entries, (¬∃ front, e = front ++ "/") ∧ d ∈ lineage (parentPath e) := by
  unfold ofEntries
  simp only [hasFolder_foldl_addEntry, hasFolder_root_iff, mem_lineage_folderOf]
  constructor
  · rintro (rfl | ⟨e, he, rfl | ⟨front, rfl, hd⟩ | hd⟩)
    · exact .inl rfl
    · exact .inl rfl
    · exact .inr (.inl ⟨front, he, hd⟩)
    · exact .inr (.inr ⟨e, he, hd⟩)
  · rintro (rfl | ⟨front, he, hd⟩ | ⟨e, he, hd⟩)
    · exact .inl rfl
    · exact .inr ⟨_, he, .inr (.inl ⟨front, rfl, hd⟩)⟩
    · exact .inr ⟨e, he, .inr (.inr hd)⟩

theorem mem_filesOf_ofEntries_iff : name ∈ (ofEntries entries).filesOf d ↔
    ∃ e ∈ entries, (¬∃ front, e = front ++ "/") ∧ parentPath e = d ∧ lastSegment e = name := by
  unfold ofEntries
  rw [mem_filesOf_foldl_addEntry, filesOf_root, or_iff_right List.not_mem_nil]
  simp only [beforeEnd?_eq_none_iff, @eq_comm _ d, @eq_comm _ name]

end Tree

/-! ## Packages -/

/-- A module that has a package has the one above it, unless that is the root. -/
theorem Module.hasPackage_parentPath {m : Module} {package : String} (h : m.hasPackage package)
    (hne : parentPath package ≠ "") : m.hasPackage (parentPath package) := by
  unfold hasPackage at h ⊢
  rw [Bool.and_eq_true] at h ⊢
  exact ⟨bne_iff_ne.2 hne, m.tree.wellFormed.closed package h.2⟩

/-- An image that has a package has the one above it, unless that is the root. -/
theorem isPackage_parentPath {fs : FileSystem} {u : Use} {q above : String} {filter : Filter}
    (h : ((isPackage q filter).run.on fs u).1 = .ok true)
    (habove : packagePath above = parentPath (packagePath q)) (hne : packagePath above ≠ "") :
    ((isPackage above filter).run.on fs u).1 = .ok true := by
  have hq : packagePath q ≠ "" := by
    intro hq
    unfold isPackage at h
    rw [if_pos hq, Query.on_pure] at h
    simp at h
  cases hopen : openContents.run.on fs u with
  | mk outcome v =>
    cases outcome with
    | error e =>
      unfold isPackage at h
      rw [if_neg hq, Query.on_bind_of_error fs u _ hopen] at h
      simp at h
    | ok c =>
      rw [on_isPackage hopen, if_neg hq, Except.ok.injEq, List.any_eq_true] at h
      obtain ⟨m, hm, hhas⟩ := h
      rw [on_isPackage hopen, if_neg hne, Except.ok.injEq, List.any_eq_true]
      refine ⟨m, hm, ?_⟩
      rw [habove] at hne ⊢
      exact Module.hasPackage_parentPath hhas hne

/-- **The tree of a list of entries.** Its folders are the root, each entry that ends in `/`
    without that, the parent of each other entry, and all folders above these. A folder other than
    the root is found in the one above it and in no other; the files of a folder are the last
    segments of the entries that do not end in `/` and have it for their parent. The records that
    are filled in on the way say the same, folder by folder. Neither changes with the order of the
    entries, or if some are repeated. So a package comes with those above it, in a module and in an
    image. -/
theorem tree_ofEntries (entries : List String) :
    (∀ d, (Tree.ofEntries entries).hasFolder d ↔ d = "" ∨
      (∃ front, front ++ "/" ∈ entries ∧ d ∈ lineage front) ∨
      ∃ e ∈ entries, (¬∃ front, e = front ++ "/") ∧ d ∈ lineage (parentPath e)) ∧
    (∀ d p, p ∈ (Tree.ofEntries entries).foldersOf d ↔
      (Tree.ofEntries entries).hasFolder p ∧ p ≠ "" ∧ parentPath p = d) ∧
    (∀ d, (Tree.ofEntries entries).hasFolder d →
      (Tree.ofEntries entries).hasFolder (parentPath d)) ∧
    (∀ d name, name ∈ (Tree.ofEntries entries).filesOf d ↔
      ∃ e ∈ entries, (¬∃ front, e = front ++ "/") ∧ parentPath e = d ∧ lastSegment e = name) ∧
    (∀ d, ((Inventory.ofEntries entries).get? d).map (fun r => (r.folders.keys, r.files.keys)) =
      if (Tree.ofEntries entries).hasFolder d then
        some ((Tree.ofEntries entries).foldersOf d, (Tree.ofEntries entries).filesOf d)
      else none) ∧
    (∀ entries', (∀ e, e ∈ entries' ↔ e ∈ entries) →
      Tree.ofEntries entries' = Tree.ofEntries entries ∧
      Inventory.ofEntries entries' = Inventory.ofEntries entries) ∧
    (∀ m : Module, ∀ p, m.hasPackage p → parentPath p ≠ "" → m.hasPackage (parentPath p)) ∧
    (∀ fs u q above filter, ((isPackage q filter).run.on fs u).1 = .ok true →
      packagePath above = parentPath (packagePath q) → packagePath above ≠ "" →
      ((isPackage above filter).run.on fs u).1 = .ok true) := by
  refine ⟨fun d => Tree.hasFolder_ofEntries, ?_, (Tree.ofEntries entries).wellFormed.closed,
    fun d name => Tree.mem_filesOf_ofEntries_iff, Inventory.get?_ofEntries entries, ?_, ?_, ?_⟩
  · intro d p
    rw [Tree.mem_foldersOf, Tree.mem_paths_iff]
  · intro entries' h
    exact ⟨Tree.ofEntries_congr h, Inventory.ofEntries_congr h⟩
  · intro m p
    exact Module.hasPackage_parentPath
  · intro fs u q above filter
    exact isPackage_parentPath

end PlatformImage.Image
