import PlatformImage.Proofs.Lineage
/-! What the tree of a module holds, after each way of adding to it. A tree is known by
its folders and the files in them (`Tree.ext_hasFolder`), so the order in which it was
built does not matter, nor does it matter if something was added twice
(`Tree.ofEntries_congr`). -/
namespace PlatformImage.Image

/-- A set of names is known by its members: there is but one value under each. -/
theorem NameSet.ext_keys {a b : NameSet} (h : ∀ name, name ∈ a.keys ↔ name ∈ b.keys) : a = b := by
  refine NameMap.ext_get? fun k => ?_
  have hk := h k
  rw [NameMap.mem_keys_iff, NameMap.mem_keys_iff] at hk
  cases ha : a.get? k <;> cases hb : b.get? k <;> simp_all

namespace Folders

variable {m : Folders} {dir d : String}

theorem contains_of_withFolder (h : (m.withFolder dir).contains d) :
    m.contains d ∨ d = "" ∨ d ∈ Text.lineage dir := by
  fun_induction withFolder m dir with
  | case1 => exact .inl h
  | case2 m hdir =>
    rw [NameMap.contains_insert, Bool.or_eq_true, beq_iff_eq] at h
    exact h.symm.imp_right .inl
  | case3 m dir hdir hne ih =>
    rw [Text.lineage_of_ne hne]
    rcases ih h with h | h | h
    · rw [NameMap.contains_insert, Bool.or_eq_true, beq_iff_eq] at h
      rcases h with rfl | h
      · exact .inr (.inr List.mem_cons_self)
      · exact .inl h
    · exact .inr (.inl h)
    · exact .inr (.inr (List.mem_cons_of_mem _ h))

theorem get?_withFolder_of_some {files : NameSet} (h : m.get? d = some files) :
    (m.withFolder dir).get? d = some files := by
  -- A folder is put only where there is none, so that none is replaced.
  have hinsert {m : Folders} {dir : String} (hdir : ¬m.contains dir) (h : m.get? d = some files) :
      (m.insert dir .empty).get? d = some files := by
    rw [NameMap.get?_insert, if_neg, h]
    rintro rfl
    exact hdir (by rw [NameMap.contains, h]; rfl)
  fun_induction withFolder m dir with
  | case1 => exact h
  | case2 m hdir => exact hinsert hdir h
  | case3 m dir hdir hne ih => exact ih (hinsert hdir h)

/-- Adding a folder adds no files. -/
theorem getD_withFolder : ((m.withFolder dir).get? d).getD .empty = (m.get? d).getD .empty := by
  cases hm : m.get? d with
  | some files => rw [get?_withFolder_of_some hm]
  | none =>
    cases hw : (m.withFolder dir).get? d with
    | none => rfl
    | some files =>
      rcases get?_withFolder hw with h | rfl
      · rw [hm] at h; cases h
      · rfl

end Folders

namespace Tree

variable {t t' : Tree} {d dir path name : String}

/-- A tree that has a folder has all above it. -/
theorem hasFolder_of_mem_lineage (hp : t.hasFolder path) (hd : d ∈ Text.lineage path) :
    t.hasFolder d := by
  induction path using Text.lineage.induct with
  | case1 => simp at hd
  | case2 path hne ih =>
    rw [Text.lineage_of_ne hne] at hd
    rcases List.mem_cons.1 hd with rfl | hd
    · exact hp
    · exact ih (t.wellFormed.closed path hp) hd

theorem hasFolder_root (h : t.hasFolder d) : t.hasFolder "" := by
  induction d using Text.lineage.induct with
  | case1 => exact h
  | case2 d hne ih => exact ih (t.wellFormed.closed d h)

theorem mem_paths_iff : dir ∈ t.paths ↔ t.hasFolder dir := by
  unfold paths hasFolder NameMap.contains
  rw [NameMap.mem_keys_iff, Option.isSome_iff_exists]

theorem filesOf_eq_nil (h : t.hasFolder dir = false) : t.filesOf dir = [] := by
  unfold hasFolder NameMap.contains at h
  unfold filesOf
  rw [Option.isSome_eq_false_iff, Option.isNone_iff_eq_none] at h
  rw [h]
  rfl

theorem hasFolder_of_mem_filesOf (h : name ∈ t.filesOf dir) : t.hasFolder dir = true := by
  by_contra hnot
  rw [filesOf_eq_nil (by simpa using hnot)] at h
  cases h

/-! ## Adding -/

theorem hasFolder_addFolder : (t.addFolder dir).hasFolder d ↔
    t.hasFolder d ∨ d = "" ∨ d ∈ Text.lineage dir := by
  constructor
  · exact Folders.contains_of_withFolder
  · have hself : (t.addFolder dir).hasFolder dir := Folders.contains_withFolder_self
    rintro (h | rfl | h)
    · exact Folders.contains_withFolder_of_contains h
    · exact hasFolder_root hself
    · exact hasFolder_of_mem_lineage hself h

theorem filesOf_addFolder : (t.addFolder dir).filesOf d = t.filesOf d :=
  congrArg NameMap.keys Folders.getD_withFolder

theorem hasFolder_addFile : (t.addFile path).hasFolder d ↔
    t.hasFolder d ∨ d = "" ∨ d ∈ Text.lineage (Text.parentPath path) := by
  rw [← hasFolder_addFolder]
  have hself : (t.addFolder (Text.parentPath path)).hasFolder (Text.parentPath path) :=
    Folders.contains_withFolder_self
  unfold hasFolder addFile Folders.withFile
  rw [NameMap.contains_alter, Bool.or_eq_true, beq_iff_eq]
  constructor
  · rintro (rfl | h)
    · exact hself
    · exact h
  · exact .inr

@[simp] theorem hasFolder_root_iff : root.hasFolder d ↔ d = "" := by
  unfold root
  rw [hasFolder_addFolder, Text.lineage_empty]
  simp [hasFolder, none]

@[simp] theorem filesOf_root : root.filesOf d = [] := filesOf_addFolder

theorem mem_filesOf_addFile : name ∈ (t.addFile path).filesOf d ↔
    name ∈ t.filesOf d ∨ (d = Text.parentPath path ∧ name = Text.lastSegment path) := by
  have hfiles : ((t.folders.withFolder (Text.parentPath path)).get? d).getD .empty =
      (t.folders.get? d).getD .empty := Folders.getD_withFolder
  unfold filesOf addFile Folders.withFile
  rw [NameMap.get?_alter]
  split
  · next hd =>
    subst hd
    rw [Option.getD_some, hfiles, NameMap.insert, NameMap.mem_keys_alter]
    exact ⟨fun h => h.symm.imp_right fun h => ⟨rfl, h⟩, fun h => h.symm.imp_left And.right⟩
  · next hd =>
    rw [hfiles]
    exact ⟨.inl, fun h => h.resolve_right fun h => hd h.1⟩

/-- A tree is known by its folders and the files in them. -/
theorem ext_hasFolder (hfolders : ∀ d, t.hasFolder d ↔ t'.hasFolder d)
    (hfiles : ∀ d name, name ∈ t.filesOf d ↔ name ∈ t'.filesOf d) : t = t' := by
  have heq : t.folders = t'.folders := by
    refine NameMap.ext_get? fun d => ?_
    have hd := hfolders d
    have hf := hfiles d
    unfold hasFolder NameMap.contains at hd
    unfold filesOf at hf
    cases ha : t.folders.get? d with
    | none =>
      cases hb : t'.folders.get? d with
      | none => rfl
      | some b => simp [ha, hb] at hd
    | some a =>
      cases hb : t'.folders.get? d with
      | none => simp [ha, hb] at hd
      | some b =>
        rw [ha, hb] at hf
        exact congrArg some (NameSet.ext_keys hf)
  cases t
  cases t'
  congr

/-! ## Entries -/

/-- The folder that an entry of an archive is, or is in. -/
def folderOf (entry : String) : String := (Text.beforeEnd? "/" entry).getD (Text.parentPath entry)

theorem hasFolder_addEntry {entry : String} : (t.addEntry entry).hasFolder d ↔
    t.hasFolder d ∨ d = "" ∨ d ∈ Text.lineage (folderOf entry) := by
  unfold addEntry folderOf
  cases Text.beforeEnd? "/" entry with
  | none => exact hasFolder_addFile
  | some dir => exact hasFolder_addFolder

theorem mem_filesOf_addEntry {entry : String} : name ∈ (t.addEntry entry).filesOf d ↔
    name ∈ t.filesOf d ∨ Text.beforeEnd? "/" entry = Option.none ∧
      d = Text.parentPath entry ∧ name = Text.lastSegment entry := by
  unfold addEntry
  cases Text.beforeEnd? "/" entry with
  | none => simp [mem_filesOf_addFile]
  | some dir => simp [filesOf_addFolder]

theorem hasFolder_foldl_addEntry {entries : List String} :
    (entries.foldl addEntry t).hasFolder d ↔
      t.hasFolder d ∨ ∃ e ∈ entries, d = "" ∨ d ∈ Text.lineage (folderOf e) := by
  induction entries generalizing t with
  | nil => simp
  | cons e entries ih =>
    rw [List.foldl_cons, ih, hasFolder_addEntry]
    simp only [List.mem_cons, exists_eq_or_imp, or_assoc]

theorem mem_filesOf_foldl_addEntry {entries : List String} :
    name ∈ (entries.foldl addEntry t).filesOf d ↔ name ∈ t.filesOf d ∨
      ∃ e ∈ entries, Text.beforeEnd? "/" e = Option.none ∧
        d = Text.parentPath e ∧ name = Text.lastSegment e := by
  induction entries generalizing t with
  | nil => simp
  | cons e entries ih =>
    rw [List.foldl_cons, ih, mem_filesOf_addEntry]
    simp only [List.mem_cons, exists_eq_or_imp, or_assoc]

/-- A tree depends on which entries there are, not on their order or number. -/
theorem ofEntries_congr {entries entries' : List String} (h : ∀ e, e ∈ entries ↔ e ∈ entries') :
    ofEntries entries = ofEntries entries' := by
  refine ext_hasFolder (fun d => ?_) (fun d name => ?_)
  · simp only [ofEntries, hasFolder_foldl_addEntry, h]
  · simp only [ofEntries, mem_filesOf_foldl_addEntry, h]

end Tree

end PlatformImage.Image
