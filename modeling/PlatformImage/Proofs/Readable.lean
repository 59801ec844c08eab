import PlatformImage.Proofs.Lookups
import PlatformImage.Proofs.Origins
import PlatformImage.Proofs.OverlayHistory
import PlatformImage.Proofs.Tidy
import PlatformImage.Proofs.TypeNames
/-! What is listed can be read, and what can be read is listed.

The modules that are found at a root are archives or directories (`Found`), and either way
the tree of a module has just the files that can be read from it (`Faithful`). For an archive
that is so because its tree is made of the names of its entries. For a directory it is so
because the tree is made of the paths that lead to files, links being followed both times;
but names that no directory can have must not be there (`FileSystem.Tidy`). -/
namespace PlatformImage

namespace Image

/-! ## What is found at a root -/

/-- A module as it is found: an archive, or a directory that can be listed. -/
inductive Found (fs : FileSystem) : Module → Prop
  | archive (path : String) (zip : Archive.Zip) : Found fs (.ofArchive path zip)
  | directory {path : String} {entries : List (String × Node)}
    (hnode : fs.node? path = .ok (.directory entries)) (hfits : Module.fits path entries) :
    Found fs ⟨.directory path, Module.scan fs path "" .root entries⟩

/-- All modules of a map are as they are found. -/
def AllFound (fs : FileSystem) (known : NameMap Module) : Prop :=
  ∀ name m, known.get? name = some m → Found fs m

theorem Origin.found {fs : FileSystem} {name : String} {layout : Layout} {m : Module}
    (h : Origin fs name layout m) : Found fs m := by
  cases h with
  | directory hname hnode hfits => exact .directory hnode hfits
  | archive hname hjmod hzip => exact .archive _ _

/-! ## One module -/

/-- A module that lists in its folders just the files that can be read from it. -/
def Faithful (fs : FileSystem) (m : Module) : Prop :=
  ∀ dir name, dir ≠ "" → name ≠ "" → '/' ∉ name.toList →
    (name ∈ m.tree.filesOf dir ↔
      m.tree.hasFolder dir = true ∧ m.read fs (dir ++ "/" ++ name) ≠ .ok none)

section
variable {fs : FileSystem} {dir name : String}

theorem getLast?_of_single {front : String} (hne : name ≠ "") (hsingle : '/' ∉ name.toList) :
    (front ++ name).toList.getLast? ≠ some '/' := by
  rw [getLast?_append hne]
  exact fun h => hsingle (List.mem_of_getLast? h)

/-- The files of a folder in a tree are those of the entries that lie right in it. -/
theorem mem_filesOf_ofEntries {entries : List String} (hdir : dir ≠ "") (hne : name ≠ "")
    (hsingle : '/' ∉ name.toList) :
    name ∈ (Tree.ofEntries entries).filesOf dir ↔ dir ++ "/" ++ name ∈ entries := by
  rw [Tree.ofEntries, Tree.mem_filesOf_foldl_addEntry, Tree.filesOf_root,
    or_iff_right List.not_mem_nil]
  constructor
  · rintro ⟨entry, hentry, -, rfl, rfl⟩
    rcases Text.eq_lastSegment_or entry with ⟨hparent, -⟩ | hjoin
    · exact absurd hparent hdir
    · rwa [← hjoin]
  · intro hentry
    exact ⟨_, hentry, beforeEnd?_slash_eq_none (getLast?_of_single hne hsingle),
      (Text.parentPath_append dir hsingle).symm, (Text.lastSegment_append dir hsingle).symm⟩

/-- An archive reads just what is among its entries. -/
theorem read_archive_ne_none {archive path : String} {zip : Archive.Zip} :
    (Module.ofArchive archive zip).read fs path ≠ .ok none ↔ path ∈ Module.entryPaths zip := by
  have hread : (Module.ofArchive archive zip).read fs path = .ok none ↔
      zip.read fs (classesFolder ++ path) = .ok none := by
    simp only [Module.read, Module.ofArchive]
    cases zip.read fs (classesFolder ++ path) with
    | ok found => simp
    | error e => cases e <;> simp
  rw [mem_entryPaths_iff, ne_eq, hread, Archive.Zip.read_eq_none, named?_eq_none, not_not]

theorem faithful_archive (archive : String) (zip : Archive.Zip) :
    Faithful fs (.ofArchive archive zip) := by
  intro dir name hdir hne hsingle
  have hfiles : name ∈ (Module.ofArchive archive zip).tree.filesOf dir ↔
      dir ++ "/" ++ name ∈ Module.entryPaths zip := mem_filesOf_ofEntries hdir hne hsingle
  rw [read_archive_ne_none, ← hfiles]
  exact ⟨fun h => ⟨Tree.hasFolder_of_mem_filesOf h, h⟩, And.right⟩

theorem faithful_directory {path : String} {entries : List (String × Node)}
    (hnode : fs.node? path = .ok (.directory entries)) (htidy : tidy entries)
    (hfits : Module.fits path entries) :
    Faithful fs ⟨.directory path, Module.scan fs path "" .root entries⟩ := by
  intro dir name hdir hne hsingle
  have hplain : plain (settled fs path entries) := plain_settled htidy
  -- The tree is that of an archive with the paths that are listed.
  have htree : Module.scan fs path "" .root entries =
      .ofEntries ((listing (settled fs path entries)).map fun i => entryName i.1 i.2) := by
    rw [scan_root_eq htidy]
  have hlisted : name ∈ (Module.scan fs path "" .root entries).filesOf dir ↔
      ∃ content, (dir ++ "/" ++ name, some content) ∈ listing (settled fs path entries) := by
    rw [htree, mem_filesOf_ofEntries hdir hne hsingle, List.mem_map]
    constructor
    · rintro ⟨⟨p, content?⟩, hi, he⟩
      cases content? with
      | some content => exact ⟨content, he ▸ hi⟩
      | none =>
        refine absurd ?_ (@getLast?_of_single name (dir ++ "/") hne hsingle)
        rw [← he]
        simp [entryName]
    · rintro ⟨content, hi⟩
      exact ⟨_, hi, rfl⟩
  have hread (hfolder : (Module.scan fs path "" .root entries).hasFolder dir = true) :
      (∃ content, (dir ++ "/" ++ name, some content) ∈ listing (settled fs path entries)) ↔
        Module.read fs ⟨.directory path, Module.scan fs path "" .root entries⟩
          (dir ++ "/" ++ name) ≠ .ok none := by
    rw [← scan_settled] at hfolder
    have hmem := (listed_of_hasFolder hplain hfolder).resolve_left hdir
    have hrelative : Path.isAbsolute (dir ++ "/" ++ name) = false := by
      rw [String.append_assoc, isAbsolute_append hdir]
      exact (clean_of_mem_listing hplain hmem).relative
    rcases read_settled hnode htidy hfits (Module.scan fs path "" .root entries) hrelative
      (.inr ((Text.parentPath_append dir hsingle).symm ▸ hmem)) with
      ⟨content, hmem, hread⟩ | ⟨hnone, hread⟩
    · refine iff_of_true ⟨content, hmem⟩ fun h => ?_
      rw [hread] at h
      cases h
    · refine iff_of_false (not_exists.2 hnone) fun h => h hread
  constructor
  · intro h
    have hfolder := Tree.hasFolder_of_mem_filesOf h
    exact ⟨hfolder, (hread hfolder).1 (hlisted.1 h)⟩
  · rintro ⟨hfolder, hne⟩
    exact hlisted.2 ((hread hfolder).2 hne)

/-- In a tidy file system, modules are faithful as they are found. -/
theorem Found.faithful {m : Module} (hfs : fs.Tidy) (h : Found fs m) : Faithful fs m := by
  cases h with
  | archive path zip => exact faithful_archive path zip
  | directory hnode hfits => exact faithful_directory hnode (hfs.directory hnode) hfits

end

/-! ## All modules -/

section
variable {fs : FileSystem} {unit : String}

/-- Something is answered about a file if some module that has its folder does not lack it. -/
theorem firstUnit_ne_none {ms : List (String × Module)} :
    firstUnit fs unit ms ≠ .ok none ↔
      ∃ e ∈ ms, e.2.tree.hasFolder (Text.parentPath unit) = true ∧ e.2.read fs unit ≠ .ok none := by
  induction ms with
  | nil => exact iff_of_false (fun h => h rfl) (fun ⟨_, hmem, _⟩ => nomatch hmem)
  | cons first rest ih =>
    obtain ⟨name, m⟩ := first
    simp only [List.mem_cons, exists_eq_or_imp, ← ih]
    rw [firstUnit]
    by_cases hfolder : m.tree.hasFolder (Text.parentPath unit) = true
    · rw [if_pos hfolder]
      cases hread : m.read fs unit with
      | error e => simp [hfolder]
      | ok content? => cases content? <;> simp [hfolder]
    · rw [if_neg hfolder]
      simp [hfolder]

end

end Image

namespace Entry

open Image (UpToDate AllFound Faithful)

section
variable {c : Image.Contents} {fs : FileSystem} {u v : Image.Use}

/-- An image that is up to date opens with what is found at its root. -/
theorem allFound_of_open (hcurrent : UpToDate fs u.image.root u.image)
    (hopen : Image.openContents.run.on fs u = (.ok c, v)) : AllFound fs c.modules :=
  fun name m hget => (Image.origin_of_open hcurrent hopen name m hget).found

theorem mem_typesIn {t : Image.Tree} {package name : String} :
    Text.segments package ++ [name] ∈ typesIn t package ↔ name ++ classEnding ∈ t.filesOf package := by
  simp only [typesIn, List.mem_filterMap, Option.map_eq_some_iff, Text.beforeEnd?_eq_some_iff,
    List.append_cancel_left_eq, List.cons.injEq, and_true]
  constructor
  · rintro ⟨file, hfile, name, rfl, rfl⟩
    exact hfile
  · intro hfile
    exact ⟨_, hfile, name, rfl, rfl⟩

/-- **A type is listed just if it can be read.** In an image whose files are as they were when
    it was opened, the names of the types of a package are those of the files that can be read,
    whatever modules are looked at; a file that is there but broken counts as one. -/
theorem listed_iff_readable (hfs : fs.Tidy) (hcurrent : UpToDate fs u.image.root u.image)
    (hopen : Image.openContents.run.on fs u = (.ok c, v)) {package : String} (hpackage : package ≠ "")
    (hinternal : Image.packagePath package = package) {name : String} (hname : '/' ∉ name.toList)
    (filter : Image.Filter) :
    (∃ names, ((findTypeNames package filter).on fs u).1 = some names ∧
      Text.segments package ++ [name] ∈ names) ↔
    ((Image.readUnit (package ++ "/" ++ name ++ ".class") filter).run.on fs u).1 ≠ .ok none := by
  have hanswer : (∃ names, ((findTypeNames package filter).on fs u).1 = some names ∧
      Text.segments package ++ [name] ∈ names) ↔
      Text.segments package ++ [name] ∈ listed c filter package := by
    have hnames := getD_findTypeNames hopen hinternal filter
    rw [if_neg hpackage] at hnames
    rw [← hnames]
    cases ((findTypeNames package filter).on fs u).1 <;> simp
  have hne : name ++ classEnding ≠ "" := by simp [classEnding]
  have hsingle : '/' ∉ (name ++ classEnding).toList := by
    rw [String.toList_append, List.mem_append, not_or]
    exact ⟨hname, by decide⟩
  have hunit : package ++ "/" ++ name ++ ".class" = package ++ "/" ++ (name ++ classEnding) :=
    String.append_assoc
  have hfound := allFound_of_open hcurrent hopen
  rw [hanswer, hunit, Image.on_readUnit hopen, Image.firstUnit_ne_none,
    Text.parentPath_append package hsingle, listed, List.mem_flatMap]
  refine exists_congr fun e => and_congr_right fun he => ?_
  have hget : c.modules.get? e.1 = some e.2 := NameMap.mem_entries_iff.1 (List.mem_filter.1 he).1
  exact mem_typesIn.trans ((hfound e.1 e.2 hget).faithful hfs package _ hpackage hne hsingle)

end

section
open Session (annotatedFiles smallClass withClass)

theorem tidy_annotatedFiles : annotatedFiles.Tidy := by
  simp only [FileSystem.Tidy, annotatedFiles, withClass, Image.tidyNode, Image.tidy]
  decide

/-- In an image with one class, the class is listed because it can be read. -/
theorem listed_iff_readable_annotated : annotatedFiles.Tidy ∧
    UpToDate annotatedFiles "/i" (.new "/i") ∧
    ∃ c v, Image.openContents.run.on annotatedFiles ⟨.new "/i", []⟩ = (.ok c, v) ∧
    "a" ≠ "" ∧ Image.packagePath "a" = "a" ∧ '/' ∉ "A".toList ∧
    ((Image.readUnit "a/A.class" .all).run.on annotatedFiles ⟨.new "/i", []⟩).1 =
      .ok (some ⟨"m", smallClass⟩) ∧
    ∃ names, ((findTypeNames "a" .all).on annotatedFiles ⟨.new "/i", []⟩).1 = some names ∧
      ["a", "A"] ∈ names := by
  obtain ⟨c, hc, -, hunit⟩ := Session.opens_annotatedFiles
  have hopen := Image.on_openContents_new hc
  have hcurrent : UpToDate annotatedFiles "/i" (.new "/i") := .new annotatedFiles "/i"
  have hinternal : Image.packagePath "a" = "a" := by decide +kernel
  have hread : ((Image.readUnit "a/A.class" .all).run.on annotatedFiles ⟨.new "/i", []⟩).1 =
      .ok (some ⟨"m", smallClass⟩) := by
    rw [Image.on_readUnit hopen, hunit]
  have hsegments : Text.segments "a" ++ ["A"] = ["a", "A"] := by decide
  refine ⟨tidy_annotatedFiles, hcurrent, c, _, hopen, by decide, hinternal, by decide, hread, ?_⟩
  rw [← hsegments]
  refine (listed_iff_readable tidy_annotatedFiles hcurrent hopen (by decide) hinternal (by decide)
    .all).2 ?_
  have hunit : "a" ++ "/" ++ "A" ++ ".class" = "a/A.class" := by decide
  rw [hunit, hread]
  exact nofun

end

end Entry

end PlatformImage
