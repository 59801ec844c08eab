import PlatformImage.Archive.ZipWriter
import PlatformImage.Proofs.Links
import PlatformImage.Proofs.OpenFiles
/-! One set of modules in both layouts: with a directory for each (`Exploded`), and with
an archive for each (`Archived`).

A module in a directory and the same in an archive are counterparts (`counterpart`): the
tree is the same, and so is what is read, but for the entries that an archive has for
directories. -/
namespace PlatformImage

/-! ## Names of paths -/

namespace Path

theorem dropTail_eq_self {c : Char} {cs : List Char} (hc : c ≠ '/')
    (h : ¬(c = '.' ∧ cs.head? = some '/')) : dropTail (c :: cs) = c :: cs := by
  unfold dropTail
  split
  · next heq => exact absurd (List.cons.inj heq).1 hc
  · next r heq =>
    obtain ⟨rfl, rfl⟩ := List.cons.inj heq
    exact absurd ⟨rfl, rfl⟩ h
  · rfl

/-- Nothing is dropped from the end of a path that ends in an ordinary name. -/
theorem trimTail_append (front : String) {name : String} (h : Ordinary name) :
    trimTail (front ++ name) = front ++ name := by
  -- A name that is not empty ends in a character, which is no slash.
  obtain ⟨cs, c, hname⟩ := List.eq_nil_or_concat name.toList |>.resolve_left
    (mt String.toList_eq_nil_iff.1 h.ne_empty)
  have hreverse : (front ++ name).toList.reverse = c :: (cs.reverse ++ front.toList.reverse) := by
    rw [String.toList_append, hname]
    simp
  have hsingle : ∀ d ∈ name.toList, d ≠ '/' := fun d hd he => h.single (he ▸ hd)
  have hc : c ≠ '/' := hsingle c (by rw [hname]; simp)
  have hdot : ¬(c = '.' ∧ (cs.reverse ++ front.toList.reverse).head? = some '/') := by
    rintro ⟨rfl, hhead⟩
    rcases List.eq_nil_or_concat cs with rfl | ⟨ds, d, rfl⟩
    · exact h.ne_here (String.toList_injective (by simpa using hname))
    · refine hsingle d (by rw [hname]; simp) ?_
      simpa using hhead
  rw [trimTail, hreverse, dropTail_eq_self hc hdot, ← hreverse]
  simp

theorem lastSegment_join (base : String) {name : String} (h : Ordinary name) :
    Text.lastSegment (join base name) = name := by
  rw [FileSystem.join_of_relative base (FileSystem.isAbsolute_of_single h.single)]
  have hbehind (front : String) : Text.lastSegment (front ++ "/" ++ name) = name :=
    Text.lastSegment_append front h.single
  split
  · next hbase =>
    rcases Bool.or_eq_true_iff.1 hbase with hempty | hslash
    · rw [String.isEmpty_iff.1 hempty, String.empty_append]
      exact Text.lastSegment_single h.single
    · obtain ⟨front, hfront⟩ := List.getLast?_eq_some_iff.1 (of_decide_eq_true hslash)
      have hsplit : base = String.ofList front ++ "/" := by
        apply String.toList_injective
        simp [hfront]
      rw [hsplit]
      exact hbehind _
  · exact hbehind base

theorem fileName?_join (base : String) {name : String} (h : Ordinary name) :
    fileName? (join base name) = some name := by
  have htrim : trimTail (join base name) = join base name := by
    rw [FileSystem.join_of_relative base (FileSystem.isAbsolute_of_single h.single)]
    split
    · exact trimTail_append base h
    · exact trimTail_append (base ++ "/") h
  unfold fileName?
  rw [htrim, lastSegment_join base h, if_neg]
  rintro (he | he | he)
  · exact h.ne_empty he
  · exact h.ne_here he
  · exact h.ne_above he

end Path

namespace Image

/-- The file of an archive. -/
def archiveName (name : String) : String := name ++ ".jmod"

theorem ordinary_archiveName {name : String} (h : Ordinary name) : Ordinary (archiveName name) := by
  have hlength : 5 ≤ (archiveName name).length := by
    rw [archiveName, String.length_append]
    exact Nat.le_add_left 5 _
  have hne {s : String} (hs : s.length < 5) : archiveName name ≠ s := by
    rintro rfl
    omega
  have hnot {c : Char} (hc : c ∉ name.toList) (hc' : c ∉ ".jmod".toList) :
      c ∉ (archiveName name).toList := by
    rw [archiveName, String.toList_append, List.mem_append, not_or]
    exact ⟨hc, hc'⟩
  exact ⟨hne (by decide), hne (by decide), hne (by decide), hnot h.single (by decide),
    hnot h.noNul (by decide)⟩

theorem splitName_archiveName {name : String} (h : Ordinary name) :
    Path.splitName (archiveName name) = (name, some "jmod") := by
  have hsplit : Text.splitLast '.' (archiveName name) = some (name, "jmod") := by
    have hlist : (archiveName name).toList = name.toList ++ '.' :: "jmod".toList := by
      simp [archiveName]
    have hnot : '.' ∉ "jmod".toList := by decide
    rw [Text.splitLast, hlist, Text.cutLast_append _ _ hnot]
    simp
  rw [Path.splitName, hsplit]
  exact if_neg h.ne_empty

theorem stem?_archive (base : String) {name : String} (h : Ordinary name) :
    Path.stem? (Path.join base (archiveName name)) = some name := by
  rw [Path.stem?, Path.fileName?_join base (ordinary_archiveName h), Option.map_some,
    splitName_archiveName h]

theorem isJmod_archive (base : String) {name : String} (h : Ordinary name) :
    isJmod (Path.join base (archiveName name)) = true := by
  unfold isJmod Path.extension?
  rw [Path.fileName?_join base (ordinary_archiveName h), Option.bind_some, splitName_archiveName h]
  have hlower : "jmod".toList.map Char.toLower == "jmod".toList := by decide
  exact hlower

/-! ## The two layouts -/

/-- What an image is made of: modules, each with its name and what is in its directory. -/
abbrev Sources := List (String × List (String × Node))

/-- Modules with ordinary names, each once, and nothing but files and directories with
    ordinary names in them. -/
structure Sources.Plain (ms : Sources) : Prop where
  distinct : (ms.map (·.1)).Nodup
  ordinary : ∀ m ∈ ms, Ordinary m.1
  inside : ∀ m ∈ ms, plain m.2

/-- A root with a directory for each module, none of whose paths is too long to be
    asked for. -/
structure Exploded (fs : FileSystem) (root : String) (ms : Sources) : Prop where
  isDirectory : fs.isDirectory root
  noArchives : fs.isDirectory (Path.join root "jmods") = false
  modules : ∃ es, fs.node? (Path.join root "modules") = .ok (.directory es) ∧
    es.Perm (ms.map fun m => (m.1, .directory m.2)) ∧ Module.fits (Path.join root "modules") es

/-- What the archive of a module stores: a file under its path, and an empty entry for
    each directory but that of the module. -/
def archiveItems (entries : List (String × Node)) : List Archive.ZipWriter.Item :=
  (listing entries).map fun i => ⟨classesFolder ++ entryName i.1 i.2, i.2.getD []⟩

/-- An archive has what was stored in it, by the exact names. -/
structure Stores (bytes : Bytes) (entries : List Archive.Entry)
    (items : List Archive.ZipWriter.Item) : Prop where
  names : ∀ name, (∃ e ∈ entries, e.name = name) ↔ ∃ i ∈ items, i.name = name
  content : ∀ i ∈ items, ∃ e, Archive.Entry.named? entries i.name = some e ∧
    e.content bytes = .ok i.content

/-- A file in which the directory of a module is stored. -/
def IsArchive (entries : List (String × Node)) (file : Node) : Prop :=
  ∃ bytes executable stored, file = .file bytes executable ∧
    Archive.Entry.directory bytes = .ok stored ∧ Stores bytes stored (archiveItems entries)

/-- A root with an archive for each module. -/
structure Archived (fs : FileSystem) (root : String) (ms : Sources) : Prop where
  isDirectory : fs.isDirectory root
  archives : ∃ es, fs.node? (Path.join root "jmods") = .ok (.directory es) ∧
    (es.map (·.1)).Perm (ms.map fun m => archiveName m.1) ∧
    (∀ m ∈ ms, ∃ file, (archiveName m.1, file) ∈ es ∧ IsArchive m.2 file) ∧
    Module.fits (Path.join root "jmods") es

/-! ## One module in both -/

section
variable {fs : FileSystem} {entries : List (String × Node)} {zip : Archive.Zip} {bytes : Bytes}

theorem mem_entryPaths_iff {entry : String} :
    entry ∈ Module.entryPaths zip ↔ ∃ e ∈ zip.entries, e.name = classesFolder ++ entry := by
  simp only [Module.entryPaths, List.mem_filterMap, List.mem_map, exists_exists_and_eq_and,
    Text.afterStart?_eq_some_iff]

theorem mem_entryPaths {entry : String} (hzip : Stores bytes zip.entries (archiveItems entries)) :
    entry ∈ Module.entryPaths zip ↔ ∃ i ∈ listing entries, entryName i.1 i.2 = entry := by
  rw [mem_entryPaths_iff, hzip.names]
  simp [archiveItems]

/-- Both ways of indexing a module give the same tree. -/
theorem tree_ofArchive (hplain : plain entries)
    (hzip : Stores bytes zip.entries (archiveItems entries)) (archive path : String) :
    (Module.ofArchive archive zip).tree = Module.scan fs path "" .root entries := by
  have hentries (e : String) : e ∈ Module.entryPaths zip ↔
      e ∈ (listing entries).map fun i => entryName (Tree.join "" i.1) i.2 := by
    rw [mem_entryPaths hzip, List.mem_map]
    rfl
  rw [scan_eq hplain]
  exact Tree.ofEntries_congr hentries

theorem named?_eq_none {stored : List Archive.Entry} {name : String} :
    Archive.Entry.named? stored name = none ↔ ¬∃ e ∈ stored, e.name = name := by
  simp [Archive.Entry.named?]

/-- An archive is read by the names of its entries. -/
theorem read_archive_of_mem (hzip : Stores (fs.held zip.file) zip.entries (archiveItems entries))
    (archive : String) {i : String × Option Bytes} (hi : i ∈ listing entries) :
    (Module.ofArchive archive zip).read fs (entryName i.1 i.2) = .ok (some (i.2.getD [])) := by
  obtain ⟨e, hentry, hcontent⟩ := hzip.content _ (List.mem_map.2 ⟨i, hi, rfl⟩)
  rw [Module.read, Module.ofArchive]
  simp only [Archive.Zip.read, hentry, hcontent, Except.map]

theorem read_archive_of_not_mem
    (hzip : Stores (fs.held zip.file) zip.entries (archiveItems entries)) (archive : String)
    {path : String} (h : ∀ i ∈ listing entries, entryName i.1 i.2 ≠ path) :
    (Module.ofArchive archive zip).read fs path = .ok none := by
  have hnone : Archive.Entry.named? zip.entries (classesFolder ++ path) = none := by
    rw [named?_eq_none, hzip.names]
    rintro ⟨_, hitem, hname⟩
    obtain ⟨i, hi, rfl⟩ := List.mem_map.1 hitem
    exact h i hi ((String.append_right_inj _).1 hname)
  rw [Module.read, Module.ofArchive]
  simp only [Archive.Zip.read, hnone]

end

/-- A module in a directory, and the same in an archive. -/
structure Counterpart (fs : FileSystem) (m m' : Module) : Prop where
  tree : m.tree = m'.tree
  rooted : m.tree.hasFolder ""
  file : ∀ path, Path.isAbsolute path = false → m.tree.hasFolder (Text.parentPath path) →
    path.toList.getLast? ≠ some '/' → m.read fs path = m'.read fs path
  /-- A path that ends in a `/` leads to no file, but may be that of an entry. -/
  folder : ∀ path, Path.isAbsolute path = false → m.tree.hasFolder (Text.parentPath path) →
    path.toList.getLast? = some '/' → m.read fs path = .ok none ∧
      (m'.read fs path = .ok none ∨ m'.read fs path = .ok (some []))

theorem counterpart {fs : FileSystem} {base archive : String} {entries : List (String × Node)}
    {zip : Archive.Zip} (hbase : fs.node? base = .ok (.directory entries)) (hplain : plain entries)
    (hfits : Module.fits base entries)
    (hzip : Stores (fs.held zip.file) zip.entries (archiveItems entries)) :
    Counterpart fs ⟨.directory base, Module.scan fs base "" .root entries⟩
      (.ofArchive archive zip) := by
  have hroot : Tree.root.hasFolder "" := Folders.contains_withFolder_self
  refine ⟨(tree_ofArchive hplain hzip archive base).symm, hasFolder_scan_of hplain base "" hroot,
    ?_, ?_⟩
  · intro path hrelative hparent hlast
    rcases read_directory hbase hplain hfits (Module.scan fs base "" .root entries) hrelative
      (listed_of_hasFolder hplain hparent) with ⟨content, hmem, hread⟩ | ⟨hnone, hread⟩
    · rw [hread]
      exact (read_archive_of_mem hzip archive hmem).symm
    · rw [hread, read_archive_of_not_mem hzip archive]
      rintro ⟨p, content⟩ hi rfl
      cases content with
      | some content => exact hnone content hi
      | none => exact hlast (by simp [entryName])
  · intro path hrelative hparent hlast
    constructor
    · rcases read_directory hbase hplain hfits (Module.scan fs base "" .root entries) hrelative
        (listed_of_hasFolder hplain hparent) with ⟨content, hmem, -⟩ | ⟨-, hread⟩
      · exact absurd hlast (clean_of_mem_listing hplain hmem).open_end
      · exact hread
    · by_cases hmem : ∃ i ∈ listing entries, entryName i.1 i.2 = path
      · obtain ⟨⟨p, content⟩, hi, rfl⟩ := hmem
        cases content with
        | some content => exact absurd hlast (clean_of_mem_listing hplain hi).open_end
        | none => exact .inr (read_archive_of_mem hzip archive hi)
      · exact .inl (read_archive_of_not_mem hzip archive fun i hi he => hmem ⟨i, hi, he⟩)

end Image

end PlatformImage
