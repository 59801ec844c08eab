import PlatformImage.Proofs.Filters
import PlatformImage.Proofs.Reports
import PlatformImage.Proofs.Tidy
/-! Which files of an exploded image can be read, and which of those lie inside the module.

A module holds a file at a path if walks tell of it and the module's directory has it there
(`Holds`). The file can be read by that path then (`mem_listing_iff_read`). But the path that a
file is read by is only put behind that of the directory, so that it may lead anywhere: through
`..`, through links to directories, or, if it is absolute, away from the module altogether. What
keeps a read inside is that the module has the folder of the path: this is asked for when a file
is looked for in all modules, and is not when it is read from one (`reads_inside`). -/
namespace PlatformImage.Image

open Text (parentPath lastSegment)

/-- A module holds a file: a full walk tells of it, and the directory that is named as the module
is has it at that path, all of whose folders are directories and no links. -/
structure Holds (fs : FileSystem) (c : Contents) (name path : String) (content : Bytes) : Prop where
  told : .file path name ∈ c.events
  lies : ∃ m base entries, c.modules.get? name = some m ∧ m.source = .directory base ∧
    Path.fileName? base = some name ∧ fs.node? base = .ok (.directory entries) ∧
    (path, some content) ∈ listing (settled fs base entries)

/-- Whether a module has the folder that a path lies in. -/
def Contents.HasFolderOf (c : Contents) (name path : String) : Prop :=
  ∃ m, c.modules.get? name = some m ∧ m.tree.hasFolder (parentPath path) = true

section
variable {fs : FileSystem} {base owner path : String} {entries : List (String × Node)}
  {content : Bytes}

theorem ne_of_relative (h : Path.isAbsolute path = false) : path ≠ "/" ++ lastSegment path := by
  intro he
  rw [he, isAbsolute_append (by decide)] at h
  exact absurd h (by decide)

/-! ## One module -/

/-- The files of a directory that a walk tells of are those that are listed. -/
theorem mem_events_scan (htidy : tidy entries) :
    .file path owner ∈ (Module.scan fs base "" .root entries).events owner "" ↔
      ∃ content, (path, some content) ∈ listing (settled fs base entries) := by
  rw [scan_root_eq htidy, Tree.mem_events_ofEntries]
  constructor
  · rintro ⟨_, hentry, hfile, rfl⟩
    obtain ⟨⟨p, content?⟩, hmem, rfl⟩ := List.mem_map.1 hentry
    cases content? with
    | none =>
      rw [entryName, Text.beforeEnd?_eq_some_iff.2 rfl] at hfile
      cases hfile
    | some content =>
      have hclean := clean_of_mem_listing (plain_settled htidy) hmem
      rw [entryName, if_neg (ne_of_relative hclean.relative)]
      exact ⟨content, hmem⟩
  · rintro ⟨content, hmem⟩
    have hclean := clean_of_mem_listing (plain_settled htidy) hmem
    exact ⟨path, List.mem_map.2 ⟨_, hmem, rfl⟩, beforeEnd?_slash_eq_none hclean.open_end,
      (if_neg (ne_of_relative hclean.relative)).symm⟩

/-- A path in a folder of a plain directory is relative, unless it is a name behind a slash. -/
theorem relative_of_hasFolder (htidy : tidy entries)
    (hfolder : parentPath path = "" ∨ (parentPath path, none) ∈ listing (settled fs base entries))
    (hne : path ≠ "/" ++ lastSegment path) : Path.isAbsolute path = false := by
  rcases Text.eq_lastSegment_or path with ⟨-, hsame⟩ | hpath
  · rw [hsame]
    exact FileSystem.isAbsolute_of_single (Text.not_mem_lastSegment path)
  · rcases hfolder with hroot | hmem
    · rw [hroot, String.empty_append] at hpath
      exact absurd hpath hne
    · have hclean := clean_of_mem_listing (plain_settled htidy) hmem
      rw [hpath, String.append_assoc, isAbsolute_append hclean.ne_empty]
      exact hclean.relative

/-- The listed files are those that are read by a path whose folder is there. -/
theorem mem_listing_iff_read (hnode : fs.node? base = .ok (.directory entries))
    (htidy : tidy entries) (hfits : Module.fits base entries) :
    (path, some content) ∈ listing (settled fs base entries) ↔
      Module.read fs ⟨.directory base, Module.scan fs base "" .root entries⟩ path =
          .ok (some content) ∧
        (Module.scan fs base "" .root entries).hasFolder (parentPath path) = true ∧
        path ≠ "/" ++ lastSegment path := by
  constructor
  · intro hmem
    have hclean := clean_of_mem_listing (plain_settled htidy) hmem
    have hread := file_of_mem_listing hnode htidy hfits hmem
    refine ⟨?_, ?_, ne_of_relative hclean.relative⟩
    · rw [Module.read]
      simp only [FileSystem.isFile_iff.2 ⟨content, hread⟩, hread, if_true]
    · -- Whatever a walk tells of lies in a folder that is there.
      have htold : .file path "" ∈ (Module.scan fs base "" .root entries).events "" "" :=
        (mem_events_scan htidy).2 ⟨content, hmem⟩
      obtain ⟨dir, name, hname, rfl⟩ := Tree.mem_events_iff.1 htold
      rw [Text.parentPath_join dir (Tree.not_mem_filesOf hname)]
      exact Tree.hasFolder_of_mem_filesOf hname
  · rintro ⟨hread, hfolder, hne⟩
    have hlisted : parentPath path = "" ∨
        (parentPath path, none) ∈ listing (settled fs base entries) := by
      rw [← scan_settled] at hfolder
      exact listed_of_hasFolder (plain_settled htidy) hfolder
    have hrelative := relative_of_hasFolder htidy hlisted hne
    rcases read_settled hnode htidy hfits (Module.scan fs base "" .root entries) hrelative hlisted with
      ⟨content', hmem, hread'⟩ | ⟨-, hread'⟩
    · rw [hread] at hread'
      cases hread'
      exact hmem
    · rw [hread] at hread'
      cases hread'

end

/-! ## All modules -/

section
variable {fs : FileSystem} {c : Contents} {u v : Use}

/-- What a module holds is what is read from it by a path whose folder it has. -/
theorem holds_iff (hfs : fs.Tidy) (hcurrent : UpToDate fs u.image.root u.image)
    (hopen : openContents.run.on fs u = (.ok c, v)) (hlayout : c.layout = .exploded) {name : String}
    {m : Module} (hget : c.modules.get? name = some m) {path : String} {content : Bytes} :
    Holds fs c name path content ↔ m.read fs path = .ok (some content) ∧
      m.tree.hasFolder (parentPath path) = true ∧ path ≠ "/" ++ lastSegment path := by
  have horigin := origin_of_open hcurrent hopen name m hget
  rw [hlayout] at horigin
  cases horigin with
  | @directory base entries hname hnode hfits =>
    have htidy := hfs.directory hnode
    refine Iff.trans ⟨?_, fun hmem => ?_⟩ (mem_listing_iff_read hnode htidy hfits)
    · rintro ⟨-, m', base', entries', hget', hsource, -, hnode', hmem⟩
      rw [hget] at hget'
      cases hget'
      cases hsource
      rw [hnode] at hnode'
      cases hnode'
      exact hmem
    · exact ⟨(mem_contents_events hget).2 ((mem_events_scan htidy).2 ⟨content, hmem⟩),
        _, base, entries, hget, rfl, hname, hnode, hmem⟩

/-- **Reads stay inside a module if it has the folder of what is read.** In an exploded image whose
files are as they were when it was opened, a module holds just the files that are read from it by a
path in one of its folders, unless this is a bare name behind a slash. What is found in some of the
modules is in an admitted one, and with that exception the module holds it. -/
theorem reads_inside (hfs : fs.Tidy) (hcurrent : UpToDate fs u.image.root u.image)
    (hopen : openContents.run.on fs u = (.ok c, v)) (hlayout : c.layout = .exploded) :
    fullWalk.on fs u = ((none, c.events), v) ∧
    (∀ name path content, Holds fs c name path content ↔
      (readModuleUnit name path).run.on fs u = (.ok (some content), v) ∧
        c.HasFolderOf name path ∧ path ≠ "/" ++ lastSegment path) ∧
    ∀ path filter found, (readUnit path filter).run.on fs u = (.ok (some found), v) →
      filter.admits found.module = true ∧
        (Holds fs c found.module path found.content ↔ path ≠ "/" ++ lastSegment path) := by
  refine ⟨on_fullWalk hopen, fun name path content => ?_, fun path filter found hread => ?_⟩
  · rw [on_readModuleUnit hopen]
    cases hget : c.modules.get? name with
    | none =>
      refine iff_of_false (fun h => ?_) (fun ⟨h, _⟩ => nomatch h)
      obtain ⟨m, _, _, hget', -⟩ := h.lies
      rw [hget] at hget'
      cases hget'
    | some m =>
      rw [holds_iff hfs hcurrent hopen hlayout hget]
      dsimp only
      rw [Prod.mk.injEq, and_iff_left rfl]
      refine and_congr_right fun _ => and_congr_left fun _ => ?_
      exact ⟨fun hfolder => ⟨m, hget, hfolder⟩, fun ⟨m', hget', hfolder⟩ => by
        rw [hget] at hget'
        cases hget'
        exact hfolder⟩
  · rw [on_readUnit hopen] at hread
    obtain ⟨m, hmem, hfolder, hcontent⟩ := of_firstUnit_eq_some (Prod.mk.inj hread).1
    obtain ⟨hget, hadmits⟩ := mem_admitted.1 hmem
    rw [holds_iff hfs hcurrent hopen hlayout hget]
    exact ⟨hadmits, fun h => h.2.2, fun hne => ⟨hcontent, hfolder, hne⟩⟩

end

/-! ## An image with a file beside it -/

/-- A file system with an image, and a file that is not in it. -/
def besideFiles : FileSystem :=
  ⟨.directory [("i", .directory [("modules", .directory [("m", .directory inFolder)])]),
    ("top", .file [7] false)], [], []⟩

/-- The module of the image. -/
def besideModule : Module :=
  ⟨.directory "/i/modules/m", Module.scan besideFiles "/i/modules/m" "" .root inFolder⟩

/-- The contents of the image. -/
def besideContents : Contents := ⟨.exploded, NameMap.empty.insert "m" besideModule⟩

theorem tidy_besideFiles : besideFiles.Tidy := by
  simp only [FileSystem.Tidy, besideFiles, inFolder, tidyNode, tidy]
  decide

theorem node?_besideFiles : (∃ es, besideFiles.node? "/i" = .ok (.directory es) ∧
      es.lookup "jmods" = none) ∧
    besideFiles.node? "/i/modules" = .ok (.directory [("m", .directory inFolder)]) ∧
    besideFiles.node? "/i/modules/m" = .ok (.directory inFolder) := by
  have hroot : besideFiles.node? "/i" = .ok (.directory _) :=
    FileSystem.node?_child (FileSystem.node?_root besideFiles)
      (by decide : Path.join "/" "i" = "/i") (by decide) rfl nofun (by decide)
  have hmodules : besideFiles.node? "/i/modules" = .ok (.directory _) :=
    FileSystem.node?_child hroot (by decide : Path.join "/i" "modules" = "/i/modules") (by decide)
      rfl nofun (by decide)
  have hmodule : besideFiles.node? "/i/modules/m" = .ok (.directory _) :=
    FileSystem.node?_child hmodules (by decide : Path.join "/i/modules" "m" = "/i/modules/m")
      (by decide) rfl nofun (by decide)
  exact ⟨⟨_, hroot, rfl⟩, hmodules, hmodule⟩

theorem ofRoot_besideFiles : Contents.ofRoot besideFiles "/i" = .ok ⟨besideContents, []⟩ := by
  obtain ⟨⟨es, hroot, hnone⟩, hmodules, -⟩ := node?_besideFiles
  have hjmods : besideFiles.isDirectory (Path.join "/i" "jmods") = false :=
    FileSystem.isDirectory_join_of_none hroot (by decide) hnone
  have hfits : Module.fits (Path.join "/i/modules" "m") inFolder := by
    simp only [inFolder, Module.fits.eq_def]
    decide
  have hsingle := ofDirectories_single hmodules (by decide) (by decide) hfits
  have hpath : Path.join "/i/modules" "m" = "/i/modules/m" := by decide
  have hjoin : Path.join "/i" "modules" = "/i/modules" := by decide
  rw [hpath] at hsingle
  unfold Contents.ofRoot
  simp only [isDirectory_of_node? hroot, hjmods, hjoin, isDirectory_of_node? hmodules]
  exact hsingle

theorem plain_inFolder : plain inFolder := by
  simp only [inFolder, plain]
  decide

/-- What the module holds. -/
theorem listing_besideFiles : listing (settled besideFiles "/i/modules/m" inFolder) =
    [("a", none), ("a/B", some [1])] := by
  rw [settled_of_plain plain_inFolder]
  simp [inFolder, listing]

/-- The file beside the image, by two paths. -/
theorem readFile_top : besideFiles.readFile "/top" = .ok [7] ∧
    besideFiles.readFile "/i/modules/m/../../../top" = .ok [7] := by
  have hnode {path : String} (h : besideFiles.resolve true path = .ok ["top"]) :
      besideFiles.readFile path = .ok [7] := by
    rw [FileSystem.readFile, FileSystem.node?_eq_ok.2 ⟨_, h, rfl⟩]
  refine ⟨hnode ?_, hnode ?_⟩
  · have hsegments : Text.segments "/top" = ["", "top"] := by decide
    rw [FileSystem.resolve_eq (by decide) (by decide) (by decide), hsegments,
      FileSystem.resolveFrom_same (.inl rfl),
      FileSystem.resolveFrom_file (by decide) (by decide) rfl]
    rfl
  · have hsegments : Text.segments "/i/modules/m/../../../top" =
        ["", "i", "modules", "m", "..", "..", "..", "top"] := by decide
    rw [FileSystem.resolve_eq (by decide) (by decide) (by decide), hsegments,
      FileSystem.resolveFrom_same (.inl rfl),
      FileSystem.resolveFrom_directory (by decide) (by decide) rfl,
      FileSystem.resolveFrom_directory (by decide) (by decide) rfl,
      FileSystem.resolveFrom_directory (by decide) (by decide) rfl,
      FileSystem.resolveFrom_above, FileSystem.resolveFrom_above, FileSystem.resolveFrom_above,
      FileSystem.resolveFrom_file (by decide) (by decide) rfl]
    rfl

/-- The file in the folder is read from the module, which holds it. -/
theorem reads_inside_beside : besideFiles.Tidy ∧ UpToDate besideFiles "/i" (.new "/i") ∧
    ∃ v, openContents.run.on besideFiles ⟨.new "/i", []⟩ = (.ok besideContents, v) ∧
      besideContents.layout = .exploded ∧ Holds besideFiles besideContents "m" "a/B" [1] ∧
      (readModuleUnit "m" "a/B").run.on besideFiles ⟨.new "/i", []⟩ = (.ok (some [1]), v) := by
  have hcurrent : UpToDate besideFiles "/i" (.new "/i") := .new besideFiles "/i"
  have hopen := on_openContents_new ofRoot_besideFiles
  have hnode := node?_besideFiles.2.2
  have hmem : ("a/B", some [1]) ∈ listing (settled besideFiles "/i/modules/m" inFolder) := by
    rw [listing_besideFiles]
    decide
  have hget : besideContents.modules.get? "m" = some besideModule := NameMap.get?_insert ..
  have hholds : Holds besideFiles besideContents "m" "a/B" [1] :=
    ⟨(mem_contents_events hget).2 ((mem_events_scan (tidy_besideFiles.directory hnode)).2 ⟨_, hmem⟩),
      _, _, _, hget, rfl, by decide, hnode, hmem⟩
  have hread := ((reads_inside tidy_besideFiles hcurrent hopen rfl).2.1 _ _ _).1 hholds
  exact ⟨tidy_besideFiles, hcurrent, _, hopen, rfl, hholds, hread.1⟩

/-- The file beside the image is read from the module, and found in it, by paths that lead
outside. -/
theorem reads_outside_beside :
    ∃ v, openContents.run.on besideFiles ⟨.new "/i", []⟩ = (.ok besideContents, v) ∧
      besideContents.layout = .exploded ∧
      ((readModuleUnit "m" "../../../top").run.on besideFiles ⟨.new "/i", []⟩ =
          (.ok (some [7]), v) ∧
        ¬Holds besideFiles besideContents "m" "../../../top" [7]) ∧
      (readUnit "/top" .all).run.on besideFiles ⟨.new "/i", []⟩ = (.ok (some ⟨"m", [7]⟩), v) ∧
        ¬Holds besideFiles besideContents "m" "/top" [7] := by
  have hopen := on_openContents_new ofRoot_besideFiles
  have hget : besideContents.modules.get? "m" = some besideModule := NameMap.get?_insert ..
  have hheld {path : String} {content : Bytes}
      (h : Holds besideFiles besideContents "m" path content) : path = "a/B" := by
    obtain ⟨content, hmem⟩ := (mem_events_scan (tidy_besideFiles.directory node?_besideFiles.2.2)).1
      ((mem_contents_events hget).1 h.told)
    rw [listing_besideFiles] at hmem
    exact (by simpa using hmem : path = "a/B" ∧ content = [1]).1
  have hread (path : String) {file : String} (hfile : Path.join "/i/modules/m" path = file)
      (h : besideFiles.readFile file = .ok [7]) :
      besideModule.read besideFiles path = .ok (some [7]) := by
    rw [Module.read, besideModule]
    simp only [hfile, FileSystem.isFile_iff.2 ⟨_, h⟩, h, if_true]
  have habove := hread "../../../top" (by decide) readFile_top.2
  have htop := hread "/top" (by decide) readFile_top.1
  refine ⟨_, hopen, rfl, ⟨?_, fun h => absurd (hheld h) (by decide)⟩, ?_,
    fun h => absurd (hheld h) (by decide)⟩
  · rw [on_readModuleUnit hopen, hget]
    dsimp only
    rw [habove]
  · have hadmitted : besideContents.admitted Filter.all.admits = [("m", besideModule)] := rfl
    have hfolder : besideModule.tree.hasFolder (parentPath "/top") = true :=
      hasFolder_scan_of plain_inFolder _ _ Folders.contains_withFolder_self
    rw [on_readUnit hopen, hadmitted, firstUnit, if_pos hfolder, htop]

end PlatformImage.Image
