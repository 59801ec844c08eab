import PlatformImage.Proofs.Layouts
import PlatformImage.Proofs.Origins
import PlatformImage.Proofs.Walk
/-! The files that a full walk tells of.

A full walk tells of all events of an image, one after the other (`on_fullWalk`). Those about
files are the files in the folders of the module's tree (`mem_events_iff`), and a tree that was
made of entries has in its folders just the entries that are no folders (`mem_events_ofEntries`),
each under the path that its folder and its name make.

For an archive these are the entries under `classes/`. With three exceptions their paths are what
follows there (`archive_reports`): the folder itself, if it is an entry, is taken for a file
without a name; and where two slashes follow each other right behind `classes`, only a file right
there is told of, and that under its bare name. -/
namespace PlatformImage.Image

open Text (parentPath lastSegment)

/-! ## Full walks -/

/-- Takes down an event. -/
def takeDown (e : Event) : Visit (List Event) Unit := modify (· ++ [e])

/-- A walk through everything there is, with the events that it told of. -/
def fullWalk : Step (Option Error × List Event) :=
  walkFrom [] (visiting (fun _ => .enter) takeDown) .everything

theorem from_forM_takeDown (fs : FileSystem) (v : Use) (before es : List Event) :
    Visit.from (es.forM takeDown) before fs v = ((.ok (), before ++ es), v) := by
  induction es generalizing before with
  | nil => rw [List.append_nil]; rfl
  | cons e es ih =>
    have htake : Visit.from (takeDown e) before fs v = ((.ok (), before ++ [e]), v) := rfl
    rw [List.forM_eq_forM] at ih
    rw [List.forM_eq_forM, List.forM_cons, Visit.from_bind_of_ok before fs v _ htake, ih,
      List.append_assoc, List.singleton_append]

theorem delivered_enter (c : Contents) :
    c.delivered (fun _ => .enter) .everything = c.events :=
  List.filter_eq_self.2 fun e _ => by simp [Event.told, Event.reached]

theorem on_walkFrom_takeDown {c : Contents} {fs : FileSystem} {u v : Use} (answer : Event → Answer)
    (mode : Mode) (hopen : openContents.run.on fs u = (.ok c, v)) :
    (walkFrom [] (visiting answer takeDown) mode).on fs u =
      ((none, c.delivered answer mode), v) := by
  rw [on_walkFrom mode answer takeDown [] hopen, from_forM_takeDown]
  rfl

/-- A full walk through an image that opens tells of all its events. -/
theorem on_fullWalk {c : Contents} {fs : FileSystem} {u v : Use}
    (hopen : openContents.run.on fs u = (.ok c, v)) : fullWalk.on fs u = ((none, c.events), v) := by
  rw [fullWalk, on_walkFrom_takeDown _ .everything hopen, delivered_enter]

/-! ## Files in a tree -/

namespace Tree

variable {t : Tree} {owner path dir : String}

theorem file_of_mem_events (h : .file path owner ∈ t.events owner dir) :
    ∃ d name, name ∈ t.filesOf d ∧ path = join d name := by
  induction dir using Tree.events.induct (t := t) with
  | case1 dir ih =>
    rw [events_eq, List.mem_append, List.mem_append] at h
    rcases h with (h | h) | h
    · obtain ⟨name, hname, he⟩ := List.mem_map.1 h
      cases he
      exact ⟨dir, name, hname, rfl⟩
    · obtain ⟨p, -, he⟩ := List.mem_map.1 h
      cases he
    · obtain ⟨p, hp, he⟩ := List.mem_flatMap.1 h
      exact ih ⟨p, hp⟩ he

/-- The events in a folder are among those of the root, since all folders above it are there. -/
theorem events_subset (hdir : t.hasFolder dir) : t.events owner dir ⊆ t.events owner "" := by
  induction dir using Text.lineage.induct with
  | case1 => exact List.Subset.refl _
  | case2 dir hne ih =>
    have hunder : dir ∈ t.foldersOf (parentPath dir) :=
      mem_foldersOf.2 ⟨mem_paths_iff.2 hdir, hne, rfl⟩
    refine List.Subset.trans (fun e he => ?_) (ih (t.wellFormed.closed dir hdir))
    rw [events_eq]
    exact List.mem_append_right _ (List.mem_flatMap.2 ⟨dir, hunder, he⟩)

/-- The files that a module's events are about are those in its folders. -/
theorem mem_events_iff : .file path owner ∈ t.events owner "" ↔
    ∃ dir name, name ∈ t.filesOf dir ∧ path = join dir name := by
  constructor
  · exact file_of_mem_events
  · rintro ⟨dir, name, hname, rfl⟩
    refine events_subset (hasFolder_of_mem_filesOf hname) ?_
    rw [events_eq]
    exact List.mem_append_left _ (List.mem_append_left _ (List.mem_map.2 ⟨name, hname, rfl⟩))

/-- A path is put together again from its folder and its name, unless the folder is lost that
    only a slash in front stands for. -/
theorem join_parentPath (path : String) : join (parentPath path) (lastSegment path) =
    if path = "/" ++ lastSegment path then lastSegment path else path := by
  have hlast := Text.not_mem_lastSegment path
  rcases Text.eq_lastSegment_or path with ⟨hroot, hsame⟩ | hpath
  · have hne : path ≠ "/" ++ lastSegment path := by
      intro he
      rw [← hsame] at hlast
      rw [he] at hlast
      exact hlast (by simp)
    rw [if_neg hne, hroot, ← hsame]
    rfl
  · unfold join
    by_cases hroot : parentPath path = ""
    · rw [hroot, String.empty_append] at hpath
      rw [if_pos hroot, if_pos hpath]
    · have hne : path ≠ "/" ++ lastSegment path := by
        intro he
        refine hroot ?_
        rw [he, ← String.empty_append (s := "/"), Text.parentPath_append "" hlast]
      rw [if_neg hroot, if_neg hne, ← hpath]

/-- Of a tree that is made of entries, files are told of by these. -/
theorem mem_events_ofEntries {entries : List String} :
    .file path owner ∈ (ofEntries entries).events owner "" ↔
      ∃ e ∈ entries, Text.beforeEnd? "/" e = Option.none ∧
        path = if e = "/" ++ lastSegment e then lastSegment e else e := by
  have hroot (dir : String) : root.filesOf dir = [] := by
    rw [root, filesOf_addFolder]
    rfl
  rw [mem_events_iff]
  simp only [ofEntries, mem_filesOf_foldl_addEntry, hroot, List.not_mem_nil, false_or]
  constructor
  · rintro ⟨_, _, ⟨e, he, hfile, rfl, rfl⟩, rfl⟩
    exact ⟨e, he, hfile, join_parentPath e⟩
  · rintro ⟨e, he, hfile, rfl⟩
    exact ⟨_, _, ⟨e, he, hfile, rfl, rfl⟩, (join_parentPath e).symm⟩

end Tree

/-- The files of a module that a full walk tells of are those of its tree. -/
theorem mem_contents_events {c : Contents} {name path : String} {m : Module}
    (hget : c.modules.get? name = some m) :
    .file path name ∈ c.events ↔ .file path name ∈ m.tree.events name "" := by
  unfold Contents.events
  constructor
  · intro h
    obtain ⟨⟨owner, m'⟩, hmem, he⟩ := List.mem_flatMap.1 h
    have he : .file path name ∈ m'.tree.events owner "" := (List.mem_cons.1 he).resolve_left nofun
    obtain rfl : name = owner := (Tree.lineage_subset_of_mem_events he).2.1
    rw [NameMap.mem_entries_iff, hget] at hmem
    cases hmem
    exact he
  · intro he
    exact List.mem_flatMap.2 ⟨(name, m), NameMap.mem_entries_iff.2 hget, List.mem_cons_of_mem _ he⟩

/-! ## Files in an archive -/

/-- An entry of an archive with a name, and that of no directory. -/
structure HasFile (zip : Archive.Zip) (name : String) : Prop where
  listed : ∃ e ∈ zip.entries, e.name = name
  open_end : name.toList.getLast? ≠ some '/'

section
variable {zip : Archive.Zip} {owner unit single : String}

/-- The slash that a prefix ends with is the end of a directory's name only if nothing follows. -/
theorem hasFile_append {front : String} (hunit : unit ≠ "") : HasFile zip (front ++ unit) ↔
    (∃ e ∈ zip.entries, e.name = front ++ unit) ∧ Text.beforeEnd? "/" unit = none := by
  rw [beforeEnd?_slash_eq_none_iff, ← getLast?_append hunit front]
  exact ⟨fun h => ⟨h.listed, h.open_end⟩, fun ⟨hlisted, hopen⟩ => ⟨hlisted, hopen⟩⟩

theorem not_hasFile_folder : ¬HasFile zip classesFolder := fun h => h.open_end (by decide)

/-- The files that an archive tells of, by its entries. -/
theorem mem_events_ofArchive {path : String} :
    .file unit owner ∈ (Module.ofArchive path zip).tree.events owner "" ↔
      HasFile zip (classesFolder ++ unit) ∧ unit ≠ "/" ++ lastSegment unit ∨
      '/' ∉ unit.toList ∧ HasFile zip (classesFolder ++ "/" ++ unit) ∨
      unit = "" ∧ ∃ e ∈ zip.entries, e.name = classesFolder := by
  rw [Module.ofArchive, Tree.mem_events_ofEntries]
  simp only [mem_entryPaths_iff]
  constructor
  · rintro ⟨path, hlisted, hfile, rfl⟩
    by_cases hempty : path = ""
    · subst hempty
      exact .inr (.inr ⟨by decide, hlisted⟩)
    have hhas : HasFile zip (classesFolder ++ path) := (hasFile_append hempty).2 ⟨hlisted, hfile⟩
    split
    · next hlost =>
      refine .inr (.inl ⟨Text.not_mem_lastSegment path, ?_⟩)
      rwa [String.append_assoc, ← hlost]
    · next hkept => exact .inl ⟨hhas, hkept⟩
  · rintro (⟨hhas, hkept⟩ | ⟨hsingle, hhas⟩ | ⟨rfl, hlisted⟩)
    · have hne : unit ≠ "" := by
        rintro rfl
        exact not_hasFile_folder hhas
      obtain ⟨hlisted, hfile⟩ := (hasFile_append hne).1 hhas
      exact ⟨unit, hlisted, hfile, (if_neg hkept).symm⟩
    · have hlast : lastSegment ("/" ++ unit) = unit := Text.lastSegment_append "" hsingle
      rw [String.append_assoc] at hhas
      obtain ⟨hlisted, hfile⟩ := (hasFile_append (by simp)).1 hhas
      exact ⟨"/" ++ unit, hlisted, hfile, by rw [hlast, if_pos rfl]⟩
    · exact ⟨"", hlisted, by decide, by decide⟩

/-- Those exceptions are all: without such entries an archive tells of just the files it has. -/
theorem tells_exactly_iff {told : String → Prop} (htold : ∀ unit, told unit ↔
      HasFile zip (classesFolder ++ unit) ∧ unit ≠ "/" ++ lastSegment unit ∨
      '/' ∉ unit.toList ∧ HasFile zip (classesFolder ++ "/" ++ unit) ∨
      unit = "" ∧ ∃ e ∈ zip.entries, e.name = classesFolder) :
    (∀ unit, told unit ↔ HasFile zip (classesFolder ++ unit)) ↔
      (¬∃ e ∈ zip.entries, e.name = classesFolder) ∧
        ∀ single : String, '/' ∉ single.toList → ¬HasFile zip (classesFolder ++ "/" ++ single) := by
  constructor
  · intro hall
    refine ⟨fun hlisted => ?_, fun single hsingle hhas => ?_⟩
    · exact not_hasFile_folder ((hall "").1 ((htold "").2 (.inr (.inr ⟨rfl, hlisted⟩))))
    · rw [String.append_assoc] at hhas
      rcases (htold _).1 ((hall _).2 hhas) with ⟨-, hkept⟩ | ⟨hnone, -⟩ | ⟨hempty, -⟩
      · have hlast : lastSegment ("/" ++ single) = single := Text.lastSegment_append "" hsingle
        rw [hlast] at hkept
        exact hkept rfl
      · exact hnone (by simp)
      · simp at hempty
  · rintro ⟨hfolder, hdoubled⟩ unit
    rw [htold]
    constructor
    · rintro (⟨hhas, -⟩ | ⟨hsingle, hhas⟩ | ⟨-, hlisted⟩)
      · exact hhas
      · exact absurd hhas (hdoubled unit hsingle)
      · exact absurd hlisted hfolder
    · intro hhas
      refine .inl ⟨hhas, fun hlost => ?_⟩
      rw [hlost, ← String.append_assoc] at hhas
      exact hdoubled _ (Text.not_mem_lastSegment unit) hhas

/-- **The files that a walk tells of are the entries under `classes/`**, with two exceptions. In an
image of archives each module is read from an archive with its name, and a full walk tells of no
event twice. Of the files it tells by what their entries' names have behind `classes/`; but where
that begins with its only slash, it tells of the bare name, and if `classes/` itself is an entry, it
tells of a file without a name. If there are no such entries, and only then, it tells of just the
files that the archive has. -/
theorem archive_reports {fs : FileSystem} {u v : Use} {c : Contents}
    (hcurrent : UpToDate fs u.image.root u.image)
    (hopen : openContents.run.on fs u = (.ok c, v)) (hlayout : c.layout = .jmods) {name : String}
    (hname : name ∈ c.modules.keys) :
    ∃ path zip events, c.modules.get? name = some (.ofArchive path zip) ∧
      Path.stem? path = some name ∧ isJmod path = true ∧ Contents.archive? fs path = some zip ∧
      fullWalk.on fs u = ((none, events), v) ∧ events.Nodup ∧
      (∀ unit, .file unit name ∈ events ↔
        HasFile zip ("classes/" ++ unit) ∧ unit ≠ "/" ++ lastSegment unit ∨
        '/' ∉ unit.toList ∧ HasFile zip ("classes//" ++ unit) ∨
        unit = "" ∧ ∃ e ∈ zip.entries, e.name = "classes/") ∧
      ((∀ unit, .file unit name ∈ events ↔ HasFile zip ("classes/" ++ unit)) ↔
        (¬∃ e ∈ zip.entries, e.name = "classes/") ∧
          ∀ single : String, '/' ∉ single.toList → ¬HasFile zip ("classes//" ++ single)) := by
  obtain ⟨m, hget⟩ := NameMap.mem_keys_iff.1 hname
  have horigin := origin_of_open hcurrent hopen name m hget
  rw [hlayout] at horigin
  cases horigin with
  | @archive path zip hstem hjmod hzip =>
    have htold (unit : String) : .file unit name ∈ c.events ↔ _ :=
      (mem_contents_events hget).trans mem_events_ofArchive
    exact ⟨path, zip, c.events, hget, hstem, hjmod, hzip, on_fullWalk hopen,
      nodup_contents_events c, htold, tells_exactly_iff htold⟩

end

/-! ## An archive with odd entries -/

/-- A file in a folder, the folder of all classes, and a file behind two slashes. -/
def oddItems : List Archive.ZipWriter.Item :=
  [⟨"classes/a/B", [1]⟩, ⟨"classes/", []⟩, ⟨"classes//C", [2]⟩]

/-- A file system with an image that has just their archive. -/
def oddFiles : FileSystem := oneArchive (Archive.ZipWriter.write oddItems)

/-- The archive as it is opened. -/
def oddZip : Archive.Zip :=
  (Contents.archive? oddFiles "/i/jmods/m.jmod").getD ⟨⟨[], 0⟩, []⟩

/-- The contents of the image. -/
def oddContents : Contents := oneModule oddZip

/-- The entries of the archive. -/
def oddEntries : List Archive.Entry :=
  (Archive.Entry.directory (Archive.ZipWriter.write oddItems)).toOption.getD []

/-- The archive is evaluated here once; all else about it follows. -/
theorem read_oddEntries : ((Archive.Entry.directory (Archive.ZipWriter.write oddItems)).toOption.map
    fun entries => entries.map (·.name)) = some (oddItems.map (·.name)) := by
  decide +kernel

theorem directory_oddEntries :
    Archive.Entry.directory (Archive.ZipWriter.write oddItems) = .ok oddEntries := by
  refine directory_eq_of_isSome ?_
  rw [← Option.isSome_map, read_oddEntries]
  rfl

theorem names_oddEntries : oddEntries.map (·.name) = oddItems.map (·.name) := by
  have hread := read_oddEntries
  rw [directory_oddEntries] at hread
  exact Option.some.inj hread

/-- The archive opens, and the image with it. -/
theorem opens_oddFiles : Contents.archive? oddFiles "/i/jmods/m.jmod" = some oddZip ∧
    oddZip.entries = oddEntries ∧ Contents.ofRoot oddFiles "/i" = .ok ⟨oddContents, []⟩ := by
  obtain ⟨file, -, hzip, hfound⟩ := opens_oneArchive directory_oddEntries
  have hodd : oddZip = ⟨file, oddEntries⟩ := by rw [oddZip, oddFiles, hzip, Option.getD_some]
  rw [oddContents, hodd, oddFiles]
  exact ⟨hzip, by dsimp only, hfound⟩

theorem names_oddZip : oddZip.entries.map (·.name) = oddItems.map (·.name) := by
  rw [opens_oddFiles.2.1, names_oddEntries]

theorem events_oddContents : oddContents.events = [.module "m", .file "" "m", .file "C" "m",
    .folder "a" "m", .file "a/B" "m"] := by
  have hpaths : Module.entryPaths oddZip = ["a/B", "", "/C"] := by
    rw [Module.entryPaths, names_oddZip]
    decide +kernel
  rw [oddContents, oneModule, Module.ofArchive, hpaths]
  decide +kernel

/-- The file in the folder is told of, and so the archive has it. -/
theorem archive_reports_odd : UpToDate oddFiles "/i" (.new "/i") ∧
    ∃ v, openContents.run.on oddFiles ⟨.new "/i", []⟩ = (.ok oddContents, v) ∧
      oddContents.layout = .jmods ∧ "m" ∈ oddContents.modules.keys ∧
      .file "a/B" "m" ∈ oddContents.events ∧ HasFile oddZip ("classes/" ++ "a/B") := by
  have hcurrent : UpToDate oddFiles "/i" (.new "/i") := .new oddFiles "/i"
  have hopen := on_openContents_new opens_oddFiles.2.2
  have hname : "m" ∈ oddContents.modules.keys := by decide
  have htold : .file "a/B" "m" ∈ oddContents.events := by
    rw [events_oddContents]
    decide
  obtain ⟨path, zip, events, hget, -, -, -, hwalk, -, hfiles, -⟩ :=
    archive_reports hcurrent hopen rfl hname
  obtain rfl : oddContents.events = events := by
    rw [on_fullWalk hopen] at hwalk
    cases hwalk
    rfl
  cases hget
  refine ⟨hcurrent, _, hopen, rfl, hname, htold, ?_⟩
  rcases (hfiles "a/B").1 htold with ⟨hhas, -⟩ | ⟨hsingle, -⟩ | ⟨hempty, -⟩
  · exact hhas
  · exact absurd (by decide) hsingle
  · exact absurd hempty (by decide)

/-- A walk tells of a file without a name, which stands for the folder of all classes, and of a
file `C`, though the archive has neither. -/
theorem archive_misreports_odd : Contents.archive? oddFiles "/i/jmods/m.jmod" = some oddZip ∧
    ∃ events, (fullWalk.on oddFiles ⟨.new "/i", []⟩).1 = (none, events) ∧
      .file "" "m" ∈ events ∧ ¬HasFile oddZip ("classes/" ++ "") ∧
      .file "C" "m" ∈ events ∧ ¬HasFile oddZip ("classes/" ++ "C") := by
  have hwalk : (fullWalk.on oddFiles ⟨.new "/i", []⟩).1 = (none, oddContents.events) := by
    rw [on_fullWalk (on_openContents_new opens_oddFiles.2.2)]
  have hnot : ¬HasFile oddZip "classes/C" := fun h => by
    obtain ⟨e, he, hname⟩ := h.listed
    have hmem : "classes/C" ∈ oddZip.entries.map (·.name) := hname ▸ List.mem_map_of_mem he
    rw [names_oddZip] at hmem
    exact absurd hmem (by decide)
  rw [events_oddContents] at hwalk
  exact ⟨opens_oddFiles.1, _, hwalk, by decide, not_hasFile_folder, by decide, hnot⟩

end PlatformImage.Image
