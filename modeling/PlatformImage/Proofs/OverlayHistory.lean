import PlatformImage.Proofs.Lookups
import PlatformImage.Proofs.Opening
import PlatformImage.Proofs.Overlays
import PlatformImage.Proofs.Requests
/-! Annotations over a whole session. Whatever was asked for before, of whichever entries and
images, a type gets the annotations that it would get if every overlay were opened afresh
(`findType_annotations`). For that the files of the overlays must stay as they are, and their
paths must end in names and be short enough to be asked for: a longer path is answered from
the open archive of a shorter one (`findType_tooLong`). -/
namespace PlatformImage

namespace Session

open Entry (FoundType)
open Overlay (Usable Current Supplies firstSupplied supplied works)

/-- Where a request writes into a file, what the image holds open of an overlay stays as it is. -/
def LeavesOverlay (s : Session) (r : Request) (number : Nat) : Prop :=
  r.overwrites → ∀ image handle, s.images[number]? = some image → image.overlay = some handle →
    (s.run r).session.files.held handle.zip.file = s.files.held handle.zip.file

/-- The sessions that come about while the entries of an image have no other overlays than
    those given, and the files of these stay as they are, the open one too. -/
inductive History (number : Nat) (overlays : String → Prop) : Session → Prop
  | start (files : FileSystem) (vars : JavaHome.Variables) :
    History number overlays (.start files vars)
  | run {s : Session} (r : Request) (h : History number overlays s)
    (hgiven : ∀ p, s.Attaches number p → overlays p)
    (hfiles : ∀ p, overlays p → (s.run r).session.files.readFile p = s.files.readFile p)
    (hopen : s.LeavesOverlay r number) : History number overlays (s.run r).session

section
variable {number : Nat} {overlays : String → Prop} {s : Session}

theorem History.numbered (h : History number overlays s) : s.Numbered := by
  induction h with
  | start files vars => exact .start files vars
  | run r _ _ _ _ ih => exact ih.run r

/-- A request that leaves the overlays leaves what is open of them. -/
theorem held_run {r : Request} (hopen : s.LeavesOverlay r number) {image : Image}
    (himage : (s.run r).session.images[number]? = some image) {handle : Overlay.Handle}
    (hhandle : image.overlay = some handle) (hfile : s.files.IsOpen handle.zip.file) :
    (s.run r).session.files.IsOpen handle.zip.file ∧
      (s.run r).session.files.held handle.zip.file = s.files.held handle.zip.file := by
  cases hwrites : r.overwrites with
  | false => exact keeps_run s hwrites _ hfile
  | true =>
    cases r with
    | overwrite path content =>
      exact ⟨(FileSystem.overwrite_spec hfile path content).1,
        hopen hwrites image handle himage hhandle⟩
    | _ => cases hwrites

/-- In all of them the overlay that is open is what its path leads to. -/
theorem History.current (h : History number overlays s) {image : Image}
    (himage : s.images[number]? = some image) : Current s.files overlays image.overlay := by
  induction h generalizing image with
  | start files vars => simp [Session.start] at himage
  | run r _ hgiven hfiles hopen ih =>
    refine Current.files ?_ hfiles fun handle hhandle => held_run hopen himage hhandle
    rcases moves_run _ r himage with ⟨before, hbefore, hmoves⟩ | ⟨-, -, root, rfl⟩
    · exact (hmoves.mono hgiven id).current (ih hbefore)
    · exact .empty

/-- What is answered when an entry is asked for a type. -/
def askType (s : Session) (name package unit : String) (filter : Image.Filter) : Answer :=
  (s.run (.useEntry name (.findType package unit filter))).answer

/-- The session with other overlays for an entry. -/
def withOverlays (s : Session) (name : String) (paths : List String) : Session :=
  (s.run (.useEntry name (.setOverlays paths))).session

variable {name : String} {use : EntryUse} {image : Image}

/-- A step with the image, as part of a use of an entry. -/
theorem on_answering {α : Type} (x : Image.Step α) (f : α → Answer) (e : Entry) (r : Registry)
    (fs : FileSystem) (u : Image.Use) :
    Image.Step.on ((do return (f (← liftM x), e) : Entry.ModuleStep (Answer × Entry)).run r) fs u =
      (((f (x.on fs u).1, e), r), (x.on fs u).2) :=
  rfl

/-- Being asked for a type, an entry looks for it. -/
theorem entryResult_findType (s : Session) (use : EntryUse) (image : Image)
    (package unit : String) (filter : Image.Filter) :
    s.entryResult use image (.findType package unit filter) =
      let found := (use.entry.findType package unit filter).run.on s.files ⟨image, []⟩
      (((.of .type found.1, use.entry), s.register use.register), found.2) := by
  rw [entryResult]
  dsimp only [EntryRequest.step]
  rw [on_answering]

theorem askType_eq (huse : s.entries.get? name = some use)
    (himage : s.images[use.image]? = some image) (package unit : String) (filter : Image.Filter) :
    s.askType name package unit filter =
      .of .type ((use.entry.findType package unit filter).run.on s.files ⟨image, []⟩).1 := by
  rw [askType, Session.run, useEntry_eq huse himage, entryResult_findType]

/-- Other overlays for an entry change this entry alone. -/
theorem withOverlays_eq (huse : s.entries.get? name = some use)
    (himage : s.images[use.image]? = some image) (paths : List String) :
    (s.withOverlays name paths).files = s.files ∧
    (s.withOverlays name paths).images[use.image]? = some image ∧
    (s.withOverlays name paths).entries.get? name =
      some { use with entry := { use.entry with annotationPaths := paths } } := by
  obtain ⟨hfiles, himages, hentries⟩ := session_useEntry huse himage (.setOverlays paths)
  refine ⟨hfiles, himages, ?_⟩
  rw [withOverlays, Session.run, hentries, NameMap.get?_insert, if_pos rfl]
  rfl

/-- A search for a type is answered, or it ends the program. -/
theorem askType_of_answers (huse : s.entries.get? name = some use)
    (himage : s.images[use.image]? = some image) {package unit : String} {filter : Image.Filter}
    (hanswers : s.askType name package unit filter ≠ .panicked) :
    ∃ found?, ((use.entry.findType package unit filter).run.on s.files ⟨image, []⟩).1 =
      .ok found? := by
  rw [askType_eq huse himage] at hanswers
  cases houtcome : ((use.entry.findType package unit filter).run.on s.files ⟨image, []⟩).1 with
  | ok found? => exact ⟨found?, rfl⟩
  | error e =>
    have hend := Entry.failsAtEnd_findType use.entry package unit filter _ _ e houtcome
    rw [houtcome, Answer.of, Answer.ofError, if_pos hend] at hanswers
    exact absurd rfl hanswers

/-- What an entry would find without overlays. -/
def plainOutcome (s : Session) (use : EntryUse) (image : Image) (package unit : String)
    (filter : Image.Filter) : Except Image.Error (Option FoundType) :=
  ((({ use.entry with annotationPaths := [] } : Entry).findType package unit filter).run.on s.files
    ⟨image, []⟩).1

/-- With whichever overlays, an entry finds the same type, annotated by the first of these. -/
theorem askType_withOverlays (hs : History use.image overlays s)
    (husable : ∀ p, overlays p → Usable p) (huse : s.entries.get? name = some use)
    (himage : s.images[use.image]? = some image) (package unit : String) (filter : Image.Filter)
    {paths : List String} (hpaths : ∀ p ∈ paths, overlays p) :
    (s.withOverlays name paths).askType name package unit filter = .of .type
      (Entry.annotatedBy s.files (Entry.typePath unit) paths
        (s.plainOutcome use image package unit filter)) := by
  obtain ⟨hfiles, himage', hentry⟩ := withOverlays_eq huse himage paths
  rw [askType_eq hentry himage', hfiles, Entry.findType_eq husable use.entry hpaths
    (hs.current himage), plainOutcome]

end

/-! ## An archive with annotations -/

/-- A class that has its own name only. -/
def smallClass : Bytes :=
  [0xCA, 0xFE, 0xBA, 0xBE, 0, 0, 0, 52, 0, 3, 1, 0, 1, 65, 7, 0, 1, 0, 1, 0, 2, 0, 0, 0, 0, 0, 0,
    0, 0, 0, 0]

def smallType : ClassFile.BinaryType := ⟨"A", none, [], 1, 52, 0, [], [], none⟩

theorem parse_smallClass : ClassFile.BinaryType.parse smallClass = .ok smallType := by
  have hparse : (ClassFile.BinaryType.parse smallClass).toOption = some smallType := by
    decide +kernel
  cases h : ClassFile.BinaryType.parse smallClass with
  | error e =>
    rw [h] at hparse
    cases hparse
  | ok t =>
    rw [h] at hparse
    cases hparse
    rfl

/-- What is in the one module. -/
def withClass : List (String × Node) := [("a", .directory [("A.class", .file smallClass false)])]

/-- An archive that has annotations for the class. -/
def annotatedBytes : Bytes := Archive.ZipWriter.write [⟨"a/A.eea", [7]⟩]

/-- A file system with an image and an overlay. -/
def annotatedFiles : FileSystem :=
  let image := [("modules", Node.directory [("m", .directory withClass)])]
  ⟨.directory [("i", .directory image),
    ("o", .directory [("x.zip", .file annotatedBytes false)])], [], []⟩

/-- The path of the overlay. -/
def shortPath : String := "/o/x.zip"

/-- The same with more slashes, which may make it too long. -/
def stretched (n : Nat) : String := "/o" ++ "/" ++ (Path.slashes n ++ "x.zip")

theorem exploded_annotatedFiles : Image.Exploded annotatedFiles "/i" [("m", withClass)] := by
  have hroot : annotatedFiles.node? (Path.join "/" "i") = .ok (.directory _) :=
    FileSystem.node?_join (FileSystem.node?_root annotatedFiles) (by decide) rfl nofun (by decide)
  have hjoin : Path.join "/" "i" = "/i" := by decide
  rw [hjoin] at hroot
  refine ⟨Image.isDirectory_of_node? hroot,
    FileSystem.isDirectory_join_of_none hroot (by decide) rfl,
    _, FileSystem.node?_join hroot (by decide) rfl nofun (by decide), .refl _, ?_⟩
  simp only [withClass, Image.Module.fits.eq_def]
  decide

theorem node?_shortPath : annotatedFiles.node? shortPath = .ok (.file annotatedBytes false) := by
  have hfolder : annotatedFiles.node? (Path.join "/" "o") = .ok (.directory _) :=
    FileSystem.node?_join (FileSystem.node?_root annotatedFiles) (by decide) rfl nofun (by decide)
  have hjoin : Path.join (Path.join "/" "o") "x.zip" = shortPath := by decide
  rw [← hjoin]
  exact FileSystem.node?_join hfolder (by decide) rfl nofun (by decide)

/-- The archive is open under its path, and has the annotations. -/
theorem opens_shortPath : ∃ handle, Overlay.Handle.ofPath annotatedFiles shortPath = .ok handle ∧
    handle.path = shortPath ∧ handle.read annotatedFiles "a/A.eea" = .ok (some [7]) := by
  have hread : (Archive.Entry.directory annotatedBytes).toOption.bind
      (fun entries => Image.readBack annotatedBytes entries "a/A.eea") = some [7] := by
    decide +kernel
  obtain ⟨file, hopen, hheld⟩ := FileSystem.openFile_of_node? node?_shortPath
  cases hentries : Archive.Entry.directory annotatedBytes with
  | error e =>
    rw [hentries] at hread
    cases hread
  | ok entries =>
    rw [hentries] at hread
    rw [← hheld] at hread hentries
    exact ⟨⟨shortPath, ⟨file, entries⟩⟩, Overlay.ofPath_eq_ok.2 ⟨rfl, hopen, hentries⟩, rfl,
      Overlay.read_eq_ok_some.2 (Image.readBack_eq_some.1 hread)⟩

/-- The image opens, and has the class. -/
theorem opens_annotatedFiles : ∃ c, Image.Contents.ofRoot annotatedFiles "/i" = .ok ⟨c, []⟩ ∧
    (c.admitted (Image.Filter.admits .all)).any (fun m => m.2.hasPackage "a") = true ∧
    Image.firstUnit annotatedFiles "a/A.class" (c.admitted (Image.Filter.admits .all)) =
      .ok (some ⟨"m", smallClass⟩) := by
  have hplain : Image.Sources.Plain [("m", withClass)] :=
    ⟨by decide, by simp; decide, by simp [withClass, Image.plain]; decide⟩
  obtain ⟨c, path, hc, hmodules, hnode, hfits⟩ :=
    Image.ofRoot_single hplain exploded_annotatedFiles
  have hinside : Image.plain withClass := hplain.inside _ List.mem_cons_self
  have hlisting : Image.listing withClass = [("a", none), ("a/A.class", some smallClass)] := by
    simp [Image.listing, withClass]
  have hparent : Text.parentPath "a/A.class" = "a" := by decide
  have hfolder : (Image.Module.scan annotatedFiles path "" .root withClass).hasFolder "a" = true := by
    rw [Image.scan_eq hinside, hlisting]
    decide +kernel
  have hread : Image.Module.read annotatedFiles ⟨.directory path, Image.Module.scan annotatedFiles
      path "" .root withClass⟩ "a/A.class" = .ok (some smallClass) :=
    Image.read_of_mem_listing hnode hinside hfits _ (by rw [hlisting]; simp)
  have hadmitted : c.admitted (Image.Filter.admits .all) = [("m", ⟨.directory path,
      Image.Module.scan annotatedFiles path "" .root withClass⟩)] := by
    rw [Image.Contents.admitted, hmodules]
    rfl
  refine ⟨c, hc, ?_, ?_⟩
  · rw [hadmitted]
    simp [Image.Module.hasPackage, hfolder]
  · rw [hadmitted, Image.firstUnit, hparent, if_pos hfolder, hread]

/-- An entry with overlays, and nothing else. -/
def annotating (paths : List String) : Entry := ⟨false, ⟨[], ""⟩, none, paths⟩

/-- A session with the image, and an entry that has the overlay. -/
def annotated : Session :=
  let s := start annotatedFiles ⟨none, none, "/"⟩
  let s := (s.run (.newImage "i" "/i")).session
  (s.run (.newEntry "e" "i" (annotating [shortPath]) none)).session

/-- What opens at the root has the class, and an entry finds it with the annotations of its
    overlays. -/
structure HasClass (c : Image.Contents) : Prop where
  opens : Image.Contents.ofRoot annotatedFiles "/i" = .ok ⟨c, []⟩
  finds : ∀ (e : Entry) (u v : Image.Use), Image.openContents.run.on annotatedFiles u = (.ok c, v) →
    (e.findType "a" "a/A.class" .all).run.on annotatedFiles u =
      let attached := (Entry.attachOverlays "a/A" smallType e.annotationPaths).run.on annotatedFiles v
      (attached.1.map fun t => some ⟨t, e.rules.restriction? "a/A", "m"⟩, attached.2)

theorem exists_hasClass : ∃ c, HasClass c := by
  obtain ⟨c, hc, hhas, hunit⟩ := opens_annotatedFiles
  refine ⟨c, hc, fun e u v hopen => ?_⟩
  have hpackage : Image.packagePath "a" = "a" := by decide +kernel
  have hpath : Entry.typePath "a/A.class" = "a/A" := by decide
  rw [Entry.on_findType hopen, hpackage, if_neg (by decide), if_pos hhas, hunit]
  simp only [Entry.typeIn, parse_smallClass, hpath, Image.Query.on_bind_pure]

theorem isDirectory_shortPath : annotatedFiles.isDirectory shortPath = false := by
  rw [FileSystem.isDirectory, node?_shortPath]
  rfl

theorem lookUp_shortPath : ∃ handle, handle.path = shortPath ∧
    handle.read annotatedFiles "a/A.eea" = .ok (some [7]) ∧
    Overlay.lookUp annotatedFiles shortPath "a/A" none = (.ok (some [7]), some handle) := by
  obtain ⟨handle, hopen, hpath, hread⟩ := opens_shortPath
  have hname : "a/A" ++ Overlay.fileEnding = "a/A.eea" := by decide
  refine ⟨handle, hpath, hread, ?_⟩
  rw [Overlay.lookUp, isDirectory_shortPath, Overlay.handleFor, hopen, hname]
  simp only [Bool.false_eq_true, if_false, hread]

/-- Once the archive is open, it is used again for all paths with its components. -/
theorem lookUp_again {handle : Overlay.Handle} (hpath : handle.path = shortPath)
    (hread : handle.read annotatedFiles "a/A.eea" = .ok (some [7])) {path : String}
    (hsame : Path.same shortPath path = true) (hdir : annotatedFiles.isDirectory path = false) :
    Overlay.lookUp annotatedFiles path "a/A" (some handle) = (.ok (some [7]), some handle) := by
  have hname : "a/A" ++ Overlay.fileEnding = "a/A.eea" := by decide
  rw [Overlay.lookUp, hdir, Overlay.handleFor, hpath, if_pos hsame, hname]
  simp only [Bool.false_eq_true, if_false, hread]

/-- A path that leads nowhere. -/
def missingPath : String := "/o/y.zip"

theorem resolve_missingPath : annotatedFiles.resolve true missingPath = .error .notFound := by
  have hsegments : Text.segments missingPath = ["", "o", "y.zip"] := by decide
  rw [FileSystem.resolve_eq (by decide) (by decide) (by decide), hsegments,
    FileSystem.resolveFrom_same (.inl rfl),
    FileSystem.resolveFrom_directory (by decide) (by decide) rfl,
    FileSystem.resolveFrom_none (by decide) (by decide) rfl]
  rfl

theorem lookUp_missingPath {handle : Overlay.Handle} (hpath : handle.path = shortPath) :
    Overlay.lookUp annotatedFiles missingPath "a/A" (some handle) =
      (.error (.file .notFound), some handle) := by
  have hdir : annotatedFiles.isDirectory missingPath = false := by
    rw [FileSystem.isDirectory, FileSystem.node?, resolve_missingPath]
    rfl
  have hopen : Overlay.Handle.ofPath annotatedFiles missingPath = .error (.file .notFound) := by
    rw [Overlay.Handle.ofPath, FileSystem.openFile, resolve_missingPath]
    rfl
  have hother : Path.same shortPath missingPath = false := by decide
  rw [Overlay.lookUp, hdir, Overlay.handleFor, hpath, hother, hopen]
  rfl

theorem ended_stretched (n : Nat) : Path.Ended (stretched n) := by
  have hname : Ordinary "x.zip" := by decide
  rw [stretched, ← String.append_assoc]
  exact Path.ended_append _ hname

theorem same_stretched (n : Nat) : Path.same shortPath (stretched n) = true := by
  have habsolute : Path.isAbsolute (stretched n) = true := Image.isAbsolute_append (by decide) _
  have hnames : Path.names (stretched n) = ["o", "x.zip"] := by
    rw [stretched, Path.names_append, Path.names_slashes]
    decide
  have hcomponents : Path.components (stretched n) = "/" :: Path.names (stretched n) := by
    rw [Path.components, if_pos habsolute]
    rfl
  rw [Path.same, hcomponents, hnames]
  decide

section
variable {n : Nat} (hn : FileSystem.maxPathSize < n)
include hn

/-- No file is found under a path that is too long. -/
theorem node?_stretched (node : Node) : annotatedFiles.node? (stretched n) ≠ .ok node := by
  intro hnode
  obtain ⟨loc, hloc, -⟩ := FileSystem.node?_eq_ok.1 hnode
  have hsize := (FileSystem.of_resolve_eq_ok hloc).2.2
  rw [stretched, String.utf8ByteSize_append, String.utf8ByteSize_append (s := Path.slashes n),
    Path.utf8ByteSize_slashes] at hsize
  omega

theorem not_supplies_stretched (content : Bytes) :
    ¬Supplies annotatedFiles (stretched n) "a/A" content := by
  unfold Supplies FileSystem.isDirectory FileSystem.readFile
  cases hnode : annotatedFiles.node? (stretched n) with
  | ok node => exact absurd hnode (node?_stretched hn node)
  | error e =>
    rw [if_neg Bool.false_ne_true]
    rintro ⟨archive, entries, entry, hread, -⟩
    cases hread

theorem isDirectory_stretched : annotatedFiles.isDirectory (stretched n) = false := by
  rw [FileSystem.isDirectory]
  cases hnode : annotatedFiles.node? (stretched n) with
  | error e => rfl
  | ok node => exact absurd hnode (node?_stretched hn node)

end

/-- The entry in use. -/
def annotatedUse : EntryUse := ⟨annotating [shortPath], 0, none⟩

theorem entries_annotated : annotated.entries = NameMap.empty.insert "e" annotatedUse := rfl

theorem entry_annotated : annotated.entries.get? "e" = some annotatedUse := by
  rw [entries_annotated, NameMap.get?_insert, if_pos rfl]

theorem image_annotated : annotated.images[annotatedUse.image]? = some (.new "/i") := rfl

/-- The image opened, and the overlay looked into. -/
theorem on_findType_annotated : ∃ c handle, HasClass c ∧ handle.path = shortPath ∧
    handle.read annotatedFiles "a/A.eea" = .ok (some [7]) ∧
    (annotatedUse.entry.findType "a" "a/A.class" .all).run.on annotatedFiles ⟨.new "/i", []⟩ =
      (.ok (some ⟨{ smallType with annotations := some ⟨shortPath, "a/A", [7]⟩ }, none, "m"⟩),
        ⟨{ Image.new "/i" with contents := some c, overlay := some handle }, [.opened]⟩) := by
  obtain ⟨c, hclass⟩ := exists_hasClass
  obtain ⟨handle, hpath, hread, hlookUp⟩ := lookUp_shortPath
  have hopen : Image.openContents.run.on annotatedFiles ⟨.new "/i", []⟩ =
      (.ok c, ⟨{ Image.new "/i" with contents := some c }, [.opened]⟩) :=
    Image.on_openContents_new hclass.opens
  have hattach := @Entry.on_attachOverlays_cons annotatedFiles "a/A" smallType shortPath []
    ⟨{ Image.new "/i" with contents := some c }, [.opened]⟩
  simp only [Image.new] at hattach
  rw [hlookUp] at hattach
  refine ⟨c, handle, hclass, hpath, hread, ?_⟩
  rw [hclass.finds _ _ _ hopen]
  simp only [annotatedUse, annotating, Image.new] at hattach ⊢
  rw [hattach]
  rfl

theorem attaches_annotated {number : Nat} {p : String} (h : annotated.Attaches number p) :
    p = shortPath := by
  obtain ⟨name, use, huse, -, hp⟩ := h
  rw [entries_annotated, NameMap.get?_insert] at huse
  split at huse
  · cases huse
    exact List.mem_singleton.1 hp
  · cases huse

/-- Before it is asked for a type, there is nothing in the session but what was made. -/
theorem history_annotated {overlays : String → Prop} : History 0 overlays annotated := by
  have hstart : History 0 overlays (start annotatedFiles ⟨none, none, "/"⟩) := .start _ _
  have himage := hstart.run (.newImage "i" "/i")
    (fun p ⟨name, use, huse, _⟩ => nomatch huse) (fun _ _ => rfl) nofun
  exact himage.run (.newEntry "e" "i" (annotating [shortPath]) none)
    (fun p ⟨name, use, huse, _⟩ => nomatch huse) (fun _ _ => rfl) nofun

/-- The session after the class was found with the annotations of the overlay. -/
def askedOnce : Session := (annotated.run (.useEntry "e" (.findType "a" "a/A.class" .all))).session

/-- The archive is open then. -/
theorem askedOnce_eq : ∃ c handle, HasClass c ∧ handle.path = shortPath ∧
    handle.read annotatedFiles "a/A.eea" = .ok (some [7]) ∧ askedOnce.files = annotatedFiles ∧
    askedOnce.entries = annotated.entries.insert "e" annotatedUse ∧
    askedOnce.images[annotatedUse.image]? =
      some { Image.new "/i" with contents := some c, overlay := some handle } := by
  obtain ⟨c, handle, hclass, hpath, hread, hfound⟩ := on_findType_annotated
  obtain ⟨hfiles, himage, hentries⟩ :=
    session_useEntry entry_annotated image_annotated (.findType "a" "a/A.class" .all)
  rw [entryResult_findType] at himage hentries
  have hfiles' : annotated.files = annotatedFiles := rfl
  rw [hfiles', hfound] at himage
  exact ⟨c, handle, hclass, hpath, hread, hfiles, hentries, himage⟩

theorem entry_askedOnce : askedOnce.entries.get? "e" = some annotatedUse := by
  obtain ⟨c, handle, -, -, -, -, hentries, -⟩ := askedOnce_eq
  rw [hentries, NameMap.get?_insert, if_pos rfl]

theorem history_askedOnce {overlays : String → Prop} (hshort : overlays shortPath) :
    History 0 overlays askedOnce ∧ ∀ p, askedOnce.Attaches 0 p → overlays p := by
  obtain ⟨c, handle, -, -, -, hfiles, hentries, -⟩ := askedOnce_eq
  refine ⟨history_annotated.run (.useEntry "e" (.findType "a" "a/A.class" .all))
    (fun p hp => attaches_annotated hp ▸ hshort)
    (fun p _ => congrArg (FileSystem.readFile · p) hfiles) nofun, ?_⟩
  rintro p ⟨name, use, huse, himage, hp⟩
  rw [hentries, NameMap.get?_insert] at huse
  split at huse
  · cases huse
    rw [List.mem_singleton.1 hp]
    exact hshort
  · exact attaches_annotated ⟨name, use, huse, himage, hp⟩ ▸ hshort

/-- The entry is asked again with other overlays, after the archive was opened. -/
theorem askType_again {paths : List String} {handle : Overlay.Handle} {c : Image.Contents}
    (hclass : HasClass c) (hfiles : askedOnce.files = annotatedFiles)
    (himage : askedOnce.images[annotatedUse.image]? =
      some { Image.new "/i" with contents := some c, overlay := some handle }) :
    (askedOnce.withOverlays "e" paths).askType "e" "a" "a/A.class" .all = .of .type
      (((Entry.attachOverlays "a/A" smallType paths).run.on annotatedFiles
        ⟨{ Image.new "/i" with contents := some c, overlay := some handle }, []⟩).1.map
          fun t => some ⟨t, none, "m"⟩) := by
  obtain ⟨hfiles', himage', hentry⟩ := withOverlays_eq entry_askedOnce himage paths
  have hopen : ∀ u : Image.Use, u.image.contents = some c →
      Image.openContents.run.on annotatedFiles u = (.ok c, u) :=
    fun u hc => Image.on_openContents_of_some hc
  rw [askType_eq hentry himage', hfiles', hfiles, hclass.finds _ _ _ (hopen _ rfl)]
  rfl

/-- The session after the entry got a second overlay, before the one that is open. -/
def secondOverlay : Session := askedOnce.withOverlays "e" [missingPath, shortPath]

/-- The first overlay is passed over then, and the second one used again. -/
theorem askType_secondOverlay : secondOverlay.askType "e" "a" "a/A.class" .all = .type (some
    ⟨{ smallType with annotations := some ⟨shortPath, "a/A", [7]⟩ }, none, "m"⟩) := by
  obtain ⟨c, handle, hclass, hpath, hread, hfiles, -, himage⟩ := askedOnce_eq
  have hself : Path.same shortPath shortPath = true := by decide
  rw [secondOverlay, askType_again hclass hfiles himage]
  simp only [Entry.on_attachOverlays_cons, lookUp_missingPath hpath,
    lookUp_again hpath hread hself isDirectory_shortPath]
  rfl

/-- Once the archive is open, the class has its annotations under any stretched path. -/
theorem askType_stretched {n : Nat} (hn : FileSystem.maxPathSize < n) :
    (askedOnce.withOverlays "e" [stretched n]).askType "e" "a" "a/A.class" .all = .type (some
      ⟨{ smallType with annotations := some ⟨stretched n, "a/A", [7]⟩ }, none, "m"⟩) := by
  obtain ⟨c, handle, hclass, hpath, hread, hfiles, -, himage⟩ := askedOnce_eq
  rw [askType_again hclass hfiles himage]
  simp only [Entry.on_attachOverlays_cons,
    lookUp_again hpath hread (same_stretched n) (isDirectory_stretched hn)]
  rfl

end Session

end PlatformImage
