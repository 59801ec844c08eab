import PlatformImage.Proofs.ClassFile.Parse
import PlatformImage.Proofs.Moves
import PlatformImage.Proofs.OpenFiles
import PlatformImage.Proofs.SamePath
/-! Which overlay a type gets its annotations from: the first that has a file for it
(`attachOverlays_eq`), as if each overlay were opened afresh.

A lookup goes one of four ways (`Way`). An archive that stays open in a slot is used again for
every path with the same components. So it has to be as what that path leads to (`Current`), which
each lookup keeps, if it is for a path that ends in a name and is not too long. -/
namespace PlatformImage

namespace Overlay

/-- A path that leads to the same place as all others with the same components. -/
structure Usable (path : String) : Prop where
  ended : Path.Ended path
  short : path.utf8ByteSize ≤ FileSystem.maxPathSize

/-- What an overlay has for a type if nothing is open. -/
def lookUpAfresh (fs : FileSystem) (overlay typeName : String) : Except Error (Option Bytes) :=
  (lookUp fs overlay typeName none).1

/-- An overlay has a file for a type: a directory has it under a path, an archive as an
    entry. -/
def Supplies (fs : FileSystem) (overlay typeName : String) (content : Bytes) : Prop :=
  if fs.isDirectory overlay then
    fs.readFile (Path.join overlay (typeName ++ fileEnding)) = .ok content
  else
    ∃ archive entries entry, fs.readFile overlay = .ok archive ∧
      Archive.Entry.directory archive = .ok entries ∧
      Archive.Entry.named? entries (typeName ++ fileEnding) = some entry ∧
      entry.content archive = .ok content

/-- The annotations that an overlay has for a type, opened afresh. -/
def supplied? (fs : FileSystem) (typeName overlay : String) :
    Option ClassFile.ExternalAnnotations :=
  match lookUpAfresh fs overlay typeName with
  | .ok (some content) => some ⟨overlay, typeName, content⟩
  | _ => none

/-- The annotations that the first of some overlays has for a type. -/
def firstSupplied (fs : FileSystem) (typeName : String) (overlays : List String) :
    Option ClassFile.ExternalAnnotations :=
  overlays.findSome? (supplied? fs typeName)

/-- The same, if no overlay before that ends the program. -/
def supplied (fs : FileSystem) (typeName : String) :
    List String → Except Image.Error (Option ClassFile.ExternalAnnotations)
  | [] => .ok none
  | overlay :: rest =>
    match lookUpAfresh fs overlay typeName with
    | .ok (some content) => .ok (some ⟨overlay, typeName, content⟩)
    | .ok none => supplied fs typeName rest
    | .error e =>
      if e = .fatal then .error (.fatal overlay) else supplied fs typeName rest

/-- An open archive is as what a path leads to: the file there holds the same, and has the same
    entries. -/
structure Handle.IsAt (fs : FileSystem) (path : String) (h : Handle) : Prop where
  read : fs.readFile path = .ok (fs.held h.zip.file)
  entries : Archive.Entry.directory (fs.held h.zip.file) = .ok h.zip.entries

/-- The archive in a slot is as what its path leads to, and the path is one of those given. -/
def Current (fs : FileSystem) (overlays : String → Prop) (slot : Option Handle) : Prop :=
  ∀ h, slot = some h → overlays h.path ∧ fs.IsOpen h.zip.file ∧ h.IsAt fs h.path

/-- What a lookup may do: the answer it gives, and the slot it leaves. -/
inductive Way (fs : FileSystem) (overlay name : String) (slot : Option Handle) :
    Except Error (Option Bytes) × Option Handle → Prop
  | directory (hdir : fs.isDirectory overlay = true) :
    Way fs overlay name slot (readDirectory fs overlay name, slot)
  | reused {h : Handle} (hdir : fs.isDirectory overlay = false) (hslot : slot = some h)
    (hsame : Path.same h.path overlay = true) : Way fs overlay name slot (h.read fs name, slot)
  | opened {h : Handle} (hdir : fs.isDirectory overlay = false)
    (hother : ∀ known, slot = some known → Path.same known.path overlay = false)
    (hopen : Handle.ofPath fs overlay = .ok h) : Way fs overlay name slot (h.read fs name, some h)
  | failed {e : Error} (hdir : fs.isDirectory overlay = false)
    (hother : ∀ known, slot = some known → Path.same known.path overlay = false)
    (hopen : Handle.ofPath fs overlay = .error e) : Way fs overlay name slot (.error e, slot)

section
variable {fs fs' : FileSystem} {overlays : String → Prop} {slot : Option Handle} {handle : Handle}
  {overlay path typeName : String} {content : Bytes}

/-! ## One overlay -/

theorem ofPath_eq_ok : Handle.ofPath fs path = .ok handle ↔ handle.path = path ∧
    fs.openFile path = .ok handle.zip.file ∧
      Archive.Entry.directory (fs.held handle.zip.file) = .ok handle.zip.entries := by
  obtain ⟨name, zip⟩ := handle
  unfold Handle.ofPath
  cases hopen : fs.openFile path with
  | error e => simp [bind, Except.bind, Except.mapError]
  | ok file =>
    cases hzip : Archive.Zip.ofFile fs file with
    | error e =>
      constructor
      · intro h
        simp only [bind, Except.bind, Except.mapError, hzip] at h
        cases h
      · rintro ⟨-, hfile, hentries⟩
        cases hfile
        rw [Archive.Zip.ofFile, hentries] at hzip
        cases hzip
    | ok found =>
      obtain ⟨rfl, hentries⟩ := Archive.Zip.ofFile_eq_ok.1 hzip
      simp only [bind, Except.bind, Except.mapError, hzip]
      constructor
      · intro h
        cases h
        exact ⟨rfl, rfl, hentries⟩
      · rintro ⟨rfl, hfile, hentries'⟩
        obtain ⟨file, entries⟩ := zip
        cases hfile
        cases hentries.symm.trans hentries'
        rfl

/-- An archive is opened as what its path leads to. -/
theorem isAt_of_ofPath (hopen : Handle.ofPath fs path = .ok handle) : handle.IsAt fs path := by
  obtain ⟨-, hfile, hentries⟩ := ofPath_eq_ok.1 hopen
  exact ⟨FileSystem.readFile_eq_ok.2 ⟨_, hfile, rfl⟩, hentries⟩

/-- What is as what a path leads to is read as if it were opened there now. -/
theorem exists_ofPath (h : handle.IsAt fs path) : ∃ now, Handle.ofPath fs path = .ok now ∧
    ∀ name, now.read fs name = handle.read fs name := by
  obtain ⟨file, hopen, hheld⟩ := FileSystem.readFile_eq_ok.1 h.read
  refine ⟨⟨path, ⟨file, handle.zip.entries⟩⟩, ofPath_eq_ok.2 ⟨rfl, hopen, ?_⟩, fun name => ?_⟩
  · rw [hheld, h.entries]
  · have hnow : Archive.Zip.Matches fs handle.zip fs ⟨file, handle.zip.entries⟩ := ⟨rfl, hheld⟩
    exact congrArg (·.mapError Error.ofEntry) (hnow.read name)

theorem read_eq_ok_some {name : String} :
    handle.read fs name = .ok (some content) ↔ ∃ entry,
      Archive.Entry.named? handle.zip.entries name = some entry ∧
        entry.content (fs.held handle.zip.file) = .ok content := by
  unfold Handle.read Archive.Zip.read
  cases Archive.Entry.named? handle.zip.entries name with
  | none => simp [Except.mapError]
  | some entry =>
    cases hcontent : entry.content (fs.held handle.zip.file) <;>
      simp [hcontent, Except.map, Except.mapError]

/-- What is read from a directory is read from a regular file. -/
theorem readDirectory_eq_ok_some {name : String} :
    readDirectory fs overlay name = .ok (some content) ↔
      fs.readFile (Path.join overlay name) = .ok content := by
  unfold readDirectory FileSystem.isFile FileSystem.readFile
  dsimp only
  cases fs.node? (Path.join overlay name) with
  | error e => simp
  | ok n => cases n <;> simp [Node.isFile, Except.mapError]

theorem lookUpAfresh_eq (fs : FileSystem) (overlay typeName : String) :
    lookUpAfresh fs overlay typeName =
      if fs.isDirectory overlay then readDirectory fs overlay (typeName ++ fileEnding)
      else (Handle.ofPath fs overlay).bind fun h => h.read fs (typeName ++ fileEnding) := by
  unfold lookUpAfresh lookUp handleFor
  split
  · rfl
  · cases Handle.ofPath fs overlay <;> rfl

theorem supplies_iff :
    Supplies fs overlay typeName content ↔
      lookUpAfresh fs overlay typeName = .ok (some content) := by
  rw [lookUpAfresh_eq, Supplies]
  split
  · exact readDirectory_eq_ok_some.symm
  · cases hopen : Handle.ofPath fs overlay with
    | error e =>
      refine ⟨?_, nofun⟩
      rintro ⟨archive, entries, -, hread, hentries, -⟩
      obtain ⟨file, hfile, rfl⟩ := FileSystem.readFile_eq_ok.1 hread
      have hok : Handle.ofPath fs overlay = .ok ⟨overlay, ⟨file, entries⟩⟩ :=
        ofPath_eq_ok.2 ⟨rfl, hfile, hentries⟩
      cases hopen.symm.trans hok
    | ok h =>
      obtain ⟨-, hfile, hentries⟩ := ofPath_eq_ok.1 hopen
      have hread : fs.readFile overlay = .ok (fs.held h.zip.file) :=
        FileSystem.readFile_eq_ok.2 ⟨_, hfile, rfl⟩
      rw [hread, Except.bind, read_eq_ok_some]
      constructor
      · rintro ⟨archive, entries, entry, harchive, hentries', hentry, hcontent⟩
        obtain rfl : fs.held h.zip.file = archive := Except.ok.inj harchive
        obtain rfl : h.zip.entries = entries := Except.ok.inj (hentries.symm.trans hentries')
        exact ⟨entry, hentry, hcontent⟩
      · rintro ⟨entry, hentry, hcontent⟩
        exact ⟨_, _, entry, rfl, hentries, hentry, hcontent⟩

/-! ## One lookup -/

theorem handleFor_of_other
    (hother : ∀ known, slot = some known → Path.same known.path overlay = false) :
    handleFor fs overlay slot = Handle.ofPath fs overlay := by
  cases slot with
  | none => rfl
  | some known => rw [handleFor, hother known rfl, if_neg Bool.false_ne_true]

theorem way_lookUp (fs : FileSystem) (overlay typeName : String) (slot : Option Handle) :
    Way fs overlay (typeName ++ fileEnding) slot (lookUp fs overlay typeName slot) := by
  unfold lookUp
  cases hdir : fs.isDirectory overlay with
  | true => exact .directory hdir
  | false =>
    by_cases hknown : ∃ known, slot = some known ∧ Path.same known.path overlay = true
    · obtain ⟨known, rfl, hsame⟩ := hknown
      simp only [handleFor, hsame, if_true, Bool.false_eq_true, if_false]
      exact .reused hdir rfl hsame
    · have hother : ∀ known, slot = some known → Path.same known.path overlay = false := by
        intro known hslot
        rw [← Bool.not_eq_true]
        intro hsame
        exact hknown ⟨known, hslot, hsame⟩
      rw [handleFor_of_other hother]
      cases hopen : Handle.ofPath fs overlay with
      | error e => exact .failed hdir hother hopen
      | ok h => exact .opened hdir hother hopen

/-- The slot is what it was, or the archive of the overlay, opened by the lookup. -/
theorem Way.slot_eq {name : String} {r : Except Error (Option Bytes) × Option Handle}
    (hway : Way fs overlay name slot r) :
    r.2 = slot ∨ ∃ h, r.2 = some h ∧ Handle.ofPath fs overlay = .ok h := by
  cases hway with
  | directory => exact .inl rfl
  | reused => exact .inl rfl
  | opened _ _ hopen => exact .inr ⟨_, rfl, hopen⟩
  | failed => exact .inl rfl

/-- An overlay is looked into as if nothing were open, if an archive that is used again is as the
    one that would be opened. -/
theorem lookUp_eq_afresh (hreuse : ∀ known, slot = some known →
      Path.same known.path overlay = true → known.IsAt fs overlay) (typeName : String) :
    (lookUp fs overlay typeName slot).1 = lookUpAfresh fs overlay typeName := by
  have hway := way_lookUp fs overlay typeName slot
  rw [lookUpAfresh_eq]
  generalize lookUp fs overlay typeName slot = r at hway
  cases hway with
  | directory hdir => rw [if_pos hdir]
  | reused hdir hslot hsame =>
    obtain ⟨now, hopen, hnow⟩ := exists_ofPath (hreuse _ hslot hsame)
    rw [hdir, hopen]
    exact (hnow _).symm
  | opened hdir hother hopen =>
    rw [hdir, hopen]
    rfl
  | failed hdir hother hopen =>
    rw [hdir, hopen]
    rfl

/-! ## The slot -/

/-- What can be read is a file. -/
theorem node?_of_readFile (hread : fs.readFile path = .ok content) :
    ∃ executable, fs.node? path = .ok (.file content executable) := by
  unfold FileSystem.readFile at hread
  cases hnode : fs.node? path with
  | error e =>
    rw [hnode] at hread
    cases hread
  | ok n =>
    rw [hnode] at hread
    cases n with
    | file bytes executable =>
      cases hread
      exact ⟨executable, rfl⟩
    | directory entries => cases hread
    | link target => cases hread

/-- An archive is just so under every path with the same components that leads somewhere. -/
theorem Handle.IsAt.of_same {n : Node} (h : handle.IsAt fs path)
    (hsame : Path.same path overlay = true) (hnode : fs.node? overlay = .ok n) :
    handle.IsAt fs overlay := by
  obtain ⟨executable, hfile⟩ := node?_of_readFile h.read
  obtain rfl := FileSystem.node?_eq_of_same hsame hfile hnode
  exact ⟨by rw [FileSystem.readFile, hnode], h.entries⟩

theorem Current.empty : Current fs overlays none := nofun

/-- With a current slot, an overlay is looked into as if nothing were open. -/
theorem lookUp_eq (hslot : Current fs overlays slot) (husable : ∀ p, overlays p → Usable p)
    (hoverlay : overlays overlay) (typeName : String) :
    (lookUp fs overlay typeName slot).1 = lookUpAfresh fs overlay typeName := by
  apply lookUp_eq_afresh
  intro known hknown hsame
  obtain ⟨hgiven, -, hat⟩ := hslot known hknown
  obtain ⟨executable, hfile⟩ := node?_of_readFile hat.read
  have hnode : fs.node? known.path = fs.node? overlay :=
    FileSystem.node?_same hsame (husable _ hgiven).ended (husable _ hoverlay).ended
      (husable _ hgiven).short (husable _ hoverlay).short
  exact hat.of_same hsame (hnode.symm.trans hfile)

/-- After a lookup the slot is current if it was before. -/
theorem Current.lookUp (hslot : Current fs overlays slot) (hoverlay : overlays overlay)
    (typeName : String) : Current fs overlays (lookUp fs overlay typeName slot).2 := by
  intro h hopened
  rcases (way_lookUp fs overlay typeName slot).slot_eq with hkept | ⟨known, hnew, hopen⟩
  · exact hslot h (hkept.symm.trans hopened)
  · rw [hnew] at hopened
    cases hopened
    obtain ⟨hpath, hfile, -⟩ := ofPath_eq_ok.1 hopen
    rw [hpath]
    exact ⟨hoverlay, .of_openFile hfile, isAt_of_ofPath hopen⟩

/-- A slot stays current while the files of the overlays stay as they are, and so does what the open
    one holds. -/
theorem Current.files (hslot : Current fs overlays slot)
    (hfiles : ∀ p, overlays p → fs'.readFile p = fs.readFile p)
    (hheld : ∀ h, slot = some h → fs.IsOpen h.zip.file →
      fs'.IsOpen h.zip.file ∧ fs'.held h.zip.file = fs.held h.zip.file) :
    Current fs' overlays slot := by
  intro handle hhandle
  obtain ⟨hgiven, hfile, hat⟩ := hslot handle hhandle
  obtain ⟨hfile', hsame⟩ := hheld handle hhandle hfile
  refine ⟨hgiven, hfile', ?_, ?_⟩
  · rw [hfiles _ hgiven, hat.read, hsame]
  · rw [hsame, hat.entries]

end

end Overlay

namespace Image

variable {fs : FileSystem} {overlays : String → Prop} {mayClose : Prop} {u v : Use}

/-- Whatever a step does to an image, it keeps a current slot so. -/
theorem Move.current (hmove : Move fs overlays mayClose u v)
    (hslot : Overlay.Current fs overlays u.image.overlay) :
    Overlay.Current fs overlays v.image.overlay := by
  cases hmove with
  | note => exact hslot
  | canonical => exact hslot
  | normalized => exact hslot
  | report => exact hslot
  | opening => exact hslot
  | overlay path typeName hpath => exact hslot.lookUp hpath typeName
  | close => exact .empty

theorem Moves.current (hmoves : Moves fs overlays mayClose u v)
    (hslot : Overlay.Current fs overlays u.image.overlay) :
    Overlay.Current fs overlays v.image.overlay := by
  induction hmoves with
  | refl => exact hslot
  | tail _ hmove ih => exact hmove.current ih

end Image

/-! ## All overlays of an entry -/

namespace Overlay

section
variable {fs : FileSystem} {typeName overlay : String} {overlays : List String}
  {a : ClassFile.ExternalAnnotations}

theorem supplied?_eq_some : supplied? fs typeName overlay = some a ↔
    a.source = overlay ∧ a.typeName = typeName ∧ Supplies fs overlay typeName a.content := by
  obtain ⟨source, name, content⟩ := a
  rw [supplies_iff, supplied?]
  cases lookUpAfresh fs overlay typeName with
  | error e => simp
  | ok content? => cases content? <;> simp [eq_comm]

theorem supplied?_eq_none :
    supplied? fs typeName overlay = none ↔ ∀ content, ¬Supplies fs overlay typeName content := by
  simp only [supplies_iff]
  rw [supplied?]
  cases lookUpAfresh fs overlay typeName with
  | error e => simp
  | ok content? => cases content? <;> simp

theorem firstSupplied_eq_some : firstSupplied fs typeName overlays = some a ↔
    a.typeName = typeName ∧ ∃ before after, overlays = before ++ a.source :: after ∧
      Supplies fs a.source typeName a.content ∧
      ∀ p ∈ before, ∀ content, ¬Supplies fs p typeName content := by
  simp only [firstSupplied, List.findSome?_eq_some_iff, supplied?_eq_some, supplied?_eq_none]
  constructor
  · rintro ⟨before, overlay, after, hsplit, ⟨rfl, hname, hsupplies⟩, hbefore⟩
    exact ⟨hname, before, after, hsplit, hsupplies, hbefore⟩
  · rintro ⟨hname, before, after, hsplit, hsupplies, hbefore⟩
    exact ⟨before, a.source, after, hsplit, ⟨rfl, hname, hsupplies⟩, hbefore⟩

theorem firstSupplied_eq_none : firstSupplied fs typeName overlays = none ↔
    ∀ p ∈ overlays, ∀ content, ¬Supplies fs p typeName content := by
  simp only [firstSupplied, List.findSome?_eq_none_iff, supplied?_eq_none]

/-- Whether an overlay can be looked into, opened afresh. -/
def works (fs : FileSystem) (typeName overlay : String) : Bool :=
  (lookUpAfresh fs overlay typeName).isOk

/-- Where the program does not end, the first overlay counts that has annotations. -/
theorem supplied_eq_ok {found : Option ClassFile.ExternalAnnotations}
    (h : supplied fs typeName overlays = .ok found) : firstSupplied fs typeName overlays = found := by
  induction overlays with
  | nil => exact Except.ok.inj h
  | cons p rest ih =>
    rw [supplied] at h
    rw [firstSupplied, List.findSome?_cons, supplied?]
    split at h
    · next hlookUp =>
      rw [hlookUp]
      exact Except.ok.inj h
    · next hlookUp =>
      rw [hlookUp]
      exact ih h
    · next hlookUp =>
      rw [hlookUp]
      split at h
      · cases h
      · exact ih h

/-- Overlays that cannot be looked into may be left out. -/
theorem supplied_filter {found : Option ClassFile.ExternalAnnotations}
    (h : supplied fs typeName overlays = .ok found) :
    supplied fs typeName (overlays.filter (works fs typeName)) = .ok found := by
  induction overlays with
  | nil => exact h
  | cons p rest ih =>
    rw [supplied] at h
    split at h
    · next hlookUp =>
      rw [List.filter_cons_of_pos (by rw [works, hlookUp]; rfl), supplied, hlookUp]
      exact h
    · next hlookUp =>
      rw [List.filter_cons_of_pos (by rw [works, hlookUp]; rfl), supplied, hlookUp]
      exact ih h
    · next hlookUp =>
      rw [List.filter_cons_of_neg (by rw [works, hlookUp]; exact Bool.false_ne_true)]
      split at h
      · cases h
      · exact ih h

end

end Overlay

namespace Entry

open Image (Query)
open Overlay (Usable Current supplied)

section
variable {fs : FileSystem} {overlays : String → Prop}

/-- A type found, with other annotations. -/
def FoundType.annotated (a : FoundType) (annotations : Option ClassFile.ExternalAnnotations) :
    FoundType :=
  { a with type := { a.type with annotations := annotations } }

/-- What is found where overlays are looked into: what is found without, with the annotations of the
    first that has some, unless an overlay before it ends the program. -/
def annotatedBy (fs : FileSystem) (typePath : String) (paths : List String) :
    Except Image.Error (Option FoundType) → Except Image.Error (Option FoundType)
  | .ok (some a) =>
    (supplied fs typePath paths).map fun annotations => some (a.annotated annotations)
  | outcome => outcome

/-- From a current slot, a type gets the annotations of the first overlay that has some, unless an
    overlay before it ends the program. -/
theorem attachOverlays_eq (husable : ∀ p, overlays p → Usable p) (typePath : String)
    {t : ClassFile.BinaryType} (ht : t.annotations = none) {paths : List String}
    (hpaths : ∀ p ∈ paths, overlays p) {u : Image.Use} (hslot : Current fs overlays u.image.overlay) :
    ((attachOverlays typePath t paths).run.on fs u).1 =
      (supplied fs typePath paths).map fun a => { t with annotations := a } := by
  induction paths generalizing u with
  | nil =>
    rw [supplied, Except.map, ← ht]
    rfl
  | cons overlay rest ih =>
    have hoverlay := hpaths overlay List.mem_cons_self
    have hafter := hslot.lookUp hoverlay typePath
    have hlookUp := Overlay.lookUp_eq hslot husable hoverlay typePath
    have ih := @ih fun p hp => hpaths p (List.mem_cons_of_mem overlay hp)
    rw [on_attachOverlays_cons, supplied, ← hlookUp]
    rcases hresult : Overlay.lookUp fs overlay typePath u.image.overlay with ⟨outcome, slot⟩
    rw [hresult] at hafter
    cases outcome with
    | error e =>
      dsimp only
      split
      · rfl
      · exact ih hafter
    | ok content? =>
      cases content? with
      | none => exact ih hafter
      | some content => rfl

theorem annotations_of_parse {content : Bytes} {t : ClassFile.BinaryType}
    (h : ClassFile.BinaryType.parse content = .ok t) : t.annotations = none := by
  unfold ClassFile.BinaryType.parse at h
  cases hrun : ClassFile.Reader.binaryType.run content with
  | error e =>
    rw [hrun] at h
    cases h
  | ok read =>
    rw [hrun] at h
    cases h
    obtain ⟨v, -, hv⟩ := (ClassFile.Reader.reads_binaryType content read.1 read.2).1 hrun
    exact hv.annotations

/-- **What a type found is annotated with.** From a current slot a type is found just as
    without overlays, and gets the annotations of the first overlay that has some, unless an
    overlay before it ends the program. -/
theorem findType_eq (husable : ∀ p, overlays p → Usable p) (e : Entry) {paths : List String}
    (hpaths : ∀ p ∈ paths, overlays p) {u : Image.Use}
    (hslot : Current fs overlays u.image.overlay) (package unit : String) (filter : Image.Filter) :
    ((({ e with annotationPaths := paths } : Entry).findType package unit filter).run.on fs u).1 =
      annotatedBy fs (typePath unit) paths
        ((({ e with annotationPaths := [] } : Entry).findType package unit filter).run.on
          fs u).1 := by
  have hrule := @Image.Step.Moves.openingRule fs overlays False
  unfold findType
  rw [Query.on_bind_of_ok fs u _ (Query.on_lift fs u _),
    Query.on_bind_of_ok fs u _ (Query.on_lift fs u _)]
  have hpackage : Current fs overlays ((isPackage package filter).on fs u).2.image.overlay :=
    (hrule.entryPackage package filter u).current hslot
  rcases hfound : (isPackage package filter).on fs u with ⟨found, v⟩
  rw [hfound] at hpackage
  cases found with
  | false => rfl
  | true =>
    simp only [Bool.not_true, Bool.false_eq_true, if_false]
    have hread : Current fs overlays ((readUnit? unit filter).run.on fs v).2.image.overlay :=
      (hrule.entryUnit unit filter v).current hpackage
    rcases hunit : (readUnit? unit filter).run.on fs v with ⟨outcome, w⟩
    rw [hunit] at hread
    cases outcome with
    | error why =>
      rw [Query.on_bind_of_error fs v _ hunit, Query.on_bind_of_error fs v _ hunit]
      rfl
    | ok unit? =>
      rw [Query.on_bind_of_ok fs v _ hunit, Query.on_bind_of_ok fs v _ hunit]
      cases unit? with
      | none => rfl
      | some found =>
        cases hparse : ClassFile.BinaryType.parse found.content with
        | error e => simp only [hparse]; rfl
        | ok t =>
          have ht := annotations_of_parse hparse
          simp only [hparse, Query.on_bind_pure]
          rw [attachOverlays_eq husable _ ht hpaths hread,
            attachOverlays_eq husable _ ht (fun p hp => absurd hp List.not_mem_nil) hread]
          simp only [supplied, Except.map, annotatedBy]
          cases supplied fs (typePath unit) paths <;> rfl

end

end Entry

end PlatformImage
