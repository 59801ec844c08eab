import PlatformImage.Proofs.OverlayHistory
/-! Attaching annotations call after call, with one slot for an open archive.

What a call may change is read off the ways a lookup can go (`Way`): the type gets annotations
or stays as it is, the slot gets the archive that was opened or stays as it is (`Framed`). So an
archive stays in the slot through calls that open nothing, and answers the next call for its
path, from the file that was opened (`attach_keeps`).

While the files of the overlays stay as they are, the slot makes no difference to an answer,
but for a path that leads nowhere and has the components of the path of the open archive
(`attach_transparent_iff`). -/
namespace PlatformImage.Overlay

open ClassFile (BinaryType)

/-! ## Calls that share a type and a slot -/

/-- A call: the files that there are then, the overlay, and the name of the type in it. -/
structure Call where
  files : FileSystem
  overlay : String
  typeName : String

/-- What calls share. -/
structure Shared where
  type : BinaryType
  slot : Option Handle

/-- A type with annotations. -/
def annotate (t : BinaryType) (overlay typeName : String) (content : Bytes) : BinaryType :=
  { t with annotations := some ⟨overlay, typeName, content⟩ }

/-- What an answer does to a type: annotations that are found are attached. -/
def Shared.answered (s : Shared) (overlay typeName : String) :
    Except Error (Option Bytes) → Except Error Bool × Shared
  | .ok (some content) => (.ok true, { s with type := annotate s.type overlay typeName content })
  | .ok none => (.ok false, s)
  | .error e => (.error e, s)

namespace Call

/-- The attachment that a call asks for. -/
def attach (c : Call) (t : BinaryType) (slot : Option Handle) :
    Except Error (Option BinaryType) × Option Handle :=
  attach? c.files c.overlay c.typeName slot t

/-- One call: whether annotations were attached, and the type and the slot afterwards. -/
def run (c : Call) (s : Shared) : Except Error Bool × Shared :=
  let (outcome, slot) := c.attach s.type s.slot
  let type := match outcome with
    | .ok (some t) => t
    | _ => s.type
  (outcome.map (·.isSome), ⟨type, slot⟩)

/-- The overlay is a directory, or an archive that cannot be opened. -/
def OpensNothing (c : Call) : Prop :=
  c.files.isDirectory c.overlay = true ∨ ∃ e, Handle.ofPath c.files c.overlay = .error e

end Call

/-- What there is after some calls. -/
def Shared.after (s : Shared) (calls : List Call) : Shared :=
  calls.foldl (fun s c => (c.run s).2) s

/-- What a call may do to what it shares with others. -/
structure Framed (c : Call) (before : Shared) (result : Except Error Bool) (after : Shared) :
    Prop where
  unattached : result ≠ .ok true → after.type = before.type
  attached : result = .ok true →
    ∃ content, after.type = annotate before.type c.overlay c.typeName content
  slot : after.slot = before.slot ∨ ∃ h, after.slot = some h ∧ h.path = c.overlay ∧
    Handle.ofPath c.files c.overlay = .ok h
  filled : before.slot.isSome = true → after.slot.isSome = true
  kept : c.OpensNothing → after.slot = before.slot

section
variable {c : Call} {s : Shared} {calls : List Call} {h : Handle}

/-- A call is a lookup, and what its answer does to the type. -/
theorem run_eq (c : Call) (s : Shared) :
    c.run s = ({ s with slot := (lookUp c.files c.overlay c.typeName s.slot).2 } : Shared).answered
      c.overlay c.typeName (lookUp c.files c.overlay c.typeName s.slot).1 := by
  unfold Call.run Call.attach attach?
  rcases lookUp c.files c.overlay c.typeName s.slot with ⟨outcome, slot⟩
  cases outcome with
  | error e => rfl
  | ok content? => cases content? <;> rfl

theorem slot_answered (overlay typeName : String) (answer : Except Error (Option Bytes)) :
    (s.answered overlay typeName answer).2.slot = s.slot := by
  cases answer with
  | error e => rfl
  | ok content? => cases content? <;> rfl

theorem slot_run (c : Call) (s : Shared) :
    (c.run s).2.slot = (lookUp c.files c.overlay c.typeName s.slot).2 := by
  rw [run_eq, slot_answered]

/-- A lookup that opens nothing leaves the slot as it is. -/
theorem Way.slot_of_opensNothing {slot : Option Handle} {name : String}
    {r : Except Error (Option Bytes) × Option Handle} (hway : Way c.files c.overlay name slot r)
    (hnothing : c.OpensNothing) : r.2 = slot := by
  cases hway with
  | directory => rfl
  | reused => rfl
  | failed => rfl
  | opened hdir hother hopen =>
    rcases hnothing with htrue | ⟨e, hfailed⟩
    · rw [hdir] at htrue
      cases htrue
    · rw [hopen] at hfailed
      cases hfailed

/-- **What one call does.** -/
theorem framed_run (c : Call) (s : Shared) : Framed c s (c.run s).1 (c.run s).2 := by
  have hway := way_lookUp c.files c.overlay c.typeName s.slot
  have hslot : (c.run s).2.slot = s.slot ∨ ∃ h, (c.run s).2.slot = some h ∧ h.path = c.overlay ∧
      Handle.ofPath c.files c.overlay = .ok h := by
    rw [slot_run]
    apply hway.slot_eq.imp_right
    rintro ⟨h, hslot, hopen⟩
    exact ⟨h, hslot, (ofPath_eq_ok.1 hopen).1, hopen⟩
  constructor
  case slot => exact hslot
  case filled =>
    intro hfilled
    rcases hslot with hsame | ⟨h, hnew, -⟩
    · rw [hsame]
      exact hfilled
    · rw [hnew]
      rfl
  case kept =>
    intro hnothing
    rw [slot_run]
    exact hway.slot_of_opensNothing hnothing
  case unattached =>
    rw [run_eq]
    cases (lookUp c.files c.overlay c.typeName s.slot).1 with
    | error e => simp [Shared.answered]
    | ok content? => cases content? <;> simp [Shared.answered]
  case attached =>
    rw [run_eq]
    cases (lookUp c.files c.overlay c.typeName s.slot).1 with
    | error e => simp [Shared.answered]
    | ok content? => cases content? <;> simp [Shared.answered]

/-- The archive in the slot answers a call for its path. -/
theorem run_of_same (hslot : s.slot = some h) (hsame : Path.same h.path c.overlay = true)
    (hdir : c.files.isDirectory c.overlay = false) :
    c.run s = s.answered c.overlay c.typeName (h.read c.files (c.typeName ++ fileEnding)) := by
  have hlookUp : lookUp c.files c.overlay c.typeName s.slot =
      (h.read c.files (c.typeName ++ fileEnding), s.slot) := by
    rw [lookUp, hdir, hslot, handleFor, if_pos hsame]
    rfl
  rw [run_eq, hlookUp]

/-! ## Call after call -/

/-- A type keeps all but its annotations. -/
theorem type_after (s : Shared) (calls : List Call) :
    (s.after calls).type = { s.type with annotations := (s.after calls).type.annotations } := by
  induction calls generalizing s with
  | nil => rfl
  | cons c calls ih =>
    have hrun : (c.run s).2.type =
        { s.type with annotations := (c.run s).2.type.annotations } := by
      have hframed := framed_run c s
      by_cases hattached : (c.run s).1 = .ok true
      · obtain ⟨content, htype⟩ := hframed.attached hattached
        rw [htype]
        rfl
      · rw [hframed.unattached hattached]
    have hrest := ih (c.run s).2
    rw [hrun] at hrest
    exact hrest

/-- The slot is what it was, or an archive that one of the calls opened for its overlay. -/
theorem slot_after (s : Shared) (calls : List Call) : (s.after calls).slot = s.slot ∨
    ∃ c ∈ calls, ∃ h, (s.after calls).slot = some h ∧ h.path = c.overlay ∧
      Handle.ofPath c.files c.overlay = .ok h := by
  induction calls generalizing s with
  | nil => exact .inl rfl
  | cons c calls ih =>
    rcases ih (c.run s).2 with hlater | ⟨d, hd, hlater⟩
    · rcases (framed_run c s).slot with hsame | hopened
      · exact .inl (hlater.trans hsame)
      · right
        refine ⟨c, List.mem_cons_self, ?_⟩
        change ∃ h, ((c.run s).2.after calls).slot = some h ∧ _
        rw [hlater]
        exact hopened
    · exact .inr ⟨d, List.mem_cons_of_mem c hd, hlater⟩

theorem filled_after (hfilled : s.slot.isSome = true) (calls : List Call) :
    (s.after calls).slot.isSome = true := by
  induction calls generalizing s with
  | nil => exact hfilled
  | cons c calls ih => exact ih ((framed_run c s).filled hfilled)

theorem kept_after (hnothing : ∀ c ∈ calls, c.OpensNothing) : (s.after calls).slot = s.slot := by
  induction calls generalizing s with
  | nil => rfl
  | cons c calls ih =>
    have hrest : ((c.run s).2.after calls).slot = (c.run s).2.slot :=
      ih fun d hd => hnothing d (List.mem_cons_of_mem c hd)
    exact hrest.trans ((framed_run c s).kept (hnothing c List.mem_cons_self))

/-- An open archive is read as before, whatever happens to its file but that it is written into. -/
theorem read_of_keeps {fs fs' : FileSystem} (hfile : fs.IsOpen h.zip.file) (hkeeps : fs.Keeps fs')
    (name : String) : h.read fs' name = h.read fs name := by
  have hmatches : Archive.Zip.Matches fs h.zip fs' h.zip := ⟨rfl, (hkeeps _ hfile).2⟩
  rw [Handle.read, hmatches.read, Handle.read]

/-- **A call that fails leaves everything usable.** Whatever the files are from call to call,
    each call keeps to its frame (`Framed`), so that a type loses nothing but its annotations,
    and these to others only, and a slot once filled is not emptied. An archive in the slot stays
    there through calls that open nothing, and then answers the call for its path, whatever
    stands there now, if that is no directory. It answers from the file that was opened: as it was
    then, if that was removed or replaced since, but not written into. -/
theorem attach_keeps (s : Shared) (calls : List Call) :
    (s.after calls).type = { s.type with annotations := (s.after calls).type.annotations } ∧
    ((s.after calls).slot = s.slot ∨ ∃ c ∈ calls, ∃ h, (s.after calls).slot = some h ∧
      h.path = c.overlay ∧ Handle.ofPath c.files c.overlay = .ok h) ∧
    (s.slot.isSome = true → (s.after calls).slot.isSome = true) ∧
    (∀ c : Call, Framed c (s.after calls) (c.run (s.after calls)).1 (c.run (s.after calls)).2) ∧
    ∀ h, (s.after calls).slot = some h → ∀ more : List Call, (∀ c ∈ more, c.OpensNothing) →
      ∀ next : Call, Path.same h.path next.overlay = true →
        next.files.isDirectory next.overlay = false →
        next.run ((s.after calls).after more) = ((s.after calls).after more).answered next.overlay
          next.typeName (h.read next.files (next.typeName ++ fileEnding)) ∧
        ∀ fs : FileSystem, fs.IsOpen h.zip.file → fs.Keeps next.files →
          h.read next.files (next.typeName ++ fileEnding) =
            h.read fs (next.typeName ++ fileEnding) := by
  refine ⟨type_after s calls, slot_after s calls, fun hfilled => filled_after hfilled calls,
    fun c => framed_run c _, fun h hslot more hnothing next hsame hdir => ⟨?_, ?_⟩⟩
  · have hkept : ((s.after calls).after more).slot = some h := (kept_after hnothing).trans hslot
    exact run_of_same hkept hsame hdir
  · exact fun fs hfile hkeeps => read_of_keeps hfile hkeeps _

end

/-! ## With and without an open archive -/

/-- What is in a slot, empty at first, after calls for types. -/
def slotAfter (calls : List (Call × BinaryType)) : Option Handle :=
  calls.foldl (fun slot c => (c.1.attach c.2 slot).2) none

/-- A call is answered from an archive in the slot although its path leads nowhere, since it has
    the components of the path of the archive. -/
def Call.Mistaken (c : Call) (slot : Option Handle) : Prop :=
  (∃ h, slot = some h ∧ Path.same h.path c.overlay = true) ∧
    ∀ n, c.files.node? c.overlay ≠ .ok n

/-- What a path leads to is read as it was before, and so is the file that could be opened there
    then. -/
structure Unchanged (fs fs' : FileSystem) (path : String) : Prop where
  read : fs'.readFile path = fs.readFile path
  held : ∀ file, fs.openFile path = .ok file → fs'.held file = fs.held file

section
variable {c : Call} {calls : List (Call × BinaryType)} {slot : Option Handle} {h : Handle}
  {fs fs' : FileSystem} {overlay name : String}

/-- Which types the calls are for is not seen in the slot. -/
theorem foldl_attach_eq (calls : List (Call × BinaryType)) (s : Shared) :
    calls.foldl (fun slot c => (c.1.attach c.2 slot).2) s.slot =
      (s.after (calls.map (·.1))).slot := by
  induction calls generalizing s with
  | nil => rfl
  | cons c calls ih =>
    have hstep : (c.1.attach c.2 s.slot).2 = (c.1.run s).2.slot := (slot_run c.1 s).symm
    rw [List.foldl_cons, hstep, ih]
    rfl

/-- What is in the slot was opened by one of the calls. -/
theorem opened_of_slotAfter (hslot : slotAfter calls = some h) :
    ∃ c ∈ calls, h.path = c.1.overlay ∧ Handle.ofPath c.1.files c.1.overlay = .ok h := by
  -- Any type will do to look at the slot alone.
  have hafter := foldl_attach_eq calls ⟨Session.smallType, none⟩
  have horigin := slot_after ⟨Session.smallType, none⟩ (calls.map (·.1))
  rw [← hafter] at horigin
  rcases horigin with hnone | ⟨c, hc, known, hknown, hpath, hopen⟩
  · rw [slotAfter, hnone] at hslot
    cases hslot
  · obtain ⟨d, hd, rfl⟩ := List.mem_map.1 hc
    rw [slotAfter, hknown] at hslot
    cases hslot
    exact ⟨d, hd, hpath, hopen⟩

/-- What an archive answers is no error of a file. -/
theorem read_ne_file (fs : FileSystem) (h : Handle) (name : String) (cause : FileError) :
    h.read fs name ≠ .error (.file cause) := by
  unfold Handle.read
  cases h.zip.read fs name with
  | ok found => nofun
  | error e => cases e <;> nofun

theorem ofPath_of_nowhere {cause : FileError} (h : fs.node? overlay = .error cause) :
    Handle.ofPath fs overlay = .error (.file cause) := by
  have hread : fs.readFile overlay = .error cause := by rw [FileSystem.readFile, h]
  rw [FileSystem.readFile_eq] at hread
  cases hopen : fs.openFile overlay with
  | ok file =>
    rw [hopen] at hread
    cases hread
  | error e =>
    rw [hopen] at hread
    cases hread
    rw [Handle.ofPath, hopen]
    rfl

/-- An overlay that is nowhere is looked into in vain. -/
theorem lookUpAfresh_of_nowhere (h : ∀ n, fs.node? overlay ≠ .ok n) (typeName : String) :
    fs.isDirectory overlay = false ∧
      ∃ cause, lookUpAfresh fs overlay typeName = .error (.file cause) := by
  cases hnode : fs.node? overlay with
  | ok n => exact absurd hnode (h n)
  | error cause =>
    have hdir : fs.isDirectory overlay = false := by rw [FileSystem.isDirectory, hnode]
    refine ⟨hdir, cause, ?_⟩
    rw [lookUpAfresh_eq, hdir, ofPath_of_nowhere hnode]
    rfl

/-- An archive that was opened is as what its path leads to, if nothing has changed there. -/
theorem Unchanged.isAt (h : Unchanged fs fs' overlay) {handle : Handle}
    (hopen : Handle.ofPath fs overlay = .ok handle) : handle.IsAt fs' overlay := by
  obtain ⟨-, hfile, hentries⟩ := ofPath_eq_ok.1 hopen
  have hheld := h.held _ hfile
  refine ⟨?_, by rw [hheld, hentries]⟩
  rw [h.read, (isAt_of_ofPath hopen).read, hheld]

/-- A lookup that is not mistaken finds what it finds with nothing open. -/
theorem lookUp_of_not_mistaken (hslot : ∀ h, slot = some h → h.IsAt c.files h.path)
    (hright : ¬c.Mistaken slot) : (lookUp c.files c.overlay c.typeName slot).1 =
      lookUpAfresh c.files c.overlay c.typeName := by
  apply lookUp_eq_afresh
  intro h hopened hsame
  cases hnode : c.files.node? c.overlay with
  | error e => exact absurd ⟨⟨h, hopened, hsame⟩, fun n hn => by simp [hnode] at hn⟩ hright
  | ok n => exact (hslot h hopened).of_same hsame hnode

/-- An archive opened afresh answers as it does when it is open. -/
theorem lookUpAfresh_of_isAt (hat : h.IsAt fs h.path) (typeName : String) :
    lookUpAfresh fs h.path typeName = h.read fs (typeName ++ fileEnding) := by
  obtain ⟨executable, hfile⟩ := node?_of_readFile hat.read
  have hdir : fs.isDirectory h.path = false := by
    rw [FileSystem.isDirectory, hfile]
    rfl
  obtain ⟨now, hopen, hread⟩ := exists_ofPath hat
  rw [lookUpAfresh_eq, hdir, hopen]
  exact hread _

theorem attach_eq (c : Call) (t : BinaryType) (slot : Option Handle) : (c.attach t slot).1 =
    (lookUp c.files c.overlay c.typeName slot).1.map fun content? =>
      content?.map (annotate t c.overlay c.typeName) :=
  rfl

/-- A call that is mistaken finds what there is under the path of the archive. -/
theorem attach_of_mistaken (hslot : ∀ h, slot = some h → h.IsAt c.files h.path)
    (hmistaken : c.Mistaken slot) (t : BinaryType) :
    (∃ cause, (c.attach t none).1 = .error (.file cause)) ∧
    ∃ h, slot = some h ∧ Path.same h.path c.overlay = true ∧
      (c.attach t slot).1 = (lookUpAfresh c.files h.path c.typeName).map fun content? =>
        content?.map (annotate t c.overlay c.typeName) := by
  obtain ⟨⟨h, hopened, hsame⟩, hnowhere⟩ := hmistaken
  obtain ⟨hdir, cause, hfresh⟩ := lookUpAfresh_of_nowhere hnowhere c.typeName
  refine ⟨⟨cause, ?_⟩, h, hopened, hsame, ?_⟩
  · change (lookUpAfresh c.files c.overlay c.typeName).map _ = _
    rw [hfresh]
    rfl
  · rw [attach_eq, hopened, lookUp, hdir, handleFor, if_pos hsame,
      lookUpAfresh_of_isAt (hslot h hopened)]
    rfl

/-- **An open archive is seen in no answer but that to a path which leads nowhere.** While the
    overlays of the calls before are what they were then, an attachment is what it is with an
    empty slot, just if it is not mistaken; and it is not, if its overlay is a directory, or has
    a path that ends in a name and is short enough. One that is mistaken finds what there is
    under the path of the archive, where with an empty slot there is no file. -/
theorem attach_transparent_iff (before : List (Call × BinaryType)) (c : Call) (t : BinaryType)
    (hfiles : ∀ d ∈ before, Unchanged d.1.files c.files d.1.overlay) :
    ((c.attach t (slotAfter before)).1 = (c.attach t none).1 ↔ ¬c.Mistaken (slotAfter before)) ∧
    (Usable c.overlay ∨ c.files.isDirectory c.overlay = true → ¬c.Mistaken (slotAfter before)) ∧
    (c.Mistaken (slotAfter before) →
      (∃ cause, (c.attach t none).1 = .error (.file cause)) ∧
      ∃ h, slotAfter before = some h ∧ Path.same h.path c.overlay = true ∧
        (c.attach t (slotAfter before)).1 = (lookUpAfresh c.files h.path c.typeName).map fun
          content? => content?.map (annotate t c.overlay c.typeName)) := by
  have hslot : ∀ h, slotAfter before = some h → h.IsAt c.files h.path := by
    intro h hopened
    obtain ⟨d, hd, hpath, hopen⟩ := opened_of_slotAfter hopened
    rw [hpath]
    exact (hfiles d hd).isAt hopen
  refine ⟨⟨fun heq hmistaken => ?_, fun hright => ?_⟩, fun husable hmistaken => ?_,
    fun hmistaken => attach_of_mistaken hslot hmistaken t⟩
  · -- The archive does not answer that there is no file.
    obtain ⟨⟨cause, hfresh⟩, h, hopened, -, hhere⟩ := attach_of_mistaken hslot hmistaken t
    rw [heq, hfresh, lookUpAfresh_of_isAt (hslot h hopened)] at hhere
    cases hanswer : h.read c.files (c.typeName ++ fileEnding) with
    | ok content? =>
      rw [hanswer] at hhere
      cases hhere
    | error e =>
      rw [hanswer] at hhere
      cases hhere
      exact read_ne_file c.files h _ cause hanswer
  · rw [attach_eq, attach_eq, lookUp_of_not_mistaken hslot hright]
    rfl
  · obtain ⟨⟨h, hopened, hsame⟩, hnowhere⟩ := hmistaken
    rcases husable with husable | hdir
    · obtain ⟨executable, hfile⟩ := node?_of_readFile (hslot h hopened).read
      exact hnowhere _ (FileSystem.node?_of_same hsame hfile husable.ended husable.short)
    · rw [(lookUpAfresh_of_nowhere hnowhere c.typeName).1] at hdir
      cases hdir

end

/-! ## An archive that is called for under several paths -/

open Session (annotatedFiles shortPath smallType stretched)

/-- A call for the archive with annotations, under a path. -/
def callFor (path : String) : Call := ⟨annotatedFiles, path, "a/A"⟩

/-- Called for under its path, the archive is opened and has the annotations. -/
theorem lookUp_callFor : ∃ h, h.path = shortPath ∧ h.read annotatedFiles "a/A.eea" = .ok (some [7]) ∧
    ∀ t, (callFor shortPath).attach t none =
      (.ok (some (annotate t shortPath "a/A" [7])), some h) := by
  obtain ⟨h, hpath, hread, hlookUp⟩ := Session.lookUp_shortPath
  refine ⟨h, hpath, hread, fun t => ?_⟩
  unfold Call.attach attach? callFor
  rw [hlookUp]
  rfl

/-- What is in the slot then. -/
def reopened : Option Handle := slotAfter [(callFor shortPath, smallType)]

theorem reopened_eq : ∃ h, reopened = some h ∧ h.path = shortPath ∧
    h.IsAt annotatedFiles h.path ∧ h.read annotatedFiles "a/A.eea" = .ok (some [7]) := by
  obtain ⟨h, hpath, hread, hattach⟩ := lookUp_callFor
  have hslot : reopened = some h := congrArg Prod.snd (hattach smallType)
  obtain ⟨d, hd, -, hopen⟩ := opened_of_slotAfter hslot
  obtain rfl := List.mem_singleton.1 hd
  exact ⟨h, hslot, hpath, by rw [hpath]; exact isAt_of_ofPath hopen, hread⟩

/-- The archive in the slot answers as the one that is opened afresh. -/
theorem attach_transparent_reopened :
    (∀ d ∈ [(callFor shortPath, smallType)],
      Unchanged d.1.files (callFor shortPath).files d.1.overlay) ∧
    reopened ≠ none ∧ Usable shortPath ∧
    ((callFor shortPath).attach smallType reopened).1 =
      .ok (some (annotate smallType shortPath "a/A" [7])) := by
  have husable : Usable shortPath := ⟨by decide, by decide⟩
  have hfiles : ∀ d ∈ [(callFor shortPath, smallType)],
      Unchanged d.1.files (callFor shortPath).files d.1.overlay := by
    intro d hd
    obtain rfl := List.mem_singleton.1 hd
    exact ⟨rfl, fun _ _ => rfl⟩
  obtain ⟨heq, hright, -⟩ := attach_transparent_iff _ (callFor shortPath) smallType hfiles
  obtain ⟨h, hslot, -⟩ := reopened_eq
  obtain ⟨known, -, -, hattach⟩ := lookUp_callFor
  refine ⟨hfiles, by rw [hslot]; nofun, husable, ?_⟩
  have hsame := heq.2 (hright (.inl husable))
  rw [hattach] at hsame
  exact hsame

/-- With a slash behind it the path leads nowhere. -/
theorem node?_behindSlash : annotatedFiles.node? "/o/x.zip/" = .error .notADirectory := by
  have hsegments : Text.segments "/o/x.zip/" = ["", "o", "x.zip", ""] := by decide
  have hresolve : annotatedFiles.resolve true "/o/x.zip/" = .error .notADirectory := by
    rw [FileSystem.resolve_eq (by decide) (by decide) (by decide), hsegments,
      FileSystem.resolveFrom_same (.inl rfl),
      FileSystem.resolveFrom_directory (by decide) (by decide) rfl,
      FileSystem.resolveFrom_file (by decide) (by decide) rfl]
    rfl
  rw [FileSystem.node?, hresolve]
  rfl

/-- A path with the components of that of the archive, which leads nowhere. -/
theorem attach_nowhere {path : String} (hsame : Path.same shortPath path = true)
    (hnowhere : ∀ n, annotatedFiles.node? path ≠ .ok n) :
    (∃ cause, ((callFor path).attach smallType none).1 = .error (.file cause)) ∧
    ((callFor path).attach smallType reopened).1 =
      .ok (some (annotate smallType path "a/A" [7])) := by
  obtain ⟨h, hslot, hpath, hat, hread⟩ := reopened_eq
  have hopened : ∀ known, reopened = some known → known.IsAt (callFor path).files known.path := by
    intro known hknown
    rw [hslot] at hknown
    cases hknown
    exact hat
  obtain ⟨hfresh, known, hknown, -, hhere⟩ := attach_of_mistaken hopened
    ⟨⟨h, hslot, by rw [hpath]; exact hsame⟩, hnowhere⟩ smallType
  obtain rfl : h = known := Option.some.inj (hslot.symm.trans hknown)
  have hfound : lookUpAfresh annotatedFiles h.path "a/A" = .ok (some [7]) := by
    have hname : "a/A" ++ fileEnding = "a/A.eea" := by decide
    rw [lookUpAfresh_of_isAt hat, hname, hread]
  refine ⟨hfresh, hhere.trans ?_⟩
  change (lookUpAfresh annotatedFiles h.path "a/A").map _ = _
  rw [hfound]
  rfl

/-- **Paths that lead nowhere are answered from an open archive.** One has a slash behind the
    path of the archive, the other so many within it that it is too long. With an empty slot there
    is no file under them; once the archive was opened under its path, a type gets its
    annotations. -/
theorem attach_mistaken :
    ((∃ cause, ((callFor "/o/x.zip/").attach smallType none).1 = .error (.file cause)) ∧
      ((callFor "/o/x.zip/").attach smallType reopened).1 =
        .ok (some (annotate smallType "/o/x.zip/" "a/A" [7]))) ∧
    Path.Ended (stretched 4096) ∧
    (∃ cause, ((callFor (stretched 4096)).attach smallType none).1 = .error (.file cause)) ∧
      ((callFor (stretched 4096)).attach smallType reopened).1 =
        .ok (some (annotate smallType (stretched 4096) "a/A" [7])) := by
  have hslash : ∀ n, annotatedFiles.node? "/o/x.zip/" ≠ .ok n := by
    intro n hn
    rw [node?_behindSlash] at hn
    cases hn
  exact ⟨attach_nowhere (by decide) hslash, Session.ended_stretched 4096,
    attach_nowhere (Session.same_stretched 4096) (Session.node?_stretched (by decide))⟩

/-! ## An archive that is removed while it is open -/

/-- The files without the archive, when that has gone. -/
def emptied : FileSystem :=
  let image := [("modules", Node.directory [("m", .directory Session.withClass)])]
  ⟨.directory [("i", .directory image), ("o", .directory [])], [],
    [(["o", "x.zip"], Session.annotatedBytes)]⟩

theorem remove_shortPath : annotatedFiles.remove? shortPath = some emptied := by
  have hresolve : annotatedFiles.resolve false shortPath = .ok (["o"] ++ ["x.zip"]) := by
    have hsegments : Text.segments shortPath = ["", "o", "x.zip"] := by decide
    rw [FileSystem.resolve_eq (by decide) (by decide) (by decide), hsegments,
      FileSystem.resolveFrom_same (.inl rfl),
      FileSystem.resolveFrom_directory (by decide) (by decide) rfl,
      FileSystem.resolveFrom_file (by decide) (by decide) rfl]
    rfl
  have hfiles : annotatedFiles.root.filesAt ["o"] "x.zip" = emptied.gone := by
    have hnode : annotatedFiles.root.at? (["o"] ++ ["x.zip"]) =
        some (.file Session.annotatedBytes false) := rfl
    rw [Node.filesAt, hnode]
    simp only [Option.toList_some, List.map_cons, List.map_nil, Node.filesIn]
    rfl
  rw [FileSystem.remove?_of_resolve hresolve, hfiles]
  rfl

theorem node?_emptied {path : String} (name : String)
    (hsegments : Text.segments path = ["", "o", name]) (hname : Ordinary name) (n : Node) :
    emptied.node? path ≠ .ok n := by
  intro hn
  obtain ⟨loc, hloc, -⟩ := FileSystem.node?_eq_ok.1 hn
  obtain ⟨hnul, hne, hsize⟩ := FileSystem.of_resolve_eq_ok hloc
  have hstart : emptied.startOf path = [] := by
    unfold FileSystem.startOf
    split <;> rfl
  have hsame : ¬(name = "" ∨ name = ".") := not_or.2 ⟨hname.ne_empty, hname.ne_here⟩
  rw [FileSystem.resolve_eq hnul hne hsize, hsegments, hstart,
    FileSystem.resolveFrom_same (.inl rfl),
    FileSystem.resolveFrom_directory (by decide) (by decide) rfl,
    FileSystem.resolveFrom_none hsame hname.ne_above rfl] at hloc
  cases hloc

/-- A call for another archive, which is not there, and one for the archive that was removed. -/
def callOther : Call := ⟨emptied, "/o/y.zip", "a/A"⟩
def callAgain : Call := ⟨emptied, shortPath, "a/A"⟩

/-- Another archive is asked for in vain. -/
theorem opensNothing_callOther : callOther.OpensNothing := by
  have hnowhere : ∀ n, emptied.node? "/o/y.zip" ≠ .ok n :=
    node?_emptied "y.zip" (by decide) (by decide)
  cases hnode : emptied.node? "/o/y.zip" with
  | ok n => exact absurd hnode (hnowhere n)
  | error cause =>
    apply Or.inr
    refine ⟨.file cause, ?_⟩
    change Handle.ofPath emptied "/o/y.zip" = _
    exact ofPath_of_nowhere hnode

/-- What the call for the archive leaves: a type with annotations, and the archive in the slot. -/
theorem after_callFor : ∃ h, h.path = shortPath ∧ annotatedFiles.IsOpen h.zip.file ∧
    h.read annotatedFiles "a/A.eea" = .ok (some [7]) ∧
    Shared.after ⟨smallType, none⟩ [callFor shortPath] =
      ⟨annotate smallType shortPath "a/A" [7], some h⟩ := by
  obtain ⟨h, hpath, hread, hattach⟩ := lookUp_callFor
  have hslot : reopened = some h := congrArg Prod.snd (hattach smallType)
  obtain ⟨d, hd, -, hopen⟩ := opened_of_slotAfter hslot
  obtain rfl := List.mem_singleton.1 hd
  refine ⟨h, hpath, .of_openFile (ofPath_eq_ok.1 hopen).2.1, hread, ?_⟩
  change ((callFor shortPath).run ⟨smallType, none⟩).2 = _
  rw [Call.run, hattach]

/-- After a call that fails, the archive still answers, though it is not there any more. -/
theorem attach_keeps_removed : annotatedFiles.remove? shortPath = some emptied ∧
    callOther.OpensNothing ∧ (∀ n, emptied.node? shortPath ≠ .ok n) ∧
    (callAgain.run ((Shared.after ⟨smallType, none⟩ [callFor shortPath]).after [callOther])).1 =
      .ok true := by
  have hremoved : ∀ n, emptied.node? shortPath ≠ .ok n :=
    node?_emptied "x.zip" (by decide) (by decide)
  obtain ⟨h, hpath, hfile, hread, hafter⟩ := after_callFor
  obtain ⟨-, -, -, -, hanswers⟩ := attach_keeps ⟨smallType, none⟩ [callFor shortPath]
  have hother : ∀ c ∈ [callOther], c.OpensNothing := by
    intro c hc
    obtain rfl := List.mem_singleton.1 hc
    exact opensNothing_callOther
  have hsame : Path.same h.path callAgain.overlay = true := by
    rw [hpath]
    decide
  obtain ⟨hagain, hkept⟩ := hanswers h (by rw [hafter]) [callOther] hother callAgain hsame
    (lookUpAfresh_of_nowhere hremoved "a/A").1
  have hname : callAgain.typeName ++ fileEnding = "a/A.eea" := by decide
  have hthen := hkept annotatedFiles hfile (FileSystem.keeps_remove remove_shortPath)
  refine ⟨remove_shortPath, opensNothing_callOther, hremoved, ?_⟩
  rw [hagain, hthen, hname, hread]
  rfl

end PlatformImage.Overlay
