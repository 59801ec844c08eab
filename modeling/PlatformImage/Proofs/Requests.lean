import PlatformImage.Proofs.Moves
import PlatformImage.Proofs.OpenFiles
import PlatformImage.Session.Run
/-! What a request does to a session (`change_run`): to the image that it uses some of what a
step may do, with overlays of the image's own entries, and nothing to the others (`moves_run`).
Only closing an image, or resetting an entry that owns it, may close it (`Closes`). Of the files
all stay that are held open, and only writing into one changes what it holds (`keeps_run`). -/
namespace PlatformImage

/-! ## What holds of all uses holds of all requests -/

namespace Image.UseRule

open Session (ImageRequest EntryRequest ShownSnapshot)

variable {overlays : String → Prop} {P : ∀ {α : Type}, Step α → Prop} (h : UseRule overlays P)
include h

theorem answerQuery {α : Type} (f : α → Session.Answer) {q : Query α} (hq : P q.run) :
    P (Session.answerQuery f q) := by
  exact h.bind hq fun _ => h.pure _

theorem recorder (recorder : Recorder) (e : Event) (lines : List String) :
    P ((recorder.visit e).run.run lines) := by
  have hget (s : List String) : P ((get : Visit (List String) _).run.run s) :=
    h.pure ((Except.ok s : Except Error (List String)), s)
  unfold Recorder.visit
  cases recorder.records e with
  | false => exact h.visit.pure _ lines
  | true =>
    refine h.visit.bind hget (fun known => ?_) lines
    cases recorder.failsAfter known.length with
    | true => exact fun s => h.pure ((Except.error Recorder.failure : Except Error Answer), s)
    | false =>
      exact fun s => h.pure ((Except.ok (recorder.answer e) : Except Error Answer), s ++ [e.line])

/-- A use of an image. -/
theorem imageRequest (request : ImageRequest) (hclose : request = .close → P Image.close) :
    P request.step := by
  cases request with
  | close => exact h.bind (hclose rfl) fun _ => h.pure _
  | paths =>
    exact h.bind h.canonical fun _ => h.bind h.normalized fun _ => h.bind h.image fun _ => h.pure _
  | layout => exact h.answerQuery _ h.layout
  | moduleNames => exact h.answerQuery _ h.moduleNames
  | isPackage package filter => exact h.answerQuery _ (h.isPackage package filter)
  | readUnit name filter => exact h.answerQuery _ (h.readUnit name filter)
  | readModuleUnit owner path => exact h.answerQuery _ (h.readModuleUnit owner path)
  | scan => exact h.answerQuery _ h.scan
  | walk mode recorder => exact h.bind (h.walkFrom (h.recorder recorder) [] mode) fun _ => h.pure _

/-- A use of an entry, which has its own overlays. -/
theorem entryRequest (e : Entry) (he : ∀ p ∈ e.annotationPaths, overlays p)
    (show? : Registry.Snapshot → ShownSnapshot) (request : EntryRequest)
    (hreset : request = .reset → P e.reset) (r : Registry) : P ((request.step e show?).run r) := by
  have hm := h.modules
  cases request with
  | prepare => exact hm.bind (h.loadModules false) (fun _ => hm.pure _) r
  | reset => exact hm.bind (h.lifted (hreset rfl)) (fun _ => hm.pure _) r
  | setOverlays paths => exact hm.pure _ r
  | load => exact hm.bind (h.loadModules false) (fun _ => hm.pure _) r
  | reload => exact hm.bind (h.loadModules true) (fun _ => hm.pure _) r
  | snapshot => exact hm.bind h.snapshot? (fun _ => hm.pure _) r
  | serves names => exact hm.bind (hm.mapM h.servesModule) (fun _ => hm.pure _) r
  | getModule name => exact hm.bind (h.getModule name) (fun _ => hm.pure _) r
  | isPackage package filter =>
    exact hm.bind (h.lifted (h.entryPackage package filter)) (fun _ => hm.pure _) r
  | findType package unit filter =>
    exact hm.bind (h.lifted (h.type e package unit filter he)) (fun _ => hm.pure _) r
  | findTypeNames package filter =>
    exact hm.bind (h.lifted (h.findTypeNames package filter)) (fun _ => hm.pure _) r
  | lookUp module package unit =>
    exact hm.bind (h.scope module) (fun scope =>
      hm.bind (h.lifted (h.scopePackage scope package)) fun _ =>
        hm.bind (h.lifted (h.scopeType scope e he package unit)) fun _ => hm.pure _) r
  | info =>
    exact hm.bind (h.lifted h.canonical) (fun _ => hm.bind (h.lifted h.normalized) fun _ =>
      hm.bind (h.lifted h.image) fun _ => hm.pure _) r

end Image.UseRule

namespace Session

open Image (Step Query Use Moves)

variable {s : Session} {number : Nat} {image : Image}

/-! ## Uses of entries and images -/

/-- An entry of the image of a number has an overlay. -/
def Attaches (s : Session) (number : Nat) (path : String) : Prop :=
  ∃ name use, s.entries.get? name = some use ∧ use.image = number ∧ path ∈ use.entry.annotationPaths

/-- What the step of a use of an entry answers, and what it makes of the entry, of its
    register and of the image. -/
def entryResult (s : Session) (use : EntryUse) (image : Image) (request : EntryRequest) :
    ((Answer × Entry) × Registry) × Image.Use :=
  Step.on ((request.step use.entry fun snapshot => ⟨snapshot, use.register.isSome⟩).run
    (s.register use.register)) s.files ⟨image, []⟩

/-- What a use of an entry answers and leaves. -/
theorem useEntry_eq {name : String} {use : EntryUse} {before : Image}
    (huse : s.entries.get? name = some use) (hbefore : s.images[use.image]? = some before)
    (request : EntryRequest) : s.useEntry name request =
      let result := s.entryResult use before request
      ⟨result.1.1.1, result.2.notices,
        { s.setRegister result.1.2 use.register with
          images := s.images.setIfInBounds use.image result.2.image
          entries := s.entries.insert name { use with entry := result.1.1.2 } }⟩ := by
  unfold useEntry entryResult
  simp only [huse, hbefore]
  cases use.register <;> rfl

/-- The registers after one of them is replaced. -/
theorem register_setRegister (s : Session) (r : Registry) (k k' : Option String) :
    (s.setRegister r k).register k' = if k' = k then r else s.register k' := by
  cases k with
  | none => cases k' <;> rfl
  | some name =>
    cases k' with
    | none => rfl
    | some name' =>
      simp only [register, setRegister, NameMap.get?_insert, Option.some.injEq]
      split <;> rfl

theorem files_setRegister (s : Session) (r : Registry) (k : Option String) :
    (s.setRegister r k).files = s.files := by
  cases k <;> rfl

/-- After a use of an entry the files are as they were, and the entry and its image as the
    step leaves them. -/
theorem session_useEntry {name : String} {use : EntryUse} {before : Image}
    (huse : s.entries.get? name = some use) (hbefore : s.images[use.image]? = some before)
    (request : EntryRequest) :
    (s.useEntry name request).session.files = s.files ∧
    (s.useEntry name request).session.images[use.image]? =
      some (s.entryResult use before request).2.image ∧
    (s.useEntry name request).session.entries =
      s.entries.insert name { use with entry := (s.entryResult use before request).1.1.2 } := by
  rw [useEntry_eq huse hbefore request]
  refine ⟨files_setRegister s _ _, ?_, rfl⟩
  dsimp only
  rw [Array.getElem?_setIfInBounds, if_pos rfl, if_pos (Array.getElem?_eq_some_iff.1 hbefore).1]

/-- What a use of an image answers and leaves. -/
theorem useImage_eq {name : String} {used : Nat} {before : Image}
    (hname : s.imageNames.get? name = some used) (hbefore : s.images[used]? = some before)
    (request : ImageRequest) : s.useImage name request =
      let result := request.step.on s.files ⟨before, []⟩
      ⟨result.1, result.2.notices,
        { s with images := s.images.setIfInBounds used result.2.image }⟩ := by
  unfold useImage
  simp only [hname, hbefore]
  rfl

/-- After a use of an image the files and the names are as they were, and the image is as the
    step leaves it. -/
theorem session_useImage {name : String} {used : Nat} {before : Image}
    (hname : s.imageNames.get? name = some used) (hbefore : s.images[used]? = some before)
    (request : ImageRequest) :
    (s.useImage name request).session.files = s.files ∧
    (s.useImage name request).session.imageNames = s.imageNames ∧
    (s.useImage name request).session.images[used]? =
      some (request.step.on s.files ⟨before, []⟩).2.image := by
  rw [useImage_eq hname hbefore request]
  refine ⟨rfl, rfl, ?_⟩
  dsimp only
  rw [Array.getElem?_setIfInBounds, if_pos rfl, if_pos (Array.getElem?_eq_some_iff.1 hbefore).1]

/-- A configuration that can be used gives a new image and an entry for it. -/
theorem configure_eq_ok {name toml : String} {register : Option String} {s' : Session}
    (h : s.configure name toml register = .ok s') : ∃ root e,
    s' = (s.addImage name root).addEntry name s.images.size e register := by
  unfold configure at h
  cases hc : Config.ofText toml with
  | error e => simp [hc, bind, Except.bind] at h
  | ok c =>
    cases hroot : c.resolveImage s.files s.javaVariables with
    | error e => simp [hc, hroot, bind, Except.bind] at h
    | ok root =>
      refine ⟨root, Entry.ofConfig c root, ?_⟩
      simpa [hc, hroot, bind, Except.bind, pure, Except.pure, eq_comm] using h

/-! ## What a request does -/

/-- What a request does to a session, and the notices that it gives. -/
inductive Change (s : Session) : Request → List Notice → Session → Prop
  /-- At most the overlays change that are open outside of images. -/
  | aside (r : Request) (handles : NameMap Overlay.Handle) :
    Change s r [] { s with handles := handles }
  | write (path : String) (spec : FileSpec) :
    Change s (.write path spec) [] { s with files := spec.addTo s.files path }
  | overwrite (path : String) (content : Bytes) :
    Change s (.overwrite path content) [] { s with files := s.files.overwrite path content }
  | remove {path : String} {files : FileSystem} (h : s.files.remove? path = some files) :
    Change s (.remove path) [] { s with files := files }
  | newImage (name root : String) : Change s (.newImage name root) [] (s.addImage name root)
  | newEntry {image : String} {used : Nat} (h : s.imageNames.get? image = some used)
    (name : String) (e : Entry) (register : Option String) :
    Change s (.newEntry name image e register) [] (s.addEntry name used e register)
  | configure (name toml root : String) (e : Entry) (register : Option String) :
    Change s (.configure name toml register) []
      ((s.addImage name root).addEntry name s.images.size e register)
  | publish (register : Option String) (image : String)
    (descriptors : List ClassFile.ModuleDescriptor) :
    Change s (.publish register image descriptors) []
      (s.setRegister ((s.register register).publish image descriptors) register)
  | useImage {name : String} {used : Nat} {before : Image}
    (hname : s.imageNames.get? name = some used) (hbefore : s.images[used]? = some before)
    (request : ImageRequest) :
    Change s (.useImage name request) (request.step.on s.files ⟨before, []⟩).2.notices { s with
      images := s.images.setIfInBounds used (request.step.on s.files ⟨before, []⟩).2.image }
  | useEntry {name : String} {use : EntryUse} {before : Image}
    (huse : s.entries.get? name = some use) (hbefore : s.images[use.image]? = some before)
    (request : EntryRequest) :
    Change s (.useEntry name request) (s.entryResult use before request).2.notices
      { s.setRegister (s.entryResult use before request).1.2 use.register with
        images := s.images.setIfInBounds use.image (s.entryResult use before request).2.image
        entries := s.entries.insert name
          { use with entry := (s.entryResult use before request).1.1.2 } }

theorem change_run (s : Session) (r : Request) :
    Change s r (s.run r).notices (s.run r).session := by
  have hsame : Change s r [] s := .aside r s.handles
  cases r with
  | write path spec => exact .write path spec
  | overwrite path content => exact .overwrite path content
  | remove path =>
    rw [run]
    cases hremove : s.files.remove? path with
    | none => exact hsame
    | some files => exact .remove hremove
  | newImage name root => exact .newImage name root
  | newEntry name image e register =>
    rw [run]
    cases hname : s.imageNames.get? image with
    | none => exact hsame
    | some used => exact .newEntry hname name e register
  | configure name toml register =>
    rw [run]
    cases hconfigured : s.configure name toml register with
    | error e => exact hsame
    | ok s' =>
      obtain ⟨root, e, rfl⟩ := configure_eq_ok hconfigured
      exact .configure name toml root e register
  | publish register image descriptors => exact .publish register image descriptors
  | inspect register image => exact hsame
  | registered register image name => exact hsame
  | attach content overlay typeName handle =>
    rw [run, attach]
    cases ClassFile.BinaryType.parse content with
    | error e => exact hsame
    | ok t => exact .aside _ _
  | useImage name request =>
    cases hname : s.imageNames.get? name with
    | none =>
      rw [run, Session.useImage, hname]
      exact hsame
    | some used =>
      cases hbefore : s.images[used]? with
      | none =>
        simp only [run, Session.useImage, hname, hbefore]
        exact hsame
      | some before =>
        rw [run, useImage_eq hname hbefore]
        exact .useImage hname hbefore request
  | useEntry name request =>
    cases huse : s.entries.get? name with
    | none =>
      rw [run, Session.useEntry, huse]
      exact hsame
    | some use =>
      cases hbefore : s.images[use.image]? with
      | none =>
        simp only [run, Session.useEntry, huse, hbefore]
        exact hsame
      | some before =>
        rw [run, useEntry_eq huse hbefore]
        exact .useEntry huse hbefore request

/-! ## What becomes of open files -/

/-- Whether a request writes into a file that is there. -/
def Request.overwrites : Request → Bool
  | overwrite _ _ => true
  | _ => false

/-- All other requests leave the files that are held open, and what they hold. -/
theorem keeps_run (s : Session) {r : Request} (h : r.overwrites = false) :
    s.files.Keeps (s.run r).session.files := by
  have hchange := change_run s r
  generalize (s.run r).session = s' at hchange
  generalize (s.run r).notices = notices at hchange
  cases hchange with
  | write path spec =>
    cases spec with
    | directory => exact s.files.keeps_addDirectory path
    | _ => exact s.files.keeps_add path _
  | overwrite path content => cases h
  | remove hremove => exact FileSystem.keeps_remove hremove
  | publish register image descriptors =>
    rw [files_setRegister]
    exact .refl _
  | useEntry huse hbefore request =>
    dsimp only
    rw [files_setRegister]
    exact .refl _
  | _ => exact .refl _

/-! ## What becomes of an image -/

/-- The image that a request uses, by its number. -/
def uses? (s : Session) : Request → Option Nat
  | .useImage name _ => s.imageNames.get? name
  | .useEntry name _ => (s.entries.get? name).map (·.image)
  | _ => none

/-- The notices about an image that a request gives. -/
def noticesOf (s : Session) (r : Request) (number : Nat) : List Notice :=
  if s.uses? r = some number then (s.run r).notices else []

/-- A request closes an image, or resets an entry that owns it. -/
def Closes (s : Session) (r : Request) (number : Nat) : Prop :=
  (∃ name, r = .useImage name .close ∧ s.imageNames.get? name = some number) ∨
    ∃ name use, r = .useEntry name .reset ∧ s.entries.get? name = some use ∧
      use.image = number ∧ use.entry.closesAtEnd = true

section
variable {overlays : String → Prop} {mayClose : Prop} {fs : FileSystem}

theorem moves_imageRequest (request : ImageRequest) (hclose : request = .close → mayClose) :
    request.step.Moves fs overlays mayClose :=
  Step.Moves.rule.imageRequest request fun h => Image.moves_close (hclose h)

theorem moves_reset (e : Entry) (hclose : e.closesAtEnd = true → mayClose) :
    e.reset.Moves fs overlays mayClose := by
  unfold Entry.reset
  cases hown : e.closesAtEnd with
  | false => exact fun _ => .refl
  | true =>
    exact Step.Moves.openingRule.bind (Image.moves_close (hclose hown)) fun _ =>
      Step.Moves.openingRule.pure _

theorem moves_entryRequest (e : Entry) (he : ∀ p ∈ e.annotationPaths, overlays p)
    (show? : Registry.Snapshot → ShownSnapshot) (request : EntryRequest)
    (hclose : request = .reset → e.closesAtEnd = true → mayClose) (r : Registry) :
    ((request.step e show?).run r).Moves fs overlays mayClose :=
  Step.Moves.rule.entryRequest e he show? request (fun h => moves_reset e (hclose h)) r

end

/-- A use of an entry, in a session. -/
theorem moves_useEntry {name : String} {use : EntryUse} (huse : s.entries.get? name = some use)
    (request : EntryRequest) :
    Step.Moves s.files (s.Attaches use.image) (s.Closes (.useEntry name request) use.image)
      ((request.step use.entry fun snapshot => ⟨snapshot, use.register.isSome⟩).run
        (s.register use.register)) :=
  moves_entryRequest use.entry (fun _ hp => ⟨name, use, huse, rfl, hp⟩) _ request
    (fun hreset hown => .inr ⟨name, use, by rw [hreset], huse, rfl, hown⟩) _

/-- The images after a step with one of them: that one has moved, the others are as they
    were. -/
theorem moves_setIfInBounds {α : Type} {step : Step α} {used : Nat} {before : Image}
    {mayClose : Prop} (hbefore : s.images[used]? = some before)
    (hmoves : step.Moves s.files (s.Attaches used) mayClose)
    (h : (s.images.setIfInBounds used (step.on s.files ⟨before, []⟩).2.image)[number]? =
      some image) :
    ∃ i, s.images[number]? = some i ∧
      if used = number then Moves s.files (s.Attaches number) mayClose ⟨i, []⟩
        ⟨image, (step.on s.files ⟨before, []⟩).2.notices⟩
      else image = i := by
  rw [Array.getElem?_setIfInBounds] at h
  split at h
  · next hsame =>
    subst hsame
    split at h
    · cases h
      refine ⟨before, hbefore, ?_⟩
      rw [if_pos rfl]
      exact hmoves ⟨before, []⟩
    · cases h
  · next hother => exact ⟨image, h, by rw [if_neg hother]⟩

/-- An image as an added one makes it: as it was, or new. -/
theorem getElem?_addImage {name root : String}
    (h : (s.addImage name root).images[number]? = some image) :
    s.images[number]? = some image ∨ s.images[number]? = none ∧ image = .new root := by
  change (s.images.push (.new root))[number]? = _ at h
  rw [Array.getElem?_push] at h
  split at h
  · next hlast =>
    cases h
    exact .inr ⟨by simp [hlast], rfl⟩
  · exact .inl h

/-- **What a request does to an image.** Whatever it is, it makes the image new, or it does
    to it some of what a step may do, with overlays of the image's own entries, and closes it
    only if it is a request for that. -/
theorem moves_run (s : Session) (r : Request) {number : Nat} {image : Image}
    (h : (s.run r).session.images[number]? = some image) :
    (∃ before, s.images[number]? = some before ∧
        Moves s.files (s.Attaches number) (s.Closes r number) ⟨before, []⟩
          ⟨image, s.noticesOf r number⟩) ∨
      s.images[number]? = none ∧ s.noticesOf r number = [] ∧ ∃ root, image = .new root := by
  have hchange := change_run s r
  unfold noticesOf
  generalize (s.run r).session = s' at hchange h
  generalize (s.run r).notices = notices at hchange
  cases hchange with
  | aside | write | overwrite | remove | newEntry => exact .inl ⟨image, h, by rw [ite_self]⟩
  | publish register path descriptors =>
    refine .inl ⟨image, ?_, by rw [ite_self]⟩
    cases register <;> exact h
  | newImage name root | configure name toml root e register =>
    have hadded := @getElem?_addImage s number image name root h
    exact hadded.imp (fun h => ⟨image, h, by rw [ite_self]⟩)
      fun h => ⟨h.1, ite_self [], root, h.2⟩
  | @useImage name used before hname hbefore request =>
    have hmoves : request.step.Moves s.files (s.Attaches used)
        (s.Closes (.useImage name request) used) :=
      moves_imageRequest request fun hclose => .inl ⟨name, by rw [hclose], hname⟩
    obtain ⟨i, hi, hmoved⟩ := moves_setIfInBounds hbefore hmoves h
    refine .inl ⟨i, hi, ?_⟩
    have huses : s.uses? (.useImage name request) = some used := hname
    rw [huses]
    split at hmoved
    · next hsame => subst hsame; rwa [if_pos rfl]
    · next hother =>
      subst hmoved
      rw [if_neg fun h => hother (Option.some.inj h)]
  | @useEntry name use before huse hbefore request =>
    obtain ⟨i, hi, hmoved⟩ := moves_setIfInBounds hbefore (moves_useEntry huse request) h
    refine .inl ⟨i, hi, ?_⟩
    have huses : s.uses? (.useEntry name request) = some use.image := by
      rw [uses?, huse]
      rfl
    rw [huses]
    split at hmoved
    · next hsame => subst hsame; rwa [if_pos rfl]
    · next hother =>
      subst hmoved
      rw [if_neg fun h => hother (Option.some.inj h)]

/-! ## Numbers -/

/-- Whatever goes by the number of an image has one. -/
structure Numbered (s : Session) : Prop where
  names : ∀ name number, s.imageNames.get? name = some number → number < s.images.size
  entries : ∀ name use, s.entries.get? name = some use → use.image < s.images.size

theorem Numbered.start (files : FileSystem) (vars : JavaHome.Variables) :
    (Session.start files vars).Numbered :=
  ⟨nofun, nofun⟩

theorem Numbered.addImage (h : s.Numbered) (name root : String) :
    (s.addImage name root).Numbered := by
  have hsize : (s.addImage name root).images.size = s.images.size + 1 := Array.size_push _
  constructor
  · intro k number hk
    change (s.imageNames.insert name s.images.size).get? k = some number at hk
    rw [NameMap.get?_insert] at hk
    split at hk
    · cases hk
      omega
    · have := h.names k number hk
      omega
  · intro k use hk
    have := h.entries k use hk
    omega

theorem Numbered.addEntry (h : s.Numbered) {image : Nat} (himage : image < s.images.size)
    (name : String) (e : Entry) (register : Option String) :
    (s.addEntry name image e register).Numbered := by
  refine ⟨h.names, fun k use hk => ?_⟩
  change (s.entries.insert name ⟨e, image, register⟩).get? k = some use at hk
  rw [NameMap.get?_insert] at hk
  split at hk
  · cases hk
    exact himage
  · exact h.entries k use hk

theorem Numbered.setImage (h : s.Numbered) (used : Nat) (i : Image) :
    ({ s with images := s.images.setIfInBounds used i } : Session).Numbered := by
  have hsize : (s.images.setIfInBounds used i).size = s.images.size := Array.size_setIfInBounds
  exact ⟨fun k number hk => hsize ▸ h.names k number hk, fun k use hk => hsize ▸ h.entries k use hk⟩

theorem Numbered.setRegister (h : s.Numbered) (r : Registry) (k : Option String) :
    (s.setRegister r k).Numbered := by
  cases k <;> exact ⟨h.names, h.entries⟩

theorem Numbered.run (h : s.Numbered) (r : Request) : (s.run r).session.Numbered := by
  have hchange := change_run s r
  generalize (s.run r).session = s' at hchange
  generalize (s.run r).notices = notices at hchange
  cases hchange with
  | aside | write | overwrite | remove => exact ⟨h.names, h.entries⟩
  | publish register image descriptors => exact h.setRegister _ register
  | newImage name root => exact h.addImage name root
  | newEntry hname name e register => exact h.addEntry (h.names _ _ hname) name e register
  | configure name toml root e register =>
    refine (h.addImage name root).addEntry ?_ name e register
    have hsize : (s.addImage name root).images.size = s.images.size + 1 := Array.size_push _
    omega
  | @useImage name used before hname hbefore request => exact h.setImage used _
  | @useEntry name use before huse hbefore request =>
    have hset := (h.setImage use.image (s.entryResult use before request).2.image).addEntry
      (Array.size_setIfInBounds ▸ h.entries name use huse) name
      (s.entryResult use before request).1.1.2 use.register
    have hregister := hset.setRegister (s.entryResult use before request).1.2 use.register
    cases hk : use.register <;> rw [hk] at hregister <;> exact ⟨hregister.names, hregister.entries⟩

/-! ## Sessions of many requests -/

/-- The session after some requests. -/
def after (s : Session) (rs : List Request) : Session :=
  rs.foldl (fun s r => (s.run r).session) s

/-- What holds of a session and is kept by requests holds after any of them. -/
theorem after_keeps {P : Session → Prop} (hrun : ∀ s r, P s → P (s.run r).session) (h : P s)
    (rs : List Request) : P (s.after rs) := by
  induction rs generalizing s with
  | nil => exact h
  | cons r rs ih => exact ih (hrun s r h)

theorem numbered_after (files : FileSystem) (vars : JavaHome.Variables) (rs : List Request) :
    ((start files vars).after rs).Numbered :=
  after_keeps (fun _ r h => h.run r) (.start files vars) rs

end Session

end PlatformImage
