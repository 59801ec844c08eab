import PlatformImage.Proofs.Alike
import PlatformImage.Proofs.Handles
/-! A closed image is as good as a new one.

Of what an image remembers, queries look at the contents and the overlay that are open only: from
two images that have these in common they give the same answers, and leave images that have
them in common again (`Step.Forgetful.openingRule`). A closed image of a session has no overlay open
(`overlay_eq_none_after`), so it has these in common with a new image of its root, and whatever it
was asked before, it answers as that one does (`closed_asNew`). -/
namespace PlatformImage

namespace Image

/-- Uses of images of one root, with the same contents and the same overlay open, and the same
    notices except that the layout was complained about. -/
structure Use.Like (u v : Use) : Prop where
  root : u.image.root = v.image.root
  contents : u.image.contents = v.image.contents
  overlay : u.image.overlay = v.image.overlay
  notices : u.notices.filter (· ≠ .unsupportedLayout) = v.notices.filter (· ≠ .unsupportedLayout)

/-- From uses that are alike, a step gives the same answer, and leaves uses that are alike. -/
def Step.Forgetful (fs : FileSystem) {α : Type} (x : Step α) : Prop :=
  ∀ u v : Use, u.Like v → (x.on fs u).1 = (x.on fs v).1 ∧ (x.on fs u).2.Like (x.on fs v).2

/-- An image answers a step as a new one of its root does, gives the same notices except that it
    may have complained about the layout before, and has the same open afterwards. -/
def Step.AsNew (fs : FileSystem) (i : Image) {α : Type} (x : Step α) : Prop :=
  (x.on fs ⟨i, []⟩).1 = (x.on fs ⟨.new i.root, []⟩).1 ∧
    (x.on fs ⟨i, []⟩).2.Like (x.on fs ⟨.new i.root, []⟩).2

section
variable {fs : FileSystem} {u v w : Use}

@[symm]
theorem Use.Like.symm (h : u.Like v) : v.Like u :=
  ⟨h.root.symm, h.contents.symm, h.overlay.symm, h.notices.symm⟩

@[trans]
theorem Use.Like.trans (h : u.Like v) (h' : v.Like w) : u.Like w :=
  ⟨h.root.trans h'.root, h.contents.trans h'.contents, h.overlay.trans h'.overlay,
    h.notices.trans h'.notices⟩

theorem Use.Like.addNotices (h : u.Like v) (notices : List Notice) :
    Use.Like ⟨u.image, u.notices ++ notices⟩ ⟨v.image, v.notices ++ notices⟩ :=
  ⟨h.root, h.contents, h.overlay, by rw [List.filter_append, List.filter_append, h.notices]⟩

theorem Use.Like.setContents (h : u.Like v) (c : Contents) :
    Use.Like ⟨{ u.image with contents := some c }, u.notices⟩
      ⟨{ v.image with contents := some c }, v.notices⟩ :=
  ⟨h.root, rfl, h.overlay, h.notices⟩

theorem Use.Like.setOverlay (h : u.Like v) (slot : Option Overlay.Handle) :
    Use.Like ⟨{ u.image with overlay := slot }, u.notices⟩
      ⟨{ v.image with overlay := slot }, v.notices⟩ :=
  ⟨h.root, h.contents, rfl, h.notices⟩

/-- Complaining about the layout leaves everything but that as it is. -/
theorem Use.Like.reportLayout (h : u.Like v) :
    (reportLayout.on fs u).2.Like (reportLayout.on fs v).2 := by
  have hreport (u : Use) : (Image.reportLayout.on fs u).2.Like u := by
    unfold Image.reportLayout
    rw [Step.on_bind, Step.on_current]
    cases u.image.layoutReported with
    | true => exact ⟨rfl, rfl, rfl, rfl⟩
    | false =>
      refine ⟨rfl, rfl, rfl, ?_⟩
      change List.filter _ (u.notices ++ [.unsupportedLayout]) = _
      rw [List.filter_append]
      exact List.append_nil _
  exact (hreport u).trans (h.trans (hreport v).symm)

/-- Whether an image opens, and with what, does not depend on what it remembers. -/
theorem forgetful_openContents : openContents.run.Forgetful fs := by
  intro u v h
  rw [on_openContents, on_openContents, ← h.contents, ← h.root]
  cases u.image.contents with
  | some c => exact ⟨rfl, h⟩
  | none =>
    cases Contents.ofRoot fs u.image.root with
    | ok found => exact ⟨rfl, (h.setContents found.contents).addNotices (openNotices found)⟩
    | error e =>
      cases e with
      | unsupportedLayout path => exact ⟨rfl, h.reportLayout⟩
      | _ => exact ⟨rfl, h⟩

/-- What is made of opening, looking at the files and giving notices is forgetful. -/
theorem Step.Forgetful.openingRule : OpeningRule (Step.Forgetful fs) where
  pure _ _ _ h := ⟨rfl, h⟩
  bind {_ _ x f} hx hf u v h := by
    obtain ⟨hanswer, hafter⟩ := hx u v h
    rw [Step.on_bind, Step.on_bind, ← hanswer]
    exact hf _ _ _ hafter
  files _ _ h := ⟨rfl, h⟩
  note n _ _ _ h := ⟨rfl, h.addNotices [n]⟩
  opens := forgetful_openContents

theorem forgetful_attachOverlays (typePath : String) (t : ClassFile.BinaryType)
    (overlays : List String) : (Entry.attachOverlays typePath t overlays).run.Forgetful fs := by
  intro u v h
  induction overlays generalizing u v with
  | nil => exact ⟨rfl, h⟩
  | cons overlay rest ih =>
    rw [Entry.on_attachOverlays_cons, Entry.on_attachOverlays_cons, ← h.overlay]
    rcases Overlay.lookUp fs overlay typePath u.image.overlay with ⟨outcome, slot⟩
    have hslot := h.setOverlay slot
    cases outcome with
    | error e =>
      dsimp only
      split
      · exact ⟨rfl, hslot⟩
      · exact ih _ _ (hslot.addNotices [.skippedOverlay])
    | ok content? =>
      cases content? with
      | none => exact ih _ _ hslot
      | some content => exact ⟨rfl, hslot⟩

/-- An image with nothing open is like a new one. -/
theorem Use.like_new {i : Image} (hcontents : i.contents = none) (hoverlay : i.overlay = none) :
    Use.Like ⟨i, []⟩ ⟨.new i.root, []⟩ :=
  ⟨rfl, hcontents, hoverlay, rfl⟩

end

/-- An overlay is open only in an open image. -/
theorem Moves.overlay_eq_none {fs : FileSystem} {overlays : String → Prop} {mayClose : Prop}
    {u v : Use} (hmoves : Moves fs overlays mayClose u v)
    (h : u.image.contents = none → u.image.overlay = none) :
    v.image.contents = none → v.image.overlay = none := by
  induction hmoves with
  | refl => exact h
  | tail _ hmove ih =>
    cases hmove with
    | note | canonical | normalized | report => exact ih
    | opening => exact nofun
    | overlay path typeName hpath hopen =>
      exact fun hclosed => absurd hclosed (Option.isSome_iff_ne_none.1 hopen)
    | close => exact fun _ => rfl

end Image

namespace Session

/-- In every session, closed images have no overlay open. -/
theorem overlay_eq_none_after (files : FileSystem) (vars : JavaHome.Variables)
    (rs : List Request) {number : Nat} {image : Image}
    (himage : ((start files vars).after rs).images[number]? = some image) :
    image.contents = none → image.overlay = none := by
  have hstart : ∀ image, (start files vars).images[number]? = some image →
      image.contents = none → image.overlay = none := fun _ h => nomatch h
  refine after_keeps (P := fun s => ∀ image, s.images[number]? = some image →
    image.contents = none → image.overlay = none) (fun s r hs image himage => ?_) hstart rs image
    himage
  rcases moves_run s r himage with ⟨before, hbefore, hmoves⟩ | ⟨-, -, root, rfl⟩
  · exact hmoves.overlay_eq_none (hs before hbefore)
  · exact fun _ => rfl

/-- **A closed image is as good as a new one.** Whatever was asked in a session, of an image that
    is closed no overlay is open either. And whatever it is asked next, it answers as a new image of
    the same root does among the same files, with the same notices except that an unknown
    layout may have been complained about before: which layout it has and which modules, whether
    they have a package, what is in a file, which descriptors a scan finds, what any visitor that
    walks through it sees; and so do entries, with any rules and overlays, that are asked for
    packages and types. -/
theorem closed_asNew (files : FileSystem) (vars : JavaHome.Variables) (rs : List Request)
    {number : Nat} {image : Image}
    (himage : ((start files vars).after rs).images[number]? = some image)
    (hclosed : image.isOpen = false) :
    let fs := ((start files vars).after rs).files
    image.overlay = none ∧
    Image.layout.run.AsNew fs image ∧
    Image.moduleNames.run.AsNew fs image ∧
    (∀ package filter, (Image.isPackage package filter).run.AsNew fs image) ∧
    (∀ name filter, (Image.readUnit name filter).run.AsNew fs image) ∧
    (∀ owner path, (Image.readModuleUnit owner path).run.AsNew fs image) ∧
    Registry.scan.run.AsNew fs image ∧
    (∀ (σ : Type) (first : σ) (visit : Image.Event → σ → Except Image.Error Image.Answer × σ)
      (mode : Image.Mode),
      (Image.walkFrom first (fun e => Image.Visit.own (visit e)) mode).AsNew fs image) ∧
    (∀ package filter, (Entry.isPackage package filter).AsNew fs image) ∧
    (∀ (e : Entry) package unit filter, (e.findType package unit filter).run.AsNew fs image) ∧
    (∀ package filter, (Entry.findTypeNames package filter).AsNew fs image) := by
  intro fs
  have hcontents : image.contents = none := by
    simpa [Image.isOpen] using hclosed
  have hoverlay : image.overlay = none :=
    overlay_eq_none_after files vars rs himage hcontents
  have hrule := @Image.Step.Forgetful.openingRule fs
  have hnew : ∀ {α : Type} {x : Image.Step α}, x.Forgetful fs → x.AsNew fs image :=
    fun hx => hx _ _ (Image.Use.like_new hcontents hoverlay)
  exact ⟨hoverlay, hnew hrule.layout, hnew hrule.moduleNames,
    fun package filter => hnew (hrule.isPackage package filter),
    fun name filter => hnew (hrule.readUnit name filter),
    fun owner path => hnew (hrule.readModuleUnit owner path),
    hnew hrule.scan,
    fun σ first visit mode => hnew (hrule.walkFrom (fun e s => hrule.pure (visit e s)) first mode),
    fun package filter => hnew (hrule.entryPackage package filter),
    fun e package unit filter => hnew (hrule.findType
      (fun typePath t => Image.forgetful_attachOverlays typePath t e.annotationPaths) package unit
      filter),
    fun package filter => hnew (hrule.findTypeNames package filter)⟩

/-- The session in which the class was found, the image closed, and then asked for its paths. -/
def reclosed : Session :=
  let s := (askedOnce.run (.useImage "i" .close)).session
  (s.run (.useImage "i" .paths)).session

/-- The image remembers its paths then, and has nothing open. -/
theorem image_reclosed : reclosed.files = annotatedFiles ∧
    ∃ canonical normalized, reclosed.images[0]? = some
      { Image.new "/i" with canonical := some canonical, normalized := some normalized } := by
  obtain ⟨c, handle, -, -, -, hfiles, -, himage⟩ := askedOnce_eq
  obtain ⟨hfiles', hnames, hclosed⟩ := session_useImage imageNames_askedOnce himage .close
  have hname : (askedOnce.useImage "i" .close).session.imageNames.get? "i" = some 0 := by
    rw [hnames]
    exact imageNames_askedOnce
  obtain ⟨hfiles'', -, hpaths⟩ := session_useImage hname hclosed .paths
  exact ⟨hfiles''.trans (hfiles'.trans hfiles), _, _, hpaths⟩

/-- The requests that lead to it. -/
def reclosedRequests : List Request :=
  annotatedRequests ++ [.useEntry "e" (.findType "a" "a/A.class" .all), .useImage "i" .close,
    .useImage "i" .paths]

theorem after_reclosedRequests :
    (start annotatedFiles ⟨none, none, "/"⟩).after reclosedRequests = reclosed := rfl

/-- The class is found in it again, with its annotations, as in a new image. -/
theorem closed_asNew_reclosed : ∃ image, reclosed.images[0]? = some image ∧ image.isOpen = false ∧
    image.canonical.isSome ∧
    (((annotating [shortPath]).findType "a" "a/A.class" .all).run.on annotatedFiles ⟨image, []⟩).1 =
      .ok (some ⟨{ smallType with annotations := some ⟨shortPath, "a/A", [7]⟩ }, none, "m"⟩) := by
  obtain ⟨hfiles, canonical, normalized, himage⟩ := image_reclosed
  obtain ⟨c, handle, -, -, -, hfound⟩ := on_findType_annotated
  have hnew := @closed_asNew annotatedFiles ⟨none, none, "/"⟩ reclosedRequests 0 _
    (after_reclosedRequests ▸ himage) rfl
  rw [after_reclosedRequests, hfiles] at hnew
  obtain ⟨-, -, -, -, -, -, -, -, -, hfind, -⟩ := hnew
  obtain ⟨hanswer, -⟩ := hfind (annotating [shortPath]) "a" "a/A.class" .all
  exact ⟨_, himage, rfl, rfl, hanswer.trans (congrArg Prod.fst hfound)⟩

end Session

end PlatformImage
