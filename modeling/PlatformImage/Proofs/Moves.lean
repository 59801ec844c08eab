import Mathlib.Logic.Relation
import PlatformImage.Proofs.Lookups
import PlatformImage.Proofs.Rules
import PlatformImage.Proofs.Scan
/-! What can become of an image in use. There are seven things that a step may do to it and note
about it (`Move`), and whatever is asked of an image or of an entry does some of these one
after the other (`Step.Moves`). What each of the seven keeps, every step keeps.

Steps that look at the image are taken one by one; all others are put together of these, by
the rule for uses (`Step.Moves.rule`). -/
namespace PlatformImage

namespace Image

/-- What a step may do to an image and note about it, in a file system that stays as it is, if
    of the overlays it uses those given. -/
inductive Move (fs : FileSystem) (overlays : String → Prop) (mayClose : Prop) : Use → Use → Prop
  | note (u : Use) (n : Notice) (h : n.isAside) :
    Move fs overlays mayClose u ⟨u.image, u.notices ++ [n]⟩
  /-- The canonical path is asked for the first time. -/
  | canonical (u : Use) (h : u.image.canonical = none) :
    Move fs overlays mayClose u
      ⟨{ u.image with canonical := some (canonicalOf fs u.image.root) }, u.notices⟩
  /-- So is the normalized one. -/
  | normalized (u : Use) (path : String) (hpath : u.image.canonical = some path)
    (h : u.image.normalized = none) :
    Move fs overlays mayClose u
      ⟨{ u.image with normalized := some (normalizedOf path) }, u.notices⟩
  | report (u : Use) (h : u.image.layoutReported = false) :
    Move fs overlays mayClose u
      ⟨{ u.image with layoutReported := true }, u.notices ++ [.unsupportedLayout]⟩
  | opening (u : Use) (found : Contents.Found) (h : u.image.contents = none)
    (hfound : Contents.ofRoot fs u.image.root = .ok found) :
    Move fs overlays mayClose u
      ⟨{ u.image with contents := some found.contents }, u.notices ++ openNotices found⟩
  /-- In an open image a type is looked up in an overlay, which may then be the open one. -/
  | overlay (u : Use) (path typeName : String) (h : overlays path) (hopen : u.image.isOpen) :
    Move fs overlays mayClose u
      ⟨{ u.image with overlay := (Overlay.lookUp fs path typeName u.image.overlay).2 }, u.notices⟩
  | close (u : Use) (h : mayClose) :
    Move fs overlays mayClose u ⟨{ u.image with contents := none, overlay := none },
      u.notices ++ if u.image.isOpen then [.closed] else []⟩

/-- Some such things, one after the other. -/
abbrev Moves (fs : FileSystem) (overlays : String → Prop) (mayClose : Prop) : Use → Use → Prop :=
  Relation.ReflTransGen (Move fs overlays mayClose)

/-- From any use of an image, a step does nothing else. -/
def Step.Moves (fs : FileSystem) (overlays : String → Prop) (mayClose : Prop) {α : Type}
    (x : Step α) : Prop :=
  ∀ u : Use, Image.Moves fs overlays mayClose u (x.on fs u).2

section
variable {fs : FileSystem} {overlays : String → Prop} {mayClose : Prop}

theorem Moves.mono {overlays' : String → Prop} {mayClose' : Prop} {u v : Use}
    (hsub : ∀ p, overlays p → overlays' p) (hclose : mayClose → mayClose')
    (h : Moves fs overlays mayClose u v) : Moves fs overlays' mayClose' u v := by
  refine Relation.ReflTransGen.mono (fun u v hmove => ?_) _ _ h
  cases hmove with
  | note n h => exact .note u n h
  | canonical h => exact .canonical u h
  | normalized path hpath h => exact .normalized u path hpath h
  | report h => exact .report u h
  | opening found h hfound => exact .opening u found h hfound
  | overlay path typeName h hopen => exact .overlay u path typeName (hsub path h) hopen
  | close h => exact .close u (hclose h)

/-! ## The steps that look at an image -/

theorem moves_canonicalPath : canonicalPath.Moves fs overlays mayClose := by
  intro u
  rw [Registry.on_canonicalPath]
  cases h : u.image.canonical with
  | none =>
    have hkey : Registry.keyOf fs u.image = canonicalOf fs u.image.root := by
      rw [Registry.keyOf, h]
      rfl
    rw [hkey]
    exact .single (.canonical _ h)
  | some p =>
    have hsame : { u.image with canonical := some (Registry.keyOf fs u.image) } = u.image := by
      rw [Registry.keyOf, h, Option.getD_some, ← h]
    rw [hsame]

theorem moves_normalizedPath : normalizedPath.Moves fs overlays mayClose := by
  intro u
  unfold normalizedPath
  rw [Step.on_bind, Step.on_current]
  cases h : u.image.normalized with
  | some p => exact .refl
  | none =>
    -- The canonical path is known then, and the normalized one is made of it.
    refine (moves_canonicalPath u).tail ?_
    show Move fs overlays mayClose (canonicalPath.on fs u).2
      ⟨{ (canonicalPath.on fs u).2.image with
        normalized := some (normalizedOf (canonicalPath.on fs u).1) },
        (canonicalPath.on fs u).2.notices⟩
    rw [Registry.on_canonicalPath]
    exact .normalized _ _ rfl h

theorem moves_reportLayout : reportLayout.Moves fs overlays mayClose := by
  intro u
  unfold reportLayout
  rw [Step.on_bind, Step.on_current]
  cases h : u.image.layoutReported with
  | true => exact .refl
  | false => exact .single (.report u h)

theorem moves_openContents : openContents.run.Moves fs overlays mayClose := by
  intro u
  rw [on_openContents]
  cases h : u.image.contents with
  | some c => exact .refl
  | none =>
    cases hfound : Contents.ofRoot fs u.image.root with
    | ok found => exact .single (.opening _ found h hfound)
    | error e =>
      cases e with
      | unsupportedLayout path => exact moves_reportLayout u
      | _ => exact .refl

theorem moves_close (hclose : mayClose) : close.Moves fs overlays mayClose := by
  intro u
  have hmove : Move fs overlays mayClose u _ := .close u hclose
  unfold close
  rw [Step.on_bind, Step.on_current]
  cases h : u.image.isOpen with
  | true =>
    rw [h] at hmove
    exact .single hmove
  | false =>
    rw [h, if_neg Bool.false_ne_true, List.append_nil] at hmove
    exact .single hmove

/-- All that has to do with opening only. -/
theorem Step.Moves.openingRule : OpeningRule (Step.Moves fs overlays mayClose) where
  pure _ _ := .refl
  bind hx hf u := (hx u).trans (hf _ _)
  files _ := .refl
  note n hn u := .single (.note u n hn)
  opens := moves_openContents

end

end Image

/-! ## Entries -/

namespace Entry

open Image (Query Step Move)

variable {fs : FileSystem} {overlays : String → Prop} {mayClose : Prop}

/-- Overlays are looked into while the image is open. -/
theorem moves_attachOverlays (typePath : String) (t : ClassFile.BinaryType) {paths : List String}
    (hpaths : ∀ p ∈ paths, overlays p) {u : Image.Use} (hopen : u.image.isOpen) :
    Image.Moves fs overlays mayClose u ((attachOverlays typePath t paths).run.on fs u).2 := by
  induction paths generalizing u with
  | nil => exact .refl
  | cons overlay rest ih =>
    have hmove : Move fs overlays mayClose u ⟨{ u.image with
        overlay := (Overlay.lookUp fs overlay typePath u.image.overlay).2 }, u.notices⟩ :=
      .overlay u overlay typePath (hpaths overlay List.mem_cons_self) hopen
    have ih := @ih fun p hp => hpaths p (List.mem_cons_of_mem overlay hp)
    rw [on_attachOverlays_cons]
    rcases hlookup : Overlay.lookUp fs overlay typePath u.image.overlay with ⟨outcome, slot⟩
    rw [hlookup] at hmove
    cases outcome with
    | error e =>
      dsimp only
      split
      · exact .single hmove
      · exact .head hmove (.head (.note _ _ rfl) (ih hopen))
    | ok content? =>
      cases content? with
      | none => exact .head hmove (ih hopen)
      | some content => exact .single hmove

/-- An image that a file was read from is open. -/
theorem isOpen_of_readUnit? {unit : String} {filter : Image.Filter} {u v : Image.Use}
    {found : Image.BinaryUnit} (h : (readUnit? unit filter).run.on fs u = (.ok (some found), v)) :
    v.image.isOpen := by
  rcases hrun : Image.openContents.run.on fs u with ⟨outcome, w⟩
  cases outcome with
  | ok c =>
    have hw : w.image.isOpen := by
      rw [Image.isOpen, Image.contents_of_open hrun]
      rfl
    rw [on_readUnit? hrun] at h
    split at h
    · cases h
      exact hw
    · exact absurd (congrArg Prod.fst h) unread_ne_some
  | error e =>
    have hread : (Image.readUnit unit filter).run.on fs u = (.error e, w) :=
      Query.on_bind_of_error fs u _ hrun
    rw [on_readUnit?_eq, hread] at h
    exact absurd (congrArg Prod.fst h) unread_ne_some

theorem moves_typeIn (e : Entry) (he : ∀ p ∈ e.annotationPaths, overlays p) (unit : String)
    (found : Image.BinaryUnit) {u : Image.Use} (hopen : u.image.isOpen) :
    Image.Moves fs overlays mayClose u ((e.typeIn unit found).run.on fs u).2 := by
  unfold typeIn
  cases ClassFile.BinaryType.parse found.content with
  | error e => exact .single (.note _ _ rfl)
  | ok t =>
    have hattach := @moves_attachOverlays fs overlays mayClose (typePath unit) t _ he u hopen
    rcases hrun : (attachOverlays (typePath unit) t e.annotationPaths).run.on fs u with ⟨outcome, v⟩
    rw [hrun] at hattach
    dsimp only
    cases outcome with
    | error why => rwa [Query.on_bind_of_error fs u _ hrun]
    | ok t => rwa [Query.on_bind_of_ok fs u _ hrun]

/-- The search for a type never closes the image. -/
theorem moves_findType (e : Entry) (he : ∀ p ∈ e.annotationPaths, overlays p)
    (package unit : String) (filter : Image.Filter) :
    (e.findType package unit filter).run.Moves fs overlays False := by
  intro u
  have hrule := @Step.Moves.openingRule fs overlays False
  rw [findType_eq_typeIn, Query.on_bind_of_ok fs u _ (Query.on_lift fs u _)]
  refine (hrule.entryPackage package filter u).trans ?_
  rcases (isPackage package filter).on fs u with ⟨found, v⟩
  cases found with
  | false => exact .refl
  | true =>
    simp only [Bool.not_true, Bool.false_eq_true, if_false]
    have hunit := hrule.entryUnit unit filter v
    rcases hrun : (readUnit? unit filter).run.on fs v with ⟨outcome, w⟩
    rw [hrun] at hunit
    cases outcome with
    | error why => rwa [Query.on_bind_of_error fs v _ hrun]
    | ok found? =>
      rw [Query.on_bind_of_ok fs v _ hrun]
      cases found? with
      | none => exact hunit
      | some found => exact hunit.trans (moves_typeIn e he unit found (isOpen_of_readUnit? hrun))

end Entry

namespace Image

variable {fs : FileSystem} {overlays : String → Prop} {mayClose : Prop}

/-- Whatever is asked, an image does nothing but these things. -/
theorem Step.Moves.rule : UseRule overlays (Step.Moves fs overlays mayClose) where
  toOpeningRule := openingRule
  image _ := .refl
  canonical := moves_canonicalPath
  normalized := moves_normalizedPath
  type e package unit filter he u :=
    (Entry.moves_findType e he package unit filter u).mono (fun _ h => h) False.elim

end Image

end PlatformImage
