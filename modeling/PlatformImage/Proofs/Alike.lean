import PlatformImage.Proofs.Closed
import PlatformImage.Proofs.Opening
import PlatformImage.Proofs.Runs
/-! Two images of the same modules, used alike.

Images are `Alike` if each knows of its own root nothing that is not so, and both have the
same overlay open. Two steps are related (`Relates`) if from any two such images they give
related answers and leave images that are alike again. Relations are kept when steps are
put together, so a query is related to itself once its parts are; only the opening of the
images is related by what is found at the roots. -/
namespace PlatformImage.Image

/-- An image that knows nothing of its root that is not so. -/
structure UpToDate (fs : FileSystem) (root : String) (i : Image) : Prop where
  rooted : i.root = root
  contents : ∀ c, i.contents = some c → ∃ skipped, Contents.ofRoot fs root = .ok ⟨c, skipped⟩

/-- Images of two roots with the same overlay open. -/
structure Alike (fs : FileSystem) (root root' : String) (i j : Image) : Prop where
  left : UpToDate fs root i
  right : UpToDate fs root' j
  overlay : i.overlay = j.overlay

/-- Two roots at which the same modules are found. -/
structure SameModules (fs : FileSystem) (root root' : String) (c d : Contents) : Prop where
  left : Contents.ofRoot fs root = .ok ⟨c, []⟩
  right : Contents.ofRoot fs root' = .ok ⟨d, []⟩
  counterparts : c.Counterparts fs d

/-- From images that are alike, one step and another give related answers, and they leave
    images that are alike. -/
def Relates (fs : FileSystem) (root root' : String) {α β : Type} (R : α → β → Prop) (x : Step α)
    (y : Step β) : Prop :=
  ∀ u v : Use, Alike fs root root' u.image v.image → R (x.on fs u).1 (y.on fs v).1 ∧
    Alike fs root root' (x.on fs u).2.image (y.on fs v).2.image

/-- From images that are alike, a step gives the same answer, and it leaves images that are
    alike. -/
def AnswersAlike (fs : FileSystem) (root root' : String) {α : Type} (x : Step α) : Prop :=
  Relates fs root root' Eq x x

section
variable {fs : FileSystem} {root root' : String} {c d : Contents} {i j : Image}

theorem UpToDate.new (fs : FileSystem) (root : String) : UpToDate fs root (.new root) :=
  ⟨rfl, nofun⟩

theorem Alike.new (fs : FileSystem) (root root' : String) :
    Alike fs root root' (.new root) (.new root') :=
  ⟨.new fs root, .new fs root', rfl⟩

theorem UpToDate.setOverlay (h : UpToDate fs root i) (slot : Option Overlay.Handle) :
    UpToDate fs root { i with overlay := slot } :=
  ⟨h.rooted, h.contents⟩

theorem Alike.setOverlay (h : Alike fs root root' i j) (slot : Option Overlay.Handle) :
    Alike fs root root' { i with overlay := slot } { j with overlay := slot } :=
  ⟨h.left.setOverlay slot, h.right.setOverlay slot, rfl⟩

/-- Opening an image that is up to date finds what is at its root. -/
theorem UpToDate.open {u : Use} {found : Contents.Found} (h : UpToDate fs root u.image)
    (hfound : Contents.ofRoot fs root = .ok found) :
    ∃ v, openContents.run.on fs u = (.ok found.contents, v) ∧
      v.image = { u.image with contents := some found.contents } := by
  rw [on_openContents]
  cases hopen : u.image.contents with
  | some c =>
    obtain ⟨skipped, hc⟩ := h.contents c hopen
    -- What is open is what was found at the root, and the files are the same as then.
    rw [hfound] at hc
    cases hc
    refine ⟨u, rfl, ?_⟩
    rw [← hopen]
  | none =>
    dsimp only
    rw [h.rooted, hfound]
    exact ⟨_, rfl, rfl⟩

theorem UpToDate.setContents (h : UpToDate fs root i)
    (hc : Contents.ofRoot fs root = .ok ⟨c, []⟩) :
    UpToDate fs root { i with contents := some c } := by
  refine ⟨h.rooted, fun c' hc' => ?_⟩
  cases hc'
  exact ⟨[], hc⟩

theorem UpToDate.setCanonical (h : UpToDate fs root i) (canonical : Option String) :
    UpToDate fs root { i with canonical := canonical } :=
  ⟨h.rooted, h.contents⟩

/-- Images that are alike open with what is at their roots, and stay alike. -/
theorem Alike.open (hroots : SameModules fs root root' c d) {u v : Use}
    (h : Alike fs root root' u.image v.image) :
    ∃ u' v', openContents.run.on fs u = (.ok c, u') ∧ openContents.run.on fs v = (.ok d, v') ∧
      Alike fs root root' u'.image v'.image := by
  obtain ⟨u', hu, hu'⟩ := h.left.open hroots.left
  obtain ⟨v', hv, hv'⟩ := h.right.open hroots.right
  refine ⟨u', v', hu, hv, ?_⟩
  rw [hu', hv']
  exact ⟨h.left.setContents hroots.left, h.right.setContents hroots.right, h.overlay⟩

/-! ## Steps put together -/

namespace Relates
variable {α β α' β' : Type} {R : α → β → Prop} {S : α' → β' → Prop}

theorem pure {a : α} {b : β} (h : R a b) :
    Relates fs root root' R (pure a : Step α) (pure b : Step β) :=
  fun _ _ halike => ⟨h, halike⟩

theorem bind {x : Step α} {y : Step β} {f : α → Step α'} {g : β → Step β'}
    (h : Relates fs root root' R x y)
    (hfg : ∀ a b, R a b → Relates fs root root' S (f a) (g b)) :
    Relates fs root root' S (x >>= f) (y >>= g) := by
  intro u v halike
  obtain ⟨hanswer, hafter⟩ := h u v halike
  exact hfg _ _ hanswer _ _ hafter

theorem note {x : Step α} {y : Step β} (n : Notice) (h : Relates fs root root' R x y) :
    Relates fs root root' R (do Image.note n; x) (do Image.note n; y) :=
  fun u v halike => h ⟨u.image, u.notices ++ [n]⟩ ⟨v.image, v.notices ++ [n]⟩ halike

/-- Queries that begin with steps are related if these and what follows are. -/
theorem lift {x : Step α} {y : Step β} {f : α → Query α'} {g : β → Query β'}
    {T : Except Error α' → Except Error β' → Prop} (h : Relates fs root root' R x y)
    (hfg : ∀ a b, R a b → Relates fs root root' T (f a).run (g b).run) :
    Relates fs root root' T (liftM x >>= f : Query α').run (liftM y >>= g : Query β').run := by
  intro u v halike
  obtain ⟨hanswer, hafter⟩ := h u v halike
  rw [Query.on_bind_of_ok fs u f (Query.on_lift fs u x),
    Query.on_bind_of_ok fs v g (Query.on_lift fs v y)]
  exact hfg _ _ hanswer _ _ hafter

/-- Queries put together are related if what follows is, by how the first ones end. -/
theorem query {q : Query α} {q' : Query β} {f : α → Query α'} {g : β → Query β'}
    {T : Except Error α → Except Error β → Prop} {T' : Except Error α' → Except Error β' → Prop}
    (h : Relates fs root root' T q.run q'.run)
    (hfg : ∀ r r', T r r' →
      Relates fs root root' T' (ExceptT.bindCont f r) (ExceptT.bindCont g r')) :
    Relates fs root root' T' (q >>= f).run (q' >>= g).run :=
  bind h hfg

/-- Queries that open their images are related by what is at the roots. -/
theorem opening (hroots : SameModules fs root root' c d) {f : Contents → Query α}
    {g : Contents → Query β} {T : Except Error α → Except Error β → Prop}
    (h : Relates fs root root' T (f c).run (g d).run) :
    Relates fs root root' T (openContents >>= f).run (openContents >>= g).run := by
  intro u v halike
  obtain ⟨u', v', hu, hv, hafter⟩ := halike.open hroots
  rw [Query.on_bind_of_ok fs u f hu, Query.on_bind_of_ok fs v g hv]
  exact h u' v' hafter

end Relates

namespace AnswersAlike
variable {α β : Type}

theorem pure (a : α) : AnswersAlike fs root root' (pure a) := Relates.pure rfl

theorem bind {x : Step α} {f : α → Step β} (h : AnswersAlike fs root root' x)
    (hf : ∀ a, AnswersAlike fs root root' (f a)) : AnswersAlike fs root root' (x >>= f) :=
  Relates.bind h fun a _ hab => hab ▸ hf a

theorem closed : Closed Step (AnswersAlike fs root root') := ⟨pure, bind⟩

theorem query {q : Query α} {f : α → Query β} (h : AnswersAlike fs root root' q.run)
    (hf : ∀ a, AnswersAlike fs root root' (f a).run) : AnswersAlike fs root root' (q >>= f).run :=
  closed.exceptT.bind h hf

end AnswersAlike

end

/-! ## Visits -/

/-- What a visitor does that acts on its own state only, and may fail. -/
def Visit.own {σ α : Type} (f : σ → Except Error α × σ) : Visit σ α :=
  ExceptT.mk fun s => pure (f s)

/-- From any state of the visitor, a part of a visit answers alike. -/
def Visit.AnswersAlike (fs : FileSystem) (root root' : String) {σ α : Type} (x : Visit σ α) :
    Prop :=
  ∀ s (u v : Use), Alike fs root root' u.image v.image → (x.from s fs u).1 = (x.from s fs v).1 ∧
    Alike fs root root' (x.from s fs u).2.image (x.from s fs v).2.image

namespace Visit.AnswersAlike
variable {fs : FileSystem} {root root' : String} {σ α β : Type}

theorem own (f : σ → Except Error α × σ) : Visit.AnswersAlike fs root root' (Visit.own f) :=
  fun _ _ _ halike => ⟨rfl, halike⟩

/-- Parts of visits that answer alike do so when they are put together. -/
theorem closed : Closed (Visit σ) (Visit.AnswersAlike fs root root') :=
  Image.AnswersAlike.closed.stateT.exceptT

end Visit.AnswersAlike

end PlatformImage.Image
