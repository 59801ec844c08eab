import PlatformImage.Image.Walk
/-! What steps, queries and visits do from a given state: each run gives the
answer and the state after it, and runs one after the other compose. Opening an image
is the step that all queries begin with, and a second one finds what the first one
found (`on_openContents_again`). -/
namespace PlatformImage.Image

variable {α β σ : Type}

/-- What a step answers and leaves, in a file system and from a use of an image. -/
def Step.on (x : Step α) (fs : FileSystem) (u : Use) : α × Use := (x.run fs).run u

/-- What a part of a visit answers and leaves, from a state of the visitor. -/
def Visit.from (v : Visit σ α) (s : σ) (fs : FileSystem) (u : Use) : (Except Error α × σ) × Use :=
  (v.run.run s).on fs u

/-! ## Steps -/

namespace Step
variable (fs : FileSystem) (u : Use)

@[simp] theorem on_pure (a : α) : (pure a : Step α).on fs u = (a, u) := rfl

@[simp] theorem on_bind (x : Step α) (f : α → Step β) :
    (x >>= f).on fs u = (f (x.on fs u).1).on fs (x.on fs u).2 := rfl

@[simp] theorem on_read : (read : Step FileSystem).on fs u = (fs, u) := rfl

@[simp] theorem on_current : current.on fs u = (u.image, u) := rfl

@[simp] theorem on_note (n : Notice) :
    (note n).on fs u = ((), { u with notices := u.notices ++ [n] }) := rfl

@[simp] theorem on_modifyImage (f : Image → Image) :
    (modifyImage f).on fs u = ((), { u with image := f u.image }) := rfl

end Step

/-! ## Queries -/

namespace Query
variable (fs : FileSystem) (u : Use)

@[simp] theorem on_pure (a : α) : (pure a : Query α).run.on fs u = (.ok a, u) := rfl

@[simp] theorem on_lift (x : Step α) :
    (liftM x : Query α).run.on fs u = (.ok (x.on fs u).1, (x.on fs u).2) := rfl

theorem on_read : (read : Query FileSystem).run.on fs u = (.ok fs, u) := rfl

theorem on_bind_of_ok {q : Query α} {a : α} {v : Use} (f : α → Query β)
    (h : q.run.on fs u = (.ok a, v)) : (q >>= f).run.on fs u = (f a).run.on fs v := by
  change (ExceptT.run q >>= ExceptT.bindCont f).on fs u = _
  rw [Step.on_bind, h]
  rfl

theorem on_bind_of_error {q : Query α} {e : Error} {v : Use} (f : α → Query β)
    (h : q.run.on fs u = (.error e, v)) : (q >>= f).run.on fs u = (.error e, v) := by
  change (ExceptT.run q >>= ExceptT.bindCont f).on fs u = _
  rw [Step.on_bind, h]
  rfl

theorem on_bind_pure (q : Query α) (g : α → β) :
    (q >>= fun a => pure (g a)).run.on fs u =
      ((q.run.on fs u).1.map g, (q.run.on fs u).2) := by
  rcases h : q.run.on fs u with ⟨outcome, v⟩
  cases outcome with
  | ok a => rw [on_bind_of_ok fs u _ h]; rfl
  | error e => rw [on_bind_of_error fs u _ h]; rfl

end Query

/-! ## Visits -/

namespace Visit
variable (s : σ) (fs : FileSystem) (u : Use)

@[simp] theorem from_pure (a : α) : (pure a : Visit σ α).from s fs u = ((.ok a, s), u) := rfl

theorem from_bind_of_ok {x : Visit σ α} {a : α} {t : σ} {v : Use} (f : α → Visit σ β)
    (h : x.from s fs u = ((.ok a, t), v)) : (x >>= f).from s fs u = (f a).from t fs v := by
  change (StateT.run (ExceptT.run x >>= ExceptT.bindCont f) s).on fs u = _
  rw [StateT.run_bind, Step.on_bind]
  change x.from s fs u = _ at h
  unfold Visit.from at h
  rw [h]
  rfl

theorem from_bind_of_error {x : Visit σ α} {e : Error} {t : σ} {v : Use} (f : α → Visit σ β)
    (h : x.from s fs u = ((.error e, t), v)) : (x >>= f).from s fs u = ((.error e, t), v) := by
  change (StateT.run (ExceptT.run x >>= ExceptT.bindCont f) s).on fs u = _
  rw [StateT.run_bind, Step.on_bind]
  unfold Visit.from at h
  rw [h]
  rfl

theorem from_lift (x : Step α) :
    (liftM x : Visit σ α).from s fs u = ((.ok (x.on fs u).1, s), (x.on fs u).2) := rfl

theorem from_ofQuery (q : Query α) :
    (ofQuery q : Visit σ α).from s fs u = (((q.run.on fs u).1, s), (q.run.on fs u).2) := rfl

end Visit

/-- How a walk ends: with the error of its visit, or without one. -/
def walkEnd : (Except Error Unit × σ) × Use → (Option Error × σ) × Use
  | ((.ok _, s), v) => ((none, s), v)
  | ((.error e, s), v) => ((some e, s), v)

theorem on_walkFrom_eq (start : σ) (visit : Event → Visit σ Answer) (mode : Mode)
    (fs : FileSystem) (u : Use) :
    (walkFrom start visit mode).on fs u = walkEnd ((walk visit mode).from start fs u) := by
  unfold walkFrom Visit.from
  rw [Step.on_bind]
  generalize ((walk visit mode).run.run start).on fs u = run
  obtain ⟨⟨outcome, s⟩, v⟩ := run
  cases outcome <;> rfl

/-! ## Opening -/

/-- What is noted when an image is opened. -/
def openNotices (found : Contents.Found) : List Notice :=
  found.skipped.map (fun _ => skipNotice found.contents.layout) ++ [.opened]

theorem on_forM_note (fs : FileSystem) (u : Use) (as : List α) (n : Notice) :
    (as.forM fun _ => (liftM (note n) : Query Unit)).run.on fs u =
      (.ok (), { u with notices := u.notices ++ as.map fun _ => n }) := by
  induction as generalizing u with
  | nil => simp
  | cons a as ih =>
    rw [List.forM_eq_forM, List.forM_cons, Query.on_bind_of_ok fs u _ (Query.on_lift fs u (note n))]
    rw [List.forM_eq_forM] at ih
    simp [ih]

/-- Opening an image, case by case. -/
theorem on_openContents (fs : FileSystem) (u : Use) :
    openContents.run.on fs u =
      match u.image.contents with
      | some c => (.ok c, u)
      | none =>
        match Contents.ofRoot fs u.image.root with
        | .ok found => (.ok found.contents,
            ⟨{ u.image with contents := some found.contents }, u.notices ++ openNotices found⟩)
        | .error (.unsupportedLayout path) =>
          (.error (.unsupportedLayout path), (reportLayout.on fs u).2)
        | .error e => (.error e, u) := by
  unfold openContents
  rw [Query.on_bind_of_ok fs u _ (Query.on_lift fs u current), Step.on_current]
  cases hc : u.image.contents with
  | some c => simp
  | none =>
    dsimp only
    rw [Query.on_bind_of_ok fs u _ (Query.on_read fs u),
      Query.on_bind_of_ok fs u _ (Query.on_lift fs u current), Step.on_current]
    cases ho : Contents.ofRoot fs u.image.root with
    | error e =>
      cases e with
      | unsupportedLayout path =>
        exact Query.on_bind_of_ok fs u _ (Query.on_lift fs u reportLayout)
      | _ => rfl
    | ok found =>
      dsimp only
      rw [Query.on_bind_of_ok fs u _ (on_forM_note fs u found.skipped _),
        Query.on_bind_of_ok _ _ _ (Query.on_lift _ _ _),
        Query.on_bind_of_ok _ _ _ (Query.on_lift _ _ _)]
      simp [openNotices]

section
variable {c : Contents} {fs : FileSystem} {u v : Use}

theorem contents_of_open (hopen : openContents.run.on fs u = (.ok c, v)) :
    v.image.contents = some c := by
  rw [on_openContents] at hopen
  split at hopen
  · next hc => cases hopen; exact hc
  · split at hopen <;> cases hopen
    rfl

theorem on_openContents_of_some (hc : u.image.contents = some c) :
    openContents.run.on fs u = (.ok c, u) := by
  rw [on_openContents, hc]

/-- Opening an image about which nothing is known yet. -/
theorem on_openContents_new {root : String} {found : Contents.Found}
    (hfound : Contents.ofRoot fs root = .ok found) :
    openContents.run.on fs ⟨.new root, []⟩ = (.ok found.contents,
      ⟨{ Image.new root with contents := some found.contents }, openNotices found⟩) := by
  rw [on_openContents]
  simp only [Image.new, hfound, List.nil_append]

/-- What is open stays open, and is the same. -/
theorem on_openContents_again (hopen : openContents.run.on fs u = (.ok c, v)) :
    openContents.run.on fs v = (.ok c, v) :=
  on_openContents_of_some (contents_of_open hopen)

/-! ## Queries of an image that opens -/

theorem on_moduleNames (hopen : openContents.run.on fs u = (.ok c, v)) :
    moduleNames.run.on fs u = (.ok c.modules.keys, v) := by
  unfold moduleNames
  rw [Query.on_bind_of_ok fs u _ hopen, Query.on_pure]

theorem on_isPackage (hopen : openContents.run.on fs u = (.ok c, v)) (package : String)
    (filter : Filter) :
    (isPackage package filter).run.on fs u =
      if packagePath package = "" then (.ok false, u)
      else (.ok ((c.admitted filter.admits).any fun m => m.2.hasPackage (packagePath package)),
        v) := by
  unfold isPackage
  split
  · next h => rw [if_pos h, Query.on_pure]
  · next h => rw [if_neg h, Query.on_bind_of_ok fs u _ hopen, Query.on_pure]

theorem on_readUnit (hopen : openContents.run.on fs u = (.ok c, v)) (name : String)
    (filter : Filter) :
    (readUnit name filter).run.on fs u = (firstUnit fs name (c.admitted filter.admits), v) := by
  unfold readUnit
  rw [Query.on_bind_of_ok fs u _ hopen, Query.on_bind_of_ok fs v _ (Query.on_read fs v)]
  cases firstUnit fs name (c.admitted filter.admits) <;> rfl

theorem on_readModuleUnit (hopen : openContents.run.on fs u = (.ok c, v)) (name path : String) :
    (readModuleUnit name path).run.on fs u =
      match c.modules.get? name with
      | none => (.ok none, v)
      | some m => (m.read fs path, v) := by
  unfold readModuleUnit
  rw [Query.on_bind_of_ok fs u _ hopen]
  cases c.modules.get? name with
  | none => rfl
  | some m =>
    dsimp only
    rw [Query.on_bind_of_ok fs v _ (Query.on_read fs v)]
    cases m.read fs path <;> rfl

/-- A walk through an image is one through the contents that it opens with. -/
theorem from_walk (hopen : openContents.run.on fs u = (.ok c, v)) (visit : Event → Visit σ Answer)
    (mode : Mode) (s : σ) :
    Visit.from (walk visit mode) s fs u = Visit.from (c.walk visit mode) s fs v := by
  refine Visit.from_bind_of_ok s fs u _ ?_
  rw [Visit.from_ofQuery, hopen]

end

end PlatformImage.Image
