import PlatformImage.Entry.Basic
import PlatformImage.Proofs.Closed
import PlatformImage.Proofs.Runs
/-! What the lookups of an entry answer in an image that opens, and what they leave. Of these
only the search for a type can fail, and that only where the program ends. -/
namespace PlatformImage.Entry

open Image (Query Step Use)

variable {contents : Image.Contents} {fs : FileSystem} {u v : Use}

theorem on_isPackage (hopen : Image.openContents.run.on fs u = (.ok contents, v)) (package : String)
    (filter : Image.Filter) :
    (isPackage package filter).on fs u =
      if Image.packagePath package = "" then (false, u)
      else ((contents.admitted filter.admits).any fun m =>
        m.2.hasPackage (Image.packagePath package), v) := by
  unfold isPackage
  rw [Step.on_bind]
  by_cases hempty : Image.packagePath package = ""
  · rw [Image.on_isPackage hopen, if_pos hempty, if_pos hempty]
    rfl
  · rw [Image.on_isPackage hopen, if_neg hempty, if_neg hempty]
    rfl

/-- What becomes of a file that cannot be read: nothing is found, and it is noted; but where the
    program ends, it does. -/
def unread {α : Type} (e : Image.Error) (v : Use) : Except Image.Error (Option α) × Use :=
  if e.isFatal then (.error e, v)
  else (.ok none, { v with notices := v.notices ++ [.unreadUnit] })

theorem unread_ne_some {α : Type} {a : α} {e : Image.Error} : (unread e v).1 ≠ .ok (some a) := by
  unfold unread
  split <;> simp

theorem fst_unread {α : Type} (e : Image.Error) (u v : Use) :
    (unread e u : Except Image.Error (Option α) × Use).1 = (unread e v).1 := by
  unfold unread
  split <;> rfl

/-- Reading a file, case by case. -/
theorem on_readUnit?_eq (unit : String) (filter : Image.Filter) (fs : FileSystem) (u : Use) :
    (readUnit? unit filter).run.on fs u =
      match (Image.readUnit unit filter).run.on fs u with
      | (.ok found, v) => (.ok found, v)
      | (.error e, v) => unread e v := by
  unfold readUnit? unread
  rw [Query.on_bind_of_ok fs u _ (Query.on_lift fs u _)]
  rcases (Image.readUnit unit filter).run.on fs u with ⟨outcome, v⟩
  cases outcome with
  | ok found => rfl
  | error e =>
    dsimp only
    split <;> rfl

theorem on_readUnit? (hopen : Image.openContents.run.on fs u = (.ok contents, v)) (unit : String)
    (filter : Image.Filter) :
    (readUnit? unit filter).run.on fs u =
      match Image.firstUnit fs unit (contents.admitted filter.admits) with
      | .ok found => (.ok found, v)
      | .error e => unread e v := by
  rw [on_readUnit?_eq, Image.on_readUnit hopen]
  cases Image.firstUnit fs unit (contents.admitted filter.admits) <;> rfl

/-- The type in a file that was found, with its annotations and the restriction on it. -/
def typeIn (e : Entry) (unit : String) (found : Image.BinaryUnit) : Query (Option FoundType) :=
  match ClassFile.BinaryType.parse found.content with
  | .error _ => do
    liftM (Image.note .malformedUnit)
    return none
  | .ok t => do
    let t ← attachOverlays (typePath unit) t e.annotationPaths
    return some ⟨t, e.rules.restriction? (typePath unit), found.module⟩

theorem findType_eq_typeIn (e : Entry) (package unit : String) (filter : Image.Filter) :
    e.findType package unit filter = (do
      if !(← liftM (isPackage package filter)) then return none
      match ← readUnit? unit filter with
      | none => return none
      | some found => e.typeIn unit found) :=
  rfl

/-- Looking for a type, case by case. -/
theorem on_findType (hopen : Image.openContents.run.on fs u = (.ok contents, v)) (e : Entry)
    (package unit : String) (filter : Image.Filter) :
    (e.findType package unit filter).run.on fs u =
      if Image.packagePath package = "" then (.ok none, u)
      else if (contents.admitted filter.admits).any
          (fun m => m.2.hasPackage (Image.packagePath package)) then
        match Image.firstUnit fs unit (contents.admitted filter.admits) with
        | .ok (some found) => (e.typeIn unit found).run.on fs v
        | .ok none => (.ok none, v)
        | .error why => unread why v
      else (.ok none, v) := by
  rw [findType_eq_typeIn, Query.on_bind_of_ok fs u _ (Query.on_lift fs u _), on_isPackage hopen]
  split
  · rfl
  · cases hhas : (contents.admitted filter.admits).any fun m =>
      m.2.hasPackage (Image.packagePath package) with
    | false => rfl
    | true =>
      simp only [Bool.not_true, Bool.false_eq_true, if_false, if_true]
      have hread := on_readUnit? (Image.on_openContents_again hopen) unit filter
      cases hfirst : Image.firstUnit fs unit (contents.admitted filter.admits) with
      | error why =>
        rw [hfirst] at hread
        dsimp only at hread ⊢
        unfold unread at hread ⊢
        split at hread
        · next hend => rw [Query.on_bind_of_error fs v _ hread, if_pos hend]
        · next hnoted =>
          rw [Query.on_bind_of_ok fs v _ hread, if_neg hnoted]
          rfl
      | ok found? =>
        rw [hfirst] at hread
        rw [Query.on_bind_of_ok fs v _ hread]
        cases found? <;> rfl

/-- Trying an overlay, case by case. -/
theorem on_attachOverlays_cons (typePath : String) (t : ClassFile.BinaryType) (overlay : String)
    (rest : List String) (u : Image.Use) :
    (attachOverlays typePath t (overlay :: rest)).run.on fs u =
      match Overlay.lookUp fs overlay typePath u.image.overlay with
      | (.ok (some bytes), slot) =>
        (.ok { t with annotations := some ⟨overlay, typePath, bytes⟩ },
          { u with image := { u.image with overlay := slot } })
      | (.ok none, slot) =>
        (attachOverlays typePath t rest).run.on fs
          { u with image := { u.image with overlay := slot } }
      | (.error e, slot) =>
        if e = .fatal then
          (.error (.fatal overlay), { u with image := { u.image with overlay := slot } })
        else (attachOverlays typePath t rest).run.on fs
          ⟨{ u.image with overlay := slot }, u.notices ++ [.skippedOverlay]⟩ := by
  rw [attachOverlays, Query.on_bind_of_ok fs u _ (Query.on_read fs u),
    Query.on_bind_of_ok fs u _ (Query.on_lift fs u _), Step.on_current]
  unfold Overlay.attach?
  dsimp only
  obtain ⟨outcome, slot⟩ := Overlay.lookUp fs overlay typePath u.image.overlay
  rw [Query.on_bind_of_ok fs u _ (Query.on_lift fs u _), Step.on_modifyImage]
  cases outcome with
  | error e =>
    dsimp only [Except.map]
    split
    · rfl
    · rw [Query.on_bind_of_ok fs _ _ (Query.on_lift fs _ _), Step.on_note]
  | ok content? => cases content? <;> rfl

/-! ## Failures -/

/-- Where a query fails, the program ends. -/
def FailsAtEnd {α : Type} (q : Query α) : Prop :=
  ∀ fs u e, (q.run.on fs u).1 = .error e → e.isFatal

theorem FailsAtEnd.closed : Closed Query FailsAtEnd where
  pure _ _ _ _ := nofun
  bind {_ _ q f} hq hf fs u e h := by
    rcases hrun : q.run.on fs u with ⟨outcome, w⟩
    cases outcome with
    | ok a =>
      rw [Query.on_bind_of_ok fs u _ hrun] at h
      exact hf a fs w e h
    | error why =>
      rw [Query.on_bind_of_error fs u _ hrun] at h
      cases h
      exact hq fs u e (by rw [hrun])

theorem FailsAtEnd.lift {α : Type} (x : Step α) : FailsAtEnd (liftM x : Query α) :=
  fun _ _ _ => nofun

theorem failsAtEnd_readUnit? (unit : String) (filter : Image.Filter) :
    FailsAtEnd (readUnit? unit filter) := by
  intro fs u e h
  rw [on_readUnit?_eq] at h
  split at h
  · cases h
  · next why v _ =>
    unfold unread at h
    split at h
    · next hend =>
      cases h
      exact hend
    · cases h

theorem failsAtEnd_attachOverlays (typePath : String) (t : ClassFile.BinaryType)
    (overlays : List String) : FailsAtEnd (attachOverlays typePath t overlays) := by
  intro fs u e h
  induction overlays generalizing u with
  | nil => cases h
  | cons overlay rest ih =>
    rw [on_attachOverlays_cons] at h
    split at h
    · cases h
    · exact ih _ h
    · split at h
      · cases h
        rfl
      · exact ih _ h

/-- A search for a type fails only where the program ends. -/
theorem failsAtEnd_findType (e : Entry) (package unit : String) (filter : Image.Filter) :
    FailsAtEnd (e.findType package unit filter) := by
  have hclosed := FailsAtEnd.closed
  refine hclosed.bind (.lift _) fun found => ?_
  cases found with
  | false => exact hclosed.pure none
  | true =>
    refine hclosed.bind (failsAtEnd_readUnit? unit filter) fun found? => ?_
    cases found? with
    | none => exact hclosed.pure none
    | some found =>
      dsimp only
      cases ClassFile.BinaryType.parse found.content with
      | error why => exact hclosed.bind (.lift _) fun _ => hclosed.pure none
      | ok t => exact hclosed.bind (failsAtEnd_attachOverlays _ t _) fun _ => hclosed.pure _

end PlatformImage.Entry
