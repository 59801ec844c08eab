import PlatformImage.Image.Walk
/-! Properties that programs of a monad keep when they are put together.

Such a property holds of a walk as soon as it holds of what the visitor does
(`Closed.walk`), and it passes to programs that may fail or have a state of their own
(`Closed.exceptT`, `Closed.stateT`). So what holds of every use of an image is proved of
the few steps that look at the image, and of the rest by how they are made of these. -/
namespace PlatformImage

/-- A property of programs that holds of those that do nothing, and of one after the
    other. -/
structure Closed (m : Type → Type) [Monad m] (C : ∀ {α : Type}, m α → Prop) : Prop where
  pure : ∀ {α : Type} (a : α), C (Pure.pure a : m α)
  bind : ∀ {α β : Type} {x : m α} {f : α → m β}, C x → (∀ a, C (f a)) → C (x >>= f)

namespace Closed
variable {m : Type → Type} [Monad m] {C : ∀ {α : Type}, m α → Prop} {α β ε σ : Type}

section
variable (h : Closed m C)
include h

/-- Of programs that may fail it holds if it holds of them as programs with an outcome. -/
theorem exceptT : Closed (ExceptT ε m) fun x => C x.run where
  pure a := h.pure (Except.ok a)
  bind {_ β _ _} hx hf := by
    refine h.bind hx fun outcome => ?_
    cases outcome with
    | ok a => exact hf a
    | error e => exact h.pure (Except.error e : Except ε β)

/-- Of programs with a state it holds if it holds of them from each state. -/
theorem stateT : Closed (StateT σ m) fun x => ∀ s, C (x.run s) where
  pure a s := h.pure (a, s)
  bind hx hf s := h.bind (hx s) fun r => hf r.1 r.2

theorem forM {as : List α} {f : α → m PUnit} (hf : ∀ a, C (f a)) : C (as.forM f) := by
  induction as with
  | nil => exact h.pure _
  | cons a as ih =>
    rw [List.forM_eq_forM, List.forM_cons]
    exact h.bind (hf a) fun _ => ih

variable [LawfulMonad m]

theorem map {x : m α} (hx : C x) (f : α → β) : C (f <$> x) := by
  rw [map_eq_pure_bind]
  exact h.bind hx fun a => h.pure (f a)

theorem discard {x : m α} (hx : C x) : C (discard x) := by
  unfold Functor.discard
  rw [LawfulFunctor.map_const]
  exact h.map hx _

theorem mapM {as : List α} {f : α → m β} (hf : ∀ a, C (f a)) : C (as.mapM f) := by
  induction as with
  | nil =>
    rw [List.mapM_nil]
    exact h.pure []
  | cons a as ih =>
    rw [List.mapM_cons]
    exact h.bind (hf a) fun b => h.bind ih fun bs => h.pure (b :: bs)

end

/-! ## Walks -/

section
open Image (Event Answer Folder Mode Contents)
variable [LawfulMonad m] (h : Closed m C) {visit : Event → m Answer} (hvisit : ∀ e, C (visit e))
include h hvisit

theorem walkPending (owner : String) (pending : List Folder) :
    C (Image.walkPending visit owner pending) := by
  induction pending using Image.walkPending.induct with
  | case1 =>
    rw [Image.walkPending]
    exact h.pure ()
  | case2 path files folders rest ih =>
    rw [Image.walkPending]
    exact h.bind (h.forM fun _ => h.discard (hvisit _)) fun _ =>
      h.bind (h.mapM fun _ => hvisit _) fun answers => ih answers

theorem walk (mode : Mode) (c : Contents) : C (c.walk visit mode) := by
  refine h.forM fun m => h.bind (hvisit (.module m.1)) fun answer => ?_
  split
  · exact h.walkPending hvisit m.1 _
  · exact h.pure ()

end

end Closed

end PlatformImage
