import PlatformImage.Entry.Scope
import PlatformImage.Proofs.Closed
/-! What is to be shown of a property of steps so that it holds of everything that is asked.

A query of an image, a walk or a lookup of an entry is put together of opening the image,
looking at the files and giving notices (`OpeningRule`). What an entry is asked for besides
looks at the paths of the image and attaches overlays (`UseRule`). So a property that is kept
when steps are put together is shown for these few, and then holds of all the others. -/
namespace PlatformImage

/-- Whether a notice is neither about the contents being opened or closed, nor about the
    layout. -/
def Notice.isAside : Notice → Bool
  | opened => false
  | closed => false
  | unsupportedLayout => false
  | _ => true

namespace Image

/-- A property of steps that holds of what queries are made of. -/
structure OpeningRule (P : ∀ {α : Type}, Step α → Prop) : Prop extends Closed Step P where
  files : P (read : Step FileSystem)
  note : ∀ n : Notice, n.isAside → P (Image.note n)
  opens : P openContents.run

/-- A property of steps that holds of what all uses are made of, closing apart; of overlays
    only those given are used. -/
structure UseRule (overlays : String → Prop) (P : ∀ {α : Type}, Step α → Prop) : Prop
    extends OpeningRule P where
  image : P current
  canonical : P canonicalPath
  normalized : P normalizedPath
  type : ∀ (e : Entry) (package unit : String) (filter : Filter),
    (∀ p ∈ e.annotationPaths, overlays p) → P (e.findType package unit filter).run

/-! ## Queries, walks and lookups -/

namespace OpeningRule
variable {P : ∀ {α : Type}, Step α → Prop} (h : OpeningRule P) {α σ : Type}
include h

theorem query : Closed Query fun q => P q.run := h.exceptT

theorem visit : Closed (Visit σ) fun v => ∀ s, P (v.run.run s) := h.stateT.exceptT

theorem lift {x : Step α} (hx : P x) : P (liftM x : Query α).run := h.map hx Except.ok

theorem fail (e : Error) : P (throw e : Query α).run := h.pure (Except.error e)

theorem opening {f : Contents → Query α} (hf : ∀ c, P (f c).run) : P (openContents >>= f).run :=
  h.query.bind h.opens hf

theorem layout : P layout.run := h.opening fun c => h.query.pure c.layout

theorem moduleNames : P moduleNames.run := h.opening fun c => h.query.pure c.modules.keys

theorem isPackage (package : String) (filter : Filter) : P (isPackage package filter).run := by
  unfold Image.isPackage
  dsimp only
  split
  · exact h.query.pure false
  · exact h.opening fun _ => h.query.pure _

theorem readUnit (name : String) (filter : Filter) : P (readUnit name filter).run := by
  refine h.opening fun c => h.query.bind (h.lift h.files) fun fs => ?_
  cases firstUnit fs name (c.admitted filter.admits) with
  | ok unit => exact h.query.pure unit
  | error e => exact h.pure (Except.error e)

theorem readModuleUnit (owner path : String) : P (readModuleUnit owner path).run := by
  refine h.opening fun c => ?_
  cases c.modules.get? owner with
  | none => exact h.query.pure none
  | some m =>
    refine h.query.bind (h.lift h.files) fun fs => ?_
    cases m.read fs path with
    | ok content => exact h.query.pure content
    | error e => exact h.pure (Except.error e)

/-- Of a walk it holds if it holds of what the visitor does. -/
theorem walkFrom {visit : Event → Visit σ Answer} (hvisit : ∀ e s, P ((visit e).run.run s))
    (start : σ) (mode : Mode) : P (walkFrom start visit mode) := by
  have hopen (s : σ) : P ((Visit.ofQuery openContents : Visit σ Contents).run.run s) :=
    h.bind h.opens fun c => h.pure (c, s)
  have hwalk : P ((walk visit mode).run.run start) :=
    h.visit.bind hopen (fun c => h.visit.walk hvisit mode c) start
  refine h.bind hwalk fun result => ?_
  obtain ⟨outcome, final⟩ := result
  cases outcome <;> exact h.pure _

/-- A step as part of a visit. -/
theorem visiting {x : Step α} (hx : P x) (s : σ) : P ((liftM x : Visit σ α).run.run s) := by
  have hstate : ∀ s : σ, P ((StateT.lift x : StateT σ Step α).run s) :=
    fun s => h.bind hx fun a => h.pure (a, s)
  exact h.stateT.map hstate Except.ok s

/-- Whatever a scan is told of, it reads descriptors only. -/
theorem scanVisit (e : Event) (found : List ClassFile.ModuleDescriptor) :
    P ((Registry.visit e).run.run found) := by
  have hanswer : ∀ s : List ClassFile.ModuleDescriptor,
      P ((pure .skip : Visit (List ClassFile.ModuleDescriptor) Answer).run.run s) :=
    h.visit.pure Answer.skip
  cases e with
  | folder path owner => exact h.visit.pure Answer.enter found
  | file path owner => exact h.visit.pure Answer.enter found
  | module name =>
    refine h.visit.bind (h.visiting (h.readModuleUnit name descriptorFile)) (fun outcome => ?_) found
    cases outcome with
    | error e =>
      dsimp only
      split
      · exact fun s => h.pure (Except.error e, s)
      · exact h.visit.bind (h.visiting (h.note _ rfl)) fun _ => hanswer
    | ok content? =>
      cases content? with
      | none => exact h.visit.bind (h.visiting (h.note _ rfl)) fun _ => hanswer
      | some content =>
        dsimp only
        cases ClassFile.ModuleDescriptor.parse content with
        | error e => exact h.visit.bind (h.visiting (h.note _ rfl)) fun _ => hanswer
        | ok d =>
          have hkept : ∀ s : List ClassFile.ModuleDescriptor,
              P ((do modify (· ++ [d]); return .skip : Visit _ Answer).run.run s) :=
            fun s => h.pure (Except.ok Answer.skip, s ++ [d])
          dsimp only
          split
          · exact h.visit.bind (h.visiting (h.note _ rfl)) fun _ => hkept
          · exact hkept

theorem scan : P Registry.scan.run := by
  refine h.query.bind (h.lift (h.walkFrom h.scanVisit [] .modulesOnly)) fun result => ?_
  obtain ⟨error?, found⟩ := result
  cases error? with
  | none => exact h.query.pure _
  | some e =>
    dsimp only
    split
    · exact h.fail e
    · exact h.query.pure _

theorem entryPackage (package : String) (filter : Filter) : P (Entry.isPackage package filter) := by
  refine h.bind (h.isPackage package filter) fun outcome => ?_
  cases outcome with
  | ok found => exact h.pure found
  | error e => exact h.bind (h.note _ rfl) fun _ => h.pure false

theorem entryUnit (unit : String) (filter : Filter) : P (Entry.readUnit? unit filter).run := by
  refine h.query.bind (h.lift (h.readUnit unit filter)) fun outcome => ?_
  cases outcome with
  | ok found => exact h.query.pure found
  | error e =>
    dsimp only
    split
    · exact h.fail e
    · exact h.query.bind (h.lift (h.note _ rfl)) fun _ => h.query.pure none

theorem findTypeNames (package : String) (filter : Filter) :
    P (Entry.findTypeNames package filter) := by
  refine h.bind (h.entryPackage _ filter) fun found => ?_
  cases found with
  | false => exact h.pure none
  | true =>
    have hvisit (e : Event) (s : List Entry.TypeName) :
        P ((Entry.Collector.visit ⟨packagePath package, filter⟩ e).run.run s) :=
      h.pure (Except.ok (Entry.Collector.answer ⟨packagePath package, filter⟩ e),
        (Entry.Collector.collect ⟨packagePath package, filter⟩ s e).2)
    refine h.bind (h.walkFrom hvisit [] .everything) fun result => ?_
    obtain ⟨error?, names⟩ := result
    cases error? with
    | none => exact h.pure _
    | some e => exact h.bind (h.note _ rfl) fun _ => h.pure _

/-- Of the search for a type it holds if it holds of attaching overlays. -/
theorem findType {e : Entry}
    (hattach : ∀ typePath t, P (Entry.attachOverlays typePath t e.annotationPaths).run)
    (package unit : String) (filter : Filter) : P (e.findType package unit filter).run := by
  refine h.query.bind (h.lift (h.entryPackage package filter)) fun found => ?_
  cases found with
  | false => exact h.query.pure none
  | true =>
    refine h.query.bind (h.entryUnit unit filter) fun unit? => ?_
    cases unit? with
    | none => exact h.query.pure none
    | some found =>
      dsimp only
      cases ClassFile.BinaryType.parse found.content with
      | error e => exact h.query.bind (h.lift (h.note _ rfl)) fun _ => h.query.pure none
      | ok t => exact h.query.bind (hattach _ t) fun t => h.query.pure _

end OpeningRule

/-! ## All uses -/

namespace UseRule
open Entry (ModuleStep)
open Registry (Snapshot)
variable {overlays : String → Prop} {P : ∀ {α : Type}, Step α → Prop} (h : UseRule overlays P)
  {α : Type}
include h

theorem modules : Closed ModuleStep fun x => ∀ r, P (x.run r) := h.stateT

theorem lifted {x : Step α} (hx : P x) (r : Registry) : P ((liftM x : ModuleStep α).run r) :=
  h.bind hx fun a => h.pure (a, r)

theorem register (r : Registry) : P ((get : ModuleStep Registry).run r) := h.pure (r, r)

theorem publishFound (key : String) (found : List ClassFile.ModuleDescriptor) (r : Registry) :
    P ((Registry.publishFound key found).run r) := by
  unfold Registry.publishFound
  split
  · exact h.modules.bind (h.lifted (h.note _ rfl))
      (fun _ => h.modules.bind h.register fun _ => h.modules.pure _) r
  · exact h.modules.bind h.register (fun _ => h.modules.bind (fun r => h.pure ((), _))
      fun _ => h.modules.bind (h.lifted (h.note _ rfl)) fun _ => h.modules.pure _) r

theorem publishScan (key : String) (r : Registry) : P ((Registry.publishScan key).run r) := by
  refine h.modules.bind (h.lifted h.scan) (fun outcome => ?_) r
  cases outcome with
  | error e => exact h.modules.pure _
  | ok result =>
    obtain ⟨found, error?⟩ := result
    have hpublish := h.modules.bind (h.publishFound key found) fun s =>
      h.modules.pure (Except.ok s : Except Error (Option Snapshot))
    cases error? with
    | none => exact hpublish
    | some e => exact h.modules.bind (h.lifted (h.note _ rfl)) fun _ => hpublish

theorem loadModules (again : Bool) (r : Registry) : P ((Registry.loadModules again).run r) := by
  refine h.modules.bind (h.lifted h.canonical) (fun key => ?_) r
  refine h.modules.bind h.register fun known => ?_
  cases known.snapshot? key with
  | none => exact h.publishScan key
  | some s =>
    cases again with
    | true => exact h.publishScan key
    | false => exact h.modules.pure _

theorem snapshot? (r : Registry) : P (Entry.snapshot?.run r) :=
  h.modules.bind (h.lifted h.canonical)
    (fun _ => h.modules.bind h.register fun _ => h.modules.pure _) r

theorem getModule (name : String) (r : Registry) : P ((Entry.getModule name).run r) :=
  h.modules.bind h.snapshot? (fun _ => h.modules.pure _) r

theorem servesModule (name : String) (r : Registry) : P ((Entry.servesModule name).run r) :=
  h.modules.bind h.snapshot? (fun _ => h.modules.pure _) r

theorem scope (module? : Option String) (r : Registry) : P ((Entry.Scope.of module?).run r) := by
  cases module? with
  | none => exact h.modules.pure _ r
  | some name =>
    refine h.modules.bind (h.servesModule name) (fun served => ?_) r
    cases served <;> exact h.modules.pure _

theorem scopePackage (s : Entry.Scope) (package : String) : P (s.isPackage package) := by
  unfold Entry.Scope.isPackage
  cases s.filter? with
  | none => exact h.pure false
  | some filter => exact h.entryPackage package filter

theorem scopeType (s : Entry.Scope) (e : Entry) (he : ∀ p ∈ e.annotationPaths, overlays p)
    (package unit : String) : P (s.findType e package unit).run := by
  unfold Entry.Scope.findType
  cases s.filter? with
  | none => exact h.query.pure none
  | some filter => exact h.type e package unit filter he

end UseRule

end Image

end PlatformImage
