import PlatformImage.Proofs.Loading
/-! What is published over a whole session.

A register changes only when descriptors are published, by a load or directly
(`Session.register_run`), and then what is registered for one image changes, and nothing is
forgotten (`Registry.snapshot?_publish`). So the numbers of snapshots count what was published, and
a load that does not insist publishes for an image once at most
(`Session.loading_never_forgets`). -/
namespace PlatformImage

open ClassFile (ModuleDescriptor)

namespace Registry

variable {r : Registry} {path q : String} {ds : List ModuleDescriptor}
  {scanned : Except Image.Error (List ModuleDescriptor)}

theorem lookup_filter_of_ne {key k : List String} {es : List (List String × Snapshot)} (h : k ≠ key) :
    (es.filter fun e => e.1 ≠ key).lookup k = es.lookup k := by
  induction es with
  | nil => rfl
  | cons e es ih =>
    obtain ⟨first, s⟩ := e
    rw [List.filter_cons]
    split
    · rw [List.lookup_cons, List.lookup_cons, ih]
    · next hkey =>
      have hfirst : (k == first) = false := by
        rw [beq_eq_false_iff_ne]
        rintro rfl
        exact hkey (decide_eq_true h)
      rw [List.lookup_cons, hfirst, ih]

/-- Publishing replaces the snapshot of one image, which paths with the same components name. -/
theorem snapshot?_publish (r : Registry) (path : String) (ds : List ModuleDescriptor) (q : String) :
    (r.publish path ds).snapshot? q =
      if Path.same q path then some (r.nextSnapshot path ds) else r.snapshot? q := by
  unfold publish snapshot? Path.same
  dsimp only
  rw [List.lookup_cons]
  cases hsame : Path.components q == Path.components path with
  | true => rfl
  | false => exact lookup_filter_of_ne (beq_eq_false_iff_ne.1 hsame)

theorem isPopulated_publish (h : r.isPopulated q) : (r.publish path ds).isPopulated q := by
  unfold isPopulated at h ⊢
  rw [snapshot?_publish]
  split
  · rfl
  · exact h

theorem isPopulated_same (h : Path.same q path) : r.isPopulated q = r.isPopulated path := by
  unfold isPopulated snapshot?
  rw [beq_iff_eq.1 h]

/-- The snapshots have numbers that were given already. -/
def Numbered (r : Registry) : Prop :=
  ∀ path s, r.snapshot? path = some s → s.generation ≤ r.generations

theorem Numbered.publish (h : r.Numbered) (path : String) (ds : List ModuleDescriptor) :
    (r.publish path ds).Numbered := by
  intro q s hs
  rw [snapshot?_publish] at hs
  split at hs
  · cases hs
    exact Nat.le_refl _
  · exact Nat.le_succ_of_le (h q s hs)

/-- A published snapshot is another one than before. -/
theorem Numbered.ne_nextSnapshot (h : r.Numbered) (path : String) (ds : List ModuleDescriptor) :
    r.snapshot? path ≠ some (r.nextSnapshot path ds) := by
  intro hsame
  exact Nat.not_succ_le_self _ (h path _ hsame)

/-! ## The outcomes of a load -/

theorem loaded_of_known {s : Snapshot} (h : r.snapshot? path = some s) :
    r.loaded false path scanned = (.ok (some s), r) := by
  unfold loaded
  simp only [h]

theorem loaded_nil (r : Registry) (again : Bool) (path : String) :
    (r.loaded again path (.ok [])).1 = .ok (r.snapshot? path) := by
  unfold loaded
  cases r.snapshot? path <;> cases again <;> rfl

theorem loaded_of_found {again : Bool} (hds : ds ≠ [])
    (hwanted : again = true ∨ r.snapshot? path = none) :
    (r.loaded again path (.ok ds)).1 = .ok (some (r.nextSnapshot path ds)) := by
  have hfound : ds.isEmpty = false := List.isEmpty_eq_false_iff.2 hds
  unfold loaded
  rcases hwanted with rfl | hnone
  · cases r.snapshot? path <;> simp only [hfound] <;> rfl
  · rw [hnone]
    cases again <;> simp only [hfound] <;> rfl

theorem loaded_of_failed {again : Bool} {e : Image.Error}
    (hwanted : again = true ∨ r.snapshot? path = none) :
    (r.loaded again path (.error e)).1 = .error e := by
  unfold loaded
  rcases hwanted with rfl | hnone
  · cases r.snapshot? path <;> rfl
  · simp only [hnone]

end Registry

/-! ## Steps that leave the register as it is -/

namespace Entry.ModuleStep

open Entry (servesModule)

variable {α : Type}

/-- A step leaves the register as it is. -/
def KeepsRegister (x : ModuleStep α) : Prop := ∀ r fs u, (on x r fs u).1.2 = r

theorem KeepsRegister.closed : Closed ModuleStep KeepsRegister where
  pure _ _ _ _ := rfl
  bind hx hf r fs u := by rw [on_bind, hf, hx]

theorem KeepsRegister.lift (x : Image.Step α) : KeepsRegister (liftM x) := fun _ _ _ => rfl

theorem KeepsRegister.snapshot? : KeepsRegister Entry.snapshot? := fun r fs u => by
  rw [Registry.on_snapshot?]

theorem KeepsRegister.servesModule (name : String) : KeepsRegister (Entry.servesModule name) :=
  fun r fs u => by rw [Registry.on_servesModule]

theorem KeepsRegister.scope (module? : Option String) : KeepsRegister (Scope.of module?) := by
  cases module? with
  | none => exact closed.pure _
  | some name =>
    refine closed.bind (servesModule name) fun served => ?_
    cases served <;> exact closed.pure _

end Entry.ModuleStep

namespace Session

open Entry (ModuleStep)
open Entry.ModuleStep (KeepsRegister)
open Registry (keyOf)

variable {s : Session} {name : String} {use : EntryUse} {image : Image}

/-- Only loads change the register of an entry. -/
theorem entryResult_register {request : EntryRequest} (hloads : request.loads? = none) :
    (s.entryResult use image request).1.2 = s.register use.register := by
  have hkeeps : KeepsRegister (request.step use.entry fun snapshot =>
      ⟨snapshot, use.register.isSome⟩) := by
    have hclosed := KeepsRegister.closed
    cases request with
    | prepare | load | reload => cases hloads
    | reset => exact hclosed.bind (.lift _) fun _ => hclosed.pure _
    | setOverlays paths => exact hclosed.pure _
    | snapshot => exact hclosed.bind .snapshot? fun _ => hclosed.pure _
    | serves names =>
      exact hclosed.bind (hclosed.mapM KeepsRegister.servesModule) fun _ => hclosed.pure _
    | getModule name =>
      exact hclosed.bind (hclosed.bind .snapshot? fun _ => hclosed.pure _) fun _ => hclosed.pure _
    | isPackage package filter => exact hclosed.bind (.lift _) fun _ => hclosed.pure _
    | findType package unit filter => exact hclosed.bind (.lift _) fun _ => hclosed.pure _
    | findTypeNames package filter => exact hclosed.bind (.lift _) fun _ => hclosed.pure _
    | lookUp module package unit =>
      exact hclosed.bind (.scope module) fun _ => hclosed.bind (.lift _) fun _ =>
        hclosed.bind (.lift _) fun _ => hclosed.pure _
    | info =>
      exact hclosed.bind (.lift _) fun _ => hclosed.bind (.lift _) fun _ =>
        hclosed.bind (.lift _) fun _ => hclosed.pure _
  exact hkeeps _ _ _

/-! ## Publications -/

/-- What is published: for which register, under which path, and whether it is published even if
    something is registered there. -/
structure Publication where
  register : Option String
  path : String
  descriptors : List ModuleDescriptor
  again : Bool

/-- What a load publishes: what a scan finds, unless that is nothing, or there is a snapshot
    already and no other is wanted. -/
def loadPublication? (s : Session) (use : EntryUse) (image : Image) (again : Bool) :
    Option Publication :=
  let path := keyOf s.files image
  let found := image.declared s.files
  if found = [] ∨ ((s.register use.register).isPopulated path ∧ again = false) then none
  else some ⟨use.register, path, found, again⟩

/-- What a request publishes. -/
def publication? (s : Session) : Request → Option Publication
  | .publish register path descriptors => some ⟨register, path, descriptors, true⟩
  | .useEntry name request => do
    let use ← s.entries.get? name
    let image ← s.images[use.image]?
    let again ← request.loads?
    s.loadPublication? use image again
  | _ => none

/-- How a request comes to publish something: directly, or by a load that finds descriptors where
    nothing is registered yet, or that insists. -/
inductive Publishes (s : Session) : Request → Publication → Prop
  | directly (register : Option String) (path : String) (descriptors : List ModuleDescriptor) :
    Publishes s (.publish register path descriptors) ⟨register, path, descriptors, true⟩
  | load {name : String} {use : EntryUse} {image : Image} {request : EntryRequest} {again : Bool}
    (huse : s.entries.get? name = some use) (himage : s.images[use.image]? = some image)
    (hloads : request.loads? = some again) (hfound : image.declared s.files ≠ [])
    (hwanted : again = true ∨ (s.register use.register).isPopulated (keyOf s.files image) = false) :
    Publishes s (.useEntry name request)
      ⟨use.register, keyOf s.files image, image.declared s.files, again⟩

/-- All that some requests publish. -/
def publications (s : Session) : List Request → List Publication
  | [] => []
  | r :: rs => (s.publication? r).toList ++ (s.run r).session.publications rs

/-- A register after something was published. -/
def Publication.on (p : Publication) (k : Option String) (r : Registry) : Registry :=
  if k = p.register then r.publish p.path p.descriptors else r

theorem publication?_useEntry (huse : s.entries.get? name = some use)
    (himage : s.images[use.image]? = some image) (request : EntryRequest) :
    s.publication? (.useEntry name request) =
      request.loads?.bind (s.loadPublication? use image) := by
  rw [publication?, huse]
  change (s.images[use.image]?).bind _ = _
  rw [himage]
  rfl

theorem publication?_eq_some {r : Request} {p : Publication} :
    s.publication? r = some p ↔ s.Publishes r p := by
  constructor
  · intro hp
    cases r with
    | publish register path descriptors =>
      cases hp
      exact .directly register path descriptors
    | useEntry name request =>
      obtain ⟨use, huse, hp⟩ := Option.bind_eq_some_iff.1 hp
      obtain ⟨image, himage, hp⟩ := Option.bind_eq_some_iff.1 hp
      obtain ⟨again, hloads, hp⟩ := Option.bind_eq_some_iff.1 hp
      unfold loadPublication? at hp
      dsimp only at hp
      split at hp
      · cases hp
      · next hpublish =>
        cases hp
        obtain ⟨hfound, hwanted⟩ := not_or.1 hpublish
        refine .load huse himage hloads hfound ?_
        cases again with
        | true => exact .inl rfl
        | false => exact .inr (Bool.eq_false_iff.2 fun h => hwanted ⟨h, rfl⟩)
    | _ => cases hp
  · intro hp
    cases hp with
    | directly => rfl
    | load huse himage hloads hfound hwanted =>
      rw [publication?_useEntry huse himage, hloads, Option.bind_some, loadPublication?]
      refine if_neg (not_or.2 ⟨hfound, fun hkept => ?_⟩)
      rcases hwanted with h | h
      · cases h.symm.trans hkept.2
      · cases h.symm.trans hkept.1

/-- What a use of an entry makes of the registers. -/
theorem register_useEntry (huse : s.entries.get? name = some use)
    (himage : s.images[use.image]? = some image) (request : EntryRequest) (k : Option String) :
    (s.useEntry name request).session.register k =
      (request.loads?.bind (s.loadPublication? use image)).elim (s.register k)
        (·.on k (s.register k)) := by
  have hregister : (s.useEntry name request).session.register k =
      if k = use.register then (s.entryResult use image request).1.2 else s.register k := by
    rw [useEntry_eq huse himage]
    exact register_setRegister s _ use.register k
  rw [hregister]
  cases hloads : request.loads? with
  | none =>
    rw [entryResult_register hloads]
    split
    · next hk => rw [hk]; rfl
    · rfl
  | some again =>
    rw [(entryResult_load hloads).1, Registry.on_loadModules_snd, Option.bind_some,
      loadPublication?]
    dsimp only
    split
    · next hk =>
      subst hk
      split
      · rfl
      · exact (if_pos rfl).symm
    · next hk =>
      split
      · rfl
      · exact (if_neg hk).symm

/-- **A request changes the registers by what it publishes, and not otherwise.** -/
theorem register_run (s : Session) (r : Request) (k : Option String) :
    (s.run r).session.register k = (s.publication? r).elim (s.register k) (·.on k (s.register k)) := by
  cases r with
  | write path spec => rfl
  | overwrite path content => rfl
  | remove path =>
    rw [run]
    cases s.files.remove? path <;> rfl
  | newImage name root => rfl
  | newEntry name image e register =>
    rw [run]
    cases s.imageNames.get? image <;> rfl
  | configure name toml register =>
    rw [run]
    cases hconfigured : s.configure name toml register with
    | error e => rfl
    | ok s' =>
      obtain ⟨root, e, rfl⟩ := configure_eq_ok hconfigured
      rfl
  | publish register path descriptors =>
    rw [run]
    dsimp only
    rw [register_setRegister]
    change _ = if k = register then _ else _
    split
    · next hk => rw [hk]
    · rfl
  | inspect register image => rfl
  | registered register image name => rfl
  | attach content overlay typeName handle =>
    rw [run, attach]
    cases ClassFile.BinaryType.parse content <;> rfl
  | useImage name request =>
    rw [run]
    cases hname : s.imageNames.get? name with
    | none =>
      rw [useImage, hname]
      rfl
    | some used =>
      cases hbefore : s.images[used]? with
      | none =>
        simp only [useImage, hname, hbefore]
        rfl
      | some before =>
        rw [useImage_eq hname hbefore]
        rfl
  | useEntry name request =>
    rw [run]
    cases huse : s.entries.get? name with
    | none =>
      rw [useEntry, huse, publication?, huse]
      rfl
    | some use =>
      cases himage : s.images[use.image]? with
      | none =>
        have hnone : s.publication? (.useEntry name request) = none := by
          rw [publication?, huse]
          change (s.images[use.image]?).bind _ = _
          rw [himage]
          rfl
        simp only [useEntry, huse, himage, hnone]
        rfl
      | some image => rw [register_useEntry huse himage, publication?_useEntry huse himage]

/-! ## Over a whole session -/

theorem Publication.generations_on (p : Publication) (k : Option String) (r : Registry) :
    (p.on k r).generations = r.generations + if k = p.register then 1 else 0 := by
  unfold on
  split <;> rfl

theorem Publication.isPopulated_on (p : Publication) (k : Option String) {r : Registry} {q : String}
    (h : r.isPopulated q) : (p.on k r).isPopulated q := by
  unfold on
  split
  · exact Registry.isPopulated_publish h
  · exact h

theorem isPopulated_run (r : Request) {k : Option String} {q : String}
    (h : (s.register k).isPopulated q) : ((s.run r).session.register k).isPopulated q := by
  rw [register_run]
  cases s.publication? r with
  | none => exact h
  | some p => exact p.isPopulated_on k h

/-- What is populated stays so. -/
theorem isPopulated_after (rs : List Request) {k : Option String} {q : String}
    (h : (s.register k).isPopulated q) : ((s.after rs).register k).isPopulated q :=
  after_keeps (P := fun s => (s.register k).isPopulated q) (fun _ r h => isPopulated_run r h) h rs

theorem register_start (files : FileSystem) (vars : JavaHome.Variables) (k : Option String) :
    (start files vars).register k = .empty := by
  cases k <;> rfl

theorem numbered_register_after (files : FileSystem) (vars : JavaHome.Variables)
    (rs : List Request) (k : Option String) : (((start files vars).after rs).register k).Numbered := by
  have hstart : ((start files vars).register k).Numbered := by
    rw [register_start]
    exact fun _ _ h => nomatch h
  refine after_keeps (P := fun s => (s.register k).Numbered) (fun s r h => ?_) hstart rs
  rw [register_run]
  cases s.publication? r with
  | none => exact h
  | some p =>
    change (p.on k _).Numbered
    unfold Publication.on
    split
    · exact h.publish _ _
    · exact h

/-- The number of a register counts what is published. -/
theorem generations_after (s : Session) (rs : List Request) (k : Option String) :
    ((s.after rs).register k).generations =
      (s.register k).generations + (s.publications rs).countP (k = ·.register) := by
  induction rs generalizing s with
  | nil => rfl
  | cons r rs ih =>
    have hafter : s.after (r :: rs) = (s.run r).session.after rs := rfl
    rw [hafter, ih, register_run, publications, List.countP_append]
    cases s.publication? r with
    | none => simp
    | some p =>
      simp [p.generations_on, Nat.add_assoc]

/-- Without insisting, something is published only where there is nothing yet, and then there is. -/
theorem isPopulated_of_first {r : Request} {p : Publication} (hp : s.Publishes r p)
    (hagain : p.again = false) : (s.register p.register).isPopulated p.path = false ∧
      ((s.run r).session.register p.register).isPopulated p.path = true := by
  constructor
  · cases hp with
    | directly => cases hagain
    | load huse himage hloads hfound hwanted =>
      exact hwanted.resolve_left fun h => nomatch h.symm.trans hagain
  · rw [register_run, publication?_eq_some.2 hp]
    change (p.on _ _).isPopulated _ = true
    have hself : Path.same p.path p.path := beq_self_eq_true _
    rw [Publication.on, if_pos rfl, Registry.isPopulated, Registry.snapshot?_publish, if_pos hself]
    rfl

/-- Publications without insisting, for an image in a register. -/
def Publication.isFirst (k : Option String) (path : String) (p : Publication) : Bool :=
  k = p.register ∧ Path.same p.path path ∧ p.again = false

/-- The first of them fills the register, and there are no others after it. -/
theorem countP_isFirst (s : Session) (rs : List Request) (k : Option String) (path : String) :
    (s.publications rs).countP (Publication.isFirst k path) ≤
      if (s.register k).isPopulated path then 0 else 1 := by
  induction rs generalizing s with
  | nil => exact Nat.zero_le _
  | cons r rs ih =>
    have ih := ih (s.run r).session
    rw [publications, List.countP_append]
    cases hp : s.publication? r with
    | none =>
      rw [register_run, hp] at ih
      rw [Option.toList_none, List.countP_nil, Nat.zero_add]
      exact ih
    | some p =>
      rw [Option.toList_some, List.countP_singleton]
      cases hfirst : p.isFirst k path with
      | false =>
        rw [if_neg Bool.false_ne_true, Nat.zero_add]
        refine ih.trans ?_
        cases hpopulated : (s.register k).isPopulated path with
        | true => rw [isPopulated_run r hpopulated]
        | false =>
          rw [if_neg Bool.false_ne_true]
          split <;> decide
      | true =>
        obtain ⟨rfl, hsame, hagain⟩ := of_decide_eq_true hfirst
        obtain ⟨hbefore, hafter⟩ := isPopulated_of_first (publication?_eq_some.1 hp) hagain
        rw [Registry.isPopulated_same hsame] at hbefore hafter
        rw [hafter, if_pos rfl] at ih
        rw [hbefore, if_pos rfl, if_neg Bool.false_ne_true]
        omega

/-- A register is left as it is, or one image in it gets another snapshot, with the next number. -/
theorem register_run_or (r : Request) {k : Option String} (hnumbered : (s.register k).Numbered) :
    (s.run r).session.register k = s.register k ∨ ∃ p, s.Publishes r p ∧ p.register = k ∧
      let snapshot := (s.register k).nextSnapshot p.path p.descriptors
      (s.register k).snapshot? p.path ≠ some snapshot ∧
      ((s.run r).session.register k).generations = snapshot.generation ∧
      ∀ q, ((s.run r).session.register k).snapshot? q =
        if Path.same q p.path then some snapshot else (s.register k).snapshot? q := by
  have hafter := register_run s r k
  cases hp : s.publication? r with
  | none =>
    rw [hp] at hafter
    exact .inl hafter
  | some p =>
    rw [hp, Option.elim_some, Publication.on] at hafter
    split at hafter
    · next hk =>
      rw [hafter]
      exact .inr ⟨p, publication?_eq_some.1 hp, hk.symm, hnumbered.ne_nextSnapshot _ _, rfl,
        Registry.snapshot?_publish _ _ _⟩
    · exact .inl hafter

section
variable {request : EntryRequest} {again : Bool} (hloads : request.loads? = some again)
  (huse : s.entries.get? name = some use) (himage : s.images[use.image]? = some image)
include hloads huse himage

/-- Where a load publishes nothing, it leaves all registers as they are. -/
theorem register_load_of_kept (hkept : image.declared s.files = [] ∨
      ((s.register use.register).isPopulated (keyOf s.files image) ∧ again = false))
    (k : Option String) : (s.run (.useEntry name request)).session.register k = s.register k := by
  rw [register_run, publication?_useEntry huse himage, hloads, Option.bind_some, loadPublication?,
    if_pos hkept]
  rfl

/-- A load that finds the snapshot it wants does nothing but look for it. -/
theorem load_of_known {snapshot : Registry.Snapshot}
    (hknown : (s.register use.register).snapshot? (keyOf s.files image) = some snapshot)
    (hagain : again = false) :
    (s.run (.useEntry name request)).answer = request.shows use (some snapshot) ∧
    (s.run (.useEntry name request)).notices = [] ∧
    (∀ k, (s.run (.useEntry name request)).session.register k = s.register k) ∧
    (s.run (.useEntry name request)).session.images[use.image]? =
      some { image with canonical := some (keyOf s.files image) } := by
  subst hagain
  have hresult : (s.entryResult use image request).2 =
      (Image.canonicalPath.on s.files ⟨image, []⟩).2 := by
    rw [(entryResult_load hloads).2.2, Registry.on_loadModules_eq]
    simp only [hknown]
  rw [Registry.on_canonicalPath] at hresult
  have himage' := (session_useEntry huse himage request).2.1
  rw [hresult] at himage'
  have hpopulated : (s.register use.register).isPopulated (keyOf s.files image) :=
    congrArg Option.isSome hknown
  refine ⟨?_, ?_, register_load_of_kept hloads huse himage (.inr ⟨hpopulated, rfl⟩), himage'⟩
  · rw [answer_load hloads huse himage, Registry.loaded_of_known hknown]
    rfl
  · rw [run, useEntry_eq huse himage]
    dsimp only
    rw [hresult]

/-- A load that finds nothing answers what there is. -/
theorem load_of_nothing (hempty : image.scanned s.files = .ok []) :
    (s.run (.useEntry name request)).answer =
      request.shows use ((s.register use.register).snapshot? (keyOf s.files image)) ∧
    ∀ k, (s.run (.useEntry name request)).session.register k = s.register k := by
  have hnone := Image.declared_of_scanned hempty
  refine ⟨?_, register_load_of_kept hloads huse himage (.inl hnone)⟩
  rw [answer_load hloads huse himage, hempty, Registry.loaded_nil]
  rfl

/-- A load whose scan does not end registers nothing. -/
theorem load_of_failed {e : Image.Error} (hend : image.scanned s.files = .error e)
    (hwanted : again = true ∨
      (s.register use.register).snapshot? (keyOf s.files image) = none) :
    (s.run (.useEntry name request)).answer = .ofError e ∧
    ∀ k, (s.run (.useEntry name request)).session.register k = s.register k := by
  have hnone : image.declared s.files = [] := by rw [Image.declared, hend]; rfl
  refine ⟨?_, register_load_of_kept hloads huse himage (.inl hnone)⟩
  rw [answer_load hloads huse himage, hend, Registry.loaded_of_failed hwanted]
  rfl

/-- Any other load answers what it publishes. -/
theorem load_of_found {ds : List ModuleDescriptor} (hscanned : image.scanned s.files = .ok ds)
    (hfound : ds ≠ [])
    (hwanted : again = true ∨
      (s.register use.register).snapshot? (keyOf s.files image) = none) :
    s.Publishes (.useEntry name request)
      ⟨use.register, keyOf s.files image, ds, again⟩ ∧
    (s.run (.useEntry name request)).answer = request.shows use (some
      ((s.register use.register).nextSnapshot (keyOf s.files image) ds)) := by
  have hfree : again = true ∨
      (s.register use.register).isPopulated (keyOf s.files image) = false := by
    refine hwanted.imp_right fun hnone => ?_
    rw [Registry.isPopulated, hnone]
    rfl
  obtain rfl := Image.declared_of_scanned hscanned
  refine ⟨.load huse himage hloads hfound hfree, ?_⟩
  rw [answer_load hloads huse himage, hscanned, Registry.loaded_of_found hfound hwanted]
  rfl

end

/-- The requests that make the session with an entry for an image. -/
def unloadedRequests : List Request :=
  [.newImage "i" "/i", .newEntry "e" "i" bareUse.entry none]

theorem after_unloadedRequests :
    (start twoPlaces ⟨none, none, "/"⟩).after unloadedRequests = unloaded := rfl

theorem after_loadingOnce : (start twoPlaces ⟨none, none, "/"⟩).after
    (unloadedRequests ++ [.useEntry "e" .load]) = loadedOnce := rfl

theorem after_moving : (start twoPlaces ⟨none, none, "/"⟩).after
    (unloadedRequests ++ [.useEntry "e" .load, .remove "/i/modules"]) = moved := rfl

/-- The snapshot of its first load. -/
def firstSnapshot : Registry.Snapshot :=
  ⟨keyOf twoPlaces (.new "/i"), 1, .ofList (olderContents.descriptors twoPlaces)⟩

end Session

end PlatformImage
