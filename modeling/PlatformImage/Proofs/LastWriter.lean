import Mathlib.Data.List.Dedup
import Mathlib.Data.List.Induction
import PlatformImage.Proofs.Publications
import PlatformImage.Proofs.SamePath
/-! What a register holds after any publications. It remembers the last one for each image, under
the path it was published with (`snapshot?_publishAll`), one snapshot for each image
(`imageCount_publishAll`), and a later publication for an image has a larger number
(`snapshot?_later`). Paths with the same components name one image (`Path.same_spellings`). The
registers of a session come about by such publications (`Session.register_eq_publishAll`). -/
namespace PlatformImage

open ClassFile (ModuleDescriptor)

/-! ## Paths that name one image -/

namespace Path

/-- Behind a path only names are components. -/
theorem components_append {p : String} (hp : p ≠ "") (q : String) :
    components (p ++ "/" ++ q) = components p ++ names q := by
  have habsolute : isAbsolute (p ++ "/" ++ q) = isAbsolute p := by
    obtain ⟨c, cs, hcs⟩ := List.exists_cons_of_ne_nil (mt String.toList_eq_nil_iff.1 hp)
    simp [isAbsolute, hcs]
  have hhead : (Text.segments (p ++ "/" ++ q)).head? = (Text.segments p).head? := by
    rw [Text.segments_append, List.head?_append_of_ne_nil _ (Text.segments_ne_nil p)]
  have hnames : names (p ++ "/" ++ q) = names p ++ names q := names_append p q
  unfold names at hnames
  unfold components
  rw [habsolute, hhead]
  dsimp only
  rw [hnames]
  split
  · rfl
  · split <;> rfl

/-- Further slashes, a `.` between slashes and a slash at the end do not count; `..` does. -/
theorem same_spellings {p : String} (hp : p ≠ "") (q : String) :
    same (p ++ "//" ++ q) (p ++ "/" ++ q) ∧ same (p ++ "/./" ++ q) (p ++ "/" ++ q) ∧
    same (p ++ "/") p ∧ components (p ++ "/..") = components p ++ [".."] := by
  have hskip (skipped : String) (hskipped : names skipped = []) :
      same (p ++ "/" ++ (skipped ++ "/" ++ q)) (p ++ "/" ++ q) := by
    rw [same, beq_iff_eq, components_append hp, components_append hp, names_append, hskipped]
    rfl
  have hdouble : p ++ "//" ++ q = p ++ "/" ++ ("" ++ "/" ++ q) := String.toList_injective (by simp)
  have hpoint : p ++ "/./" ++ q = p ++ "/" ++ ("." ++ "/" ++ q) := String.toList_injective (by simp)
  have hend : p ++ "/" = p ++ "/" ++ "" := String.toList_injective (by simp)
  have habove : p ++ "/.." = p ++ "/" ++ ".." := String.toList_injective (by simp)
  refine ⟨?_, ?_, ?_, ?_⟩
  · rw [hdouble]
    exact hskip "" (by decide)
  · rw [hpoint]
    exact hskip "." (by decide)
  · rw [hend, same, beq_iff_eq, components_append hp]
    exact List.append_nil _
  · rw [habove, components_append hp]
    exact congrArg _ (by decide)

end Path

namespace Registry

/-! ## The descriptors of one publication -/

theorem Index.get?_add (m : Index) (d : ModuleDescriptor) (name : String) :
    ((m.add d).get? name).getD [] =
      if name = d.name ∧ d ∉ (m.get? name).getD [] then (m.get? name).getD [] ++ [d]
      else (m.get? name).getD [] := by
  rw [add, NameMap.get?_alter]
  by_cases hname : name = d.name
  · subst hname
    rw [if_pos rfl, Option.getD_some]
    by_cases hmem : d ∈ (m.get? d.name).getD []
    · simp [hmem]
    · simp [hmem]
  · rw [if_neg hname, if_neg fun h => hname h.1]

/-- A further item counts unless it is there already. -/
theorem eraseDups_concat {α : Type} [BEq α] [LawfulBEq α] (as : List α) (a : α) :
    (as ++ [a]).eraseDups = if a ∈ as then as.eraseDups else as.eraseDups ++ [a] := by
  rw [List.eraseDups_append]
  by_cases ha : a ∈ as
  · simp [List.removeAll, ha]
  · simp [List.removeAll, ha, List.eraseDups_cons]

/-- The descriptors of a name are those that were found, in this order, and each of them once. -/
theorem Index.get?_ofList (ds : List ModuleDescriptor) (name : String) :
    ((Index.ofList ds).get? name).getD [] = (ds.filter (·.name = name)).eraseDups := by
  induction ds using List.reverseRecOn with
  | nil => rfl
  | append_singleton ds d ih =>
    have hadd : Index.ofList (ds ++ [d]) = (Index.ofList ds).add d := List.foldl_concat ..
    rw [hadd, get?_add, ih, List.filter_append, List.filter_singleton]
    by_cases hname : d.name = name
    · rw [decide_eq_true hname, cond_true, eraseDups_concat]
      by_cases hmem : d ∈ ds.filter (·.name = name)
      · simp [hmem]
      · simp [hmem, hname]
    · simp [hname, Ne.symm hname]

/-! ## Publications one after the other -/

variable {r : Registry} {ps later : List (String × List ModuleDescriptor)} {q : String}
  {s : Snapshot}

/-- A register after further publications, each of the descriptors of an image. -/
def publishAll (r : Registry) (ps : List (String × List ModuleDescriptor)) : Registry :=
  ps.foldl (fun r p => r.publish p.1 p.2) r

theorem publishAll_append (r : Registry) (ps later : List (String × List ModuleDescriptor)) :
    r.publishAll (ps ++ later) = (r.publishAll ps).publishAll later :=
  List.foldl_append

theorem publishAll_concat (r : Registry) (ps : List (String × List ModuleDescriptor))
    (p : String × List ModuleDescriptor) :
    r.publishAll (ps ++ [p]) = (r.publishAll ps).publish p.1 p.2 :=
  List.foldl_concat ..

theorem generations_publishAll (ps : List (String × List ModuleDescriptor)) :
    (empty.publishAll ps).generations = ps.length := by
  induction ps using List.reverseRecOn with
  | nil => rfl
  | append_singleton ps p ih =>
    rw [publishAll_concat, List.length_append]
    exact congrArg (· + 1) ih

/-- What the last publication for an image made, if there was one. -/
def LastMade (ps : List (String × List ModuleDescriptor)) (q : String) (s : Snapshot) : Prop :=
  ∃ before path ds after, ps = before ++ (path, ds) :: after ∧ Path.same q path ∧
    (∀ p ∈ after, ¬Path.same q p.1) ∧ s = ⟨path, before.length + 1, .ofList ds⟩

theorem lastMade_concat {p : String × List ModuleDescriptor} :
    LastMade (ps ++ [p]) q s ↔
      if Path.same q p.1 then s = ⟨p.1, ps.length + 1, .ofList p.2⟩ else LastMade ps q s := by
  split
  · next hsame =>
    constructor
    · rintro ⟨before, path, ds, after, hps, hpath, hafter, rfl⟩
      rcases List.eq_nil_or_concat after with rfl | ⟨after, last, rfl⟩
      · obtain ⟨rfl, hlast⟩ := List.append_inj' hps rfl
        obtain rfl := List.head_eq_of_cons_eq hlast
        rfl
      · rw [List.concat_eq_append, ← List.cons_append, ← List.append_assoc] at hps
        obtain rfl := List.head_eq_of_cons_eq (List.append_inj_right' hps rfl)
        exact absurd hsame (hafter p (by simp))
    · rintro rfl
      exact ⟨ps, p.1, p.2, [], rfl, hsame, by simp, rfl⟩
  · next hother =>
    constructor
    · rintro ⟨before, path, ds, after, hps, hpath, hafter, rfl⟩
      rcases List.eq_nil_or_concat after with rfl | ⟨after, last, rfl⟩
      · obtain rfl := List.head_eq_of_cons_eq (List.append_inj_right' hps rfl)
        exact absurd hpath hother
      · rw [List.concat_eq_append, ← List.cons_append, ← List.append_assoc] at hps
        obtain rfl := List.append_inj_left' hps rfl
        exact ⟨before, path, ds, after, rfl, hpath,
          fun p hp => hafter p (by simp [hp]), rfl⟩
    · rintro ⟨before, path, ds, after, rfl, hpath, hafter, rfl⟩
      refine ⟨before, path, ds, after ++ [p], by simp, hpath, fun p' hp' => ?_, rfl⟩
      rcases List.mem_append.1 hp' with hmem | hmem
      · exact hafter p' hmem
      · rw [List.mem_singleton.1 hmem]
        exact hother

/-- A register holds for each image what the last publication for it made. -/
theorem snapshot?_publishAll : (empty.publishAll ps).snapshot? q = some s ↔ LastMade ps q s := by
  induction ps using List.reverseRecOn with
  | nil =>
    constructor
    · intro h
      cases h
    · rintro ⟨before, path, ds, after, hps, -⟩
      simp at hps
  | append_singleton ps p ih =>
    rw [publishAll_concat, snapshot?_publish, lastMade_concat]
    split
    · rw [nextSnapshot, generations_publishAll, Option.some.injEq]
      exact eq_comm
    · exact ih

theorem snapshot?_publishAll_eq_none : (empty.publishAll ps).snapshot? q = none ↔
    ∀ p ∈ ps, ¬Path.same q p.1 := by
  induction ps using List.reverseRecOn with
  | nil => exact ⟨fun _ _ h => (List.not_mem_nil h).elim, fun _ => rfl⟩
  | append_singleton ps p ih =>
    rw [publishAll_concat, snapshot?_publish, List.forall_mem_append, List.forall_mem_singleton]
    split
    · next hsame => simp [hsame]
    · next hother => simp [ih, hother]

/-! ## Images -/

theorem keys_publish (r : Registry) (path : String) (ds : List ModuleDescriptor) :
    (r.publish path ds).snapshots.map (·.1) =
      Path.components path :: (r.snapshots.map (·.1)).filter (· ≠ Path.components path) := by
  rw [List.filter_map]
  rfl

/-- There is one snapshot for each image something was published for. -/
theorem keys_publishAll (ps : List (String × List ModuleDescriptor)) :
    ((empty.publishAll ps).snapshots.map (·.1)).Nodup ∧
    ∀ key, key ∈ (empty.publishAll ps).snapshots.map (·.1) ↔
      key ∈ ps.map fun p => Path.components p.1 := by
  induction ps using List.reverseRecOn with
  | nil => exact ⟨List.nodup_nil, fun key => Iff.rfl⟩
  | append_singleton ps p ih =>
    rw [publishAll_concat, keys_publish]
    constructor
    · exact List.nodup_cons.2 ⟨by simp, ih.1.filter _⟩
    · intro key
      rw [List.mem_cons, List.mem_filter, ih.2, List.map_append, List.mem_append]
      by_cases hkey : key = Path.components p.1
      · simp [hkey]
      · simp [hkey]

theorem imageCount_publishAll (ps : List (String × List ModuleDescriptor)) :
    (empty.publishAll ps).imageCount = (ps.map fun p => Path.components p.1).dedup.length := by
  obtain ⟨hnodup, hmem⟩ := keys_publishAll ps
  have hperm := (List.perm_ext_iff_of_nodup hnodup (List.nodup_dedup _)).2 fun key => by
    rw [hmem, List.mem_dedup]
  rw [← hperm.length_eq, List.length_map]
  rfl

/-! ## Later publications -/

theorem numbered_publishAll (h : r.Numbered) (ps : List (String × List ModuleDescriptor)) :
    (r.publishAll ps).Numbered := by
  induction ps generalizing r with
  | nil => exact h
  | cons p ps ih => exact ih (h.publish p.1 p.2)

/-- A snapshot stays until something is published for its image, and then the number is larger. -/
theorem snapshot?_later (hnumbered : r.Numbered) (hs : r.snapshot? q = some s) :
    ∃ s', (r.publishAll later).snapshot? q = some s' ∧
      if ∃ p ∈ later, Path.same q p.1 then s.generation < s'.generation else s' = s := by
  induction later generalizing r s with
  | nil => exact ⟨s, hs, by simp⟩
  | cons p later ih =>
    have hnext := snapshot?_publish r p.1 p.2 q
    by_cases hsame : Path.same q p.1
    · rw [if_pos hsame] at hnext
      obtain ⟨s', hs', hlater⟩ := ih (hnumbered.publish p.1 p.2) hnext
      have hless : s.generation < (r.nextSnapshot p.1 p.2).generation :=
        Nat.lt_succ_of_le (hnumbered q s hs)
      refine ⟨s', hs', ?_⟩
      rw [if_pos ⟨p, List.mem_cons_self, hsame⟩]
      split at hlater
      · exact hless.trans hlater
      · rw [hlater]
        exact hless
    · rw [if_neg hsame, hs] at hnext
      obtain ⟨s', hs', hlater⟩ := ih (hnumbered.publish p.1 p.2) hnext
      refine ⟨s', hs', ?_⟩
      simp only [List.exists_mem_cons_iff, hsame, Bool.false_eq_true, false_or]
      exact hlater

theorem numbered_empty : empty.Numbered := fun _ _ h => nomatch h

/-- **The register is a last-writer map over images.** After any publications, a path leads to a
    snapshot just if something was published under a path with the same components, and then to
    the one that the last such publication made: with the number of that publication, the path as
    it was given there and the descriptors that were given there, by their names, in their order,
    each once. There are as many images as there are different paths by their components. A later
    publication for an image has a larger number, and one for another image changes nothing. Of
    the components further slashes, a `.` inside and a slash at the end are no part, but `..` is. -/
theorem last_writer (ps : List (String × List ModuleDescriptor)) :
    let r := empty.publishAll ps
    (∀ q, r.snapshot? q = none ↔ ∀ p ∈ ps, ¬Path.same q p.1) ∧
    (∀ before path ds after q, ps = before ++ (path, ds) :: after → Path.same q path →
      (∀ p ∈ after, ¬Path.same q p.1) →
      ∃ s, r.snapshot? q = some s ∧ s.generation = before.length + 1 ∧ s.image = path ∧
        ∀ name, s.contains name = ds.any (·.name = name) ∧
          s.descriptors name = (ds.filter (·.name = name)).eraseDups) ∧
    r.imageCount = (ps.map fun p => Path.components p.1).dedup.length ∧
    (∀ later q s, r.snapshot? q = some s → ∃ s', (r.publishAll later).snapshot? q = some s' ∧
      if ∃ p ∈ later, Path.same q p.1 then s.generation < s'.generation else s' = s) ∧
    (∀ path ds q, ¬Path.same q path → (r.publish path ds).snapshot? q = r.snapshot? q) ∧
    ∀ p q, p ≠ "" → Path.same (p ++ "//" ++ q) (p ++ "/" ++ q) ∧
      Path.same (p ++ "/./" ++ q) (p ++ "/" ++ q) ∧ Path.same (p ++ "/") p ∧
      Path.components (p ++ "/..") = Path.components p ++ [".."] := by
  intro r
  refine ⟨fun q => snapshot?_publishAll_eq_none, ?_, imageCount_publishAll ps, ?_, ?_,
    fun p q hp => Path.same_spellings hp q⟩
  · intro before path ds after q hps hsame hafter
    refine ⟨⟨path, before.length + 1, .ofList ds⟩, ?_, rfl, rfl, fun name => ⟨?_, ?_⟩⟩
    · exact snapshot?_publishAll.2 ⟨before, path, ds, after, hps, hsame, hafter, rfl⟩
    · rw [Bool.eq_iff_iff, List.any_eq_true]
      refine Index.contains_ofList.trans ?_
      simp
    · exact Index.get?_ofList ds name
  · intro later q s hs
    exact snapshot?_later (numbered_publishAll numbered_empty ps) hs
  · intro path ds q hother
    rw [snapshot?_publish, if_neg hother]

/-- A descriptor with a name and a version, and nothing else. -/
def bareDescriptor (name : String) (version : Option String) : ModuleDescriptor :=
  ⟨name, 0, version, [], [], [], [], []⟩

/-- Publications for an image under two paths, and one for another image in between. -/
def respelled : List (String × List ModuleDescriptor) :=
  [("/i", [bareDescriptor "a" none]), ("/j", [bareDescriptor "b" none]),
    ("//i/./", [bareDescriptor "c" none, bareDescriptor "c" (some "1"), bareDescriptor "c" none])]

theorem last_writer_respelled : Path.same "/i" "//i/./" ∧
    (∃ s, (empty.publishAll respelled).snapshot? "/i" = some s ∧ s.generation = 3 ∧
      s.image = "//i/./" ∧ s.contains "a" = false ∧
      s.descriptors "c" = [bareDescriptor "c" none, bareDescriptor "c" (some "1")]) ∧
    (empty.publishAll respelled).snapshot? "/i/.." = none ∧
    (empty.publishAll respelled).imageCount = 2 := by
  obtain ⟨hnone, hlast, hcount, -⟩ := last_writer respelled
  have hsame : Path.same "/i" "//i/./" := by decide
  obtain ⟨s, hs, hgeneration, himage, hmodules⟩ :=
    hlast (respelled.take 2) _ _ [] "/i" rfl hsame (by simp)
  refine ⟨hsame, ⟨s, hs, hgeneration, himage, ?_, ?_⟩, (hnone "/i/..").2 (by decide), ?_⟩
  · rw [(hmodules "a").1]
    decide
  · rw [(hmodules "c").2]
    decide
  · rw [hcount]
    decide

end Registry

namespace Session

/-- The publications for one register, as they reach it. -/
def Publication.reaching (k : Option String) (published : List Publication) :
    List (String × List ModuleDescriptor) :=
  (published.filter fun p => k = p.register).map fun p => (p.path, p.descriptors)

theorem Publication.reaching_append (k : Option String) (ps qs : List Publication) :
    reaching k (ps ++ qs) = reaching k ps ++ reaching k qs := by
  rw [reaching, List.filter_append, List.map_append]
  rfl

theorem Publication.reaching_single (k : Option String) (p : Publication) :
    reaching k [p] = if k = p.register then [(p.path, p.descriptors)] else [] := by
  unfold reaching
  rw [List.filter_singleton]
  by_cases hk : k = p.register
  · rw [if_pos hk, decide_eq_true hk]
    rfl
  · rw [if_neg hk, decide_eq_false hk]
    rfl

/-- What is in a register of a session comes from what was published for it. -/
theorem register_eq_publishAll (s : Session) (rs : List Request) (k : Option String) :
    (s.after rs).register k =
      (s.register k).publishAll (Publication.reaching k (s.publications rs)) := by
  induction rs generalizing s with
  | nil => rfl
  | cons r rs ih =>
    have hafter : s.after (r :: rs) = (s.run r).session.after rs := rfl
    rw [hafter, ih, register_run, publications, Publication.reaching_append,
      Registry.publishAll_append]
    cases s.publication? r with
    | none => rfl
    | some p =>
      rw [Option.elim_some, Publication.on, Option.toList_some, Publication.reaching_single]
      split <;> rfl

end Session

end PlatformImage
