import PlatformImage.Proofs.Lineage
import PlatformImage.Proofs.Runs
import Mathlib.Data.List.Nodup
/-! A walk that is pruned tells of the events of the whole walk that are left when
those below a skipped folder are taken out.

`Contents.events` is everything there is to tell of, in order, whatever a visitor
answers. An event is reached if its module and all folders that its path lies in
are answered with `enter`. A visitor that acts on events by `act` and answers
them by `answer` is then told of `delivered`, the reached ones, one after the other
and in that order, in any monad (`walk_eq_forM`). In the monad of walks that means:
up to the first event on which it fails. -/
namespace PlatformImage.Image

open Text (lineage parentPath)

/-! ## All events -/

/-- The events of all that is in a folder: its files, its folders, and what is in
    those. -/
def Tree.events (t : Tree) (owner dir : String) : List Event :=
  (t.filesOf dir).map (fun name => .file (Tree.join dir name) owner) ++
    (t.foldersOf dir).map (fun p => .folder p owner) ++
    (t.foldersOf dir).attach.flatMap fun p => t.events owner p.1
termination_by t.longest + 1 - dir.length
decreasing_by exact Tree.deeper_of_mem_foldersOf p.2

/-- The events of all modules, in ascending order of their names. -/
def Contents.events (c : Contents) : List Event :=
  c.modules.entries.flatMap fun m => .module m.1 :: m.2.tree.events m.1 ""

namespace Event

def isModule : Event → Bool
  | .module _ => true
  | _ => false

/-- The module that an event is about. -/
def owner : Event → String
  | .module name => name
  | .folder _ owner => owner
  | .file _ owner => owner

/-- The folder that an event's path is right inside of. -/
def place : Event → String
  | .module _ => ""
  | .folder path _ => parentPath path
  | .file path _ => parentPath path

/-- Whether no folder that an event's path lies in is skipped, nor its module. -/
def reached (answer : Event → Answer) (e : Event) : Bool :=
  e.isModule || (answer (.module e.owner) = .enter ∧
    ∀ dir ∈ lineage e.place, answer (.folder dir e.owner) = .enter)

/-- Whether a walk with such answers comes to an event. -/
def told (answer : Event → Answer) : Mode → Event → Bool
  | .everything => reached answer
  | .modulesOnly => isModule

end Event

/-- The events that a visitor with such answers is told of. -/
def Contents.delivered (c : Contents) (answer : Event → Answer) (mode : Mode) : List Event :=
  c.events.filter (Event.told answer mode)

/-! ## The events of a folder -/

namespace Tree
variable {t : Tree} {owner dir : String}

theorem events_eq (t : Tree) (owner dir : String) : t.events owner dir =
    (t.filesOf dir).map (fun name => .file (join dir name) owner) ++
      (t.foldersOf dir).map (fun p => .folder p owner) ++
      (t.foldersOf dir).flatMap (t.events owner) := by
  rw [events]
  congr 1
  exact List.flatMap_subtype (fun _ _ => rfl) |>.trans (by rw [List.unattach_attach])

theorem parentPath_of_mem_foldersOf {p : String} (h : p ∈ t.foldersOf dir) :
    parentPath p = dir :=
  (mem_foldersOf.1 h).2.2

theorem lineage_of_mem_foldersOf {p : String} (h : p ∈ t.foldersOf dir) :
    lineage p = p :: lineage dir := by
  rw [Text.lineage_of_ne (mem_foldersOf.1 h).2.1, parentPath_of_mem_foldersOf h]

theorem not_mem_filesOf {name : String} (h : name ∈ t.filesOf dir) : '/' ∉ name.toList := by
  unfold filesOf at h
  cases hg : t.folders.get? dir with
  | none => simp [hg] at h
  | some files =>
    rw [hg] at h
    exact t.wellFormed.single dir files name hg h

theorem nodup_filesOf : (t.filesOf dir).Nodup :=
  ((t.folders.get? dir).getD .empty).ascending.imp String.ne_of_lt

theorem foldersOf_eq_filter :
    t.foldersOf dir = (t.paths.filter (· ≠ "")).filter (parentPath · = dir) := by
  unfold foldersOf under parents
  rw [List.filter_map, List.map_map]
  exact List.map_id' _

theorem ascending_foldersOf : (t.foldersOf dir).Pairwise (· < ·) := by
  rw [foldersOf_eq_filter]
  exact (t.folders.ascending.filter _).filter _

theorem nodup_foldersOf : (t.foldersOf dir).Nodup :=
  ascending_foldersOf.imp String.ne_of_lt

/-- What is right inside a folder. -/
theorem place_of_mem_own {e : Event}
    (h : e ∈ (t.filesOf dir).map (fun name => Event.file (join dir name) owner) ++
      (t.foldersOf dir).map (fun p => Event.folder p owner)) :
    e.isModule = false ∧ e.owner = owner ∧ e.place = dir := by
  rcases List.mem_append.1 h with h | h
  · obtain ⟨name, hn, rfl⟩ := List.mem_map.1 h
    exact ⟨rfl, rfl, Text.parentPath_join dir (not_mem_filesOf hn)⟩
  · obtain ⟨p, hp, rfl⟩ := List.mem_map.1 h
    exact ⟨rfl, rfl, parentPath_of_mem_foldersOf hp⟩

/-- Whatever is in a folder lies below all the folders that the folder lies in. -/
theorem lineage_subset_of_mem_events {e : Event} (h : e ∈ t.events owner dir) :
    e.isModule = false ∧ e.owner = owner ∧ lineage dir ⊆ lineage e.place := by
  induction dir using Tree.events.induct (t := t) with
  | case1 dir ih =>
    rw [events_eq] at h
    rcases List.mem_append.1 h with h | h
    · obtain ⟨hm, ho, hp⟩ := place_of_mem_own h
      exact ⟨hm, ho, hp ▸ List.Subset.refl _⟩
    · obtain ⟨p, hp, he⟩ := List.mem_flatMap.1 h
      obtain ⟨hm, ho, hsub⟩ := ih ⟨p, hp⟩ he
      rw [lineage_of_mem_foldersOf hp] at hsub
      exact ⟨hm, ho, List.Subset.trans (List.subset_cons_self _ _) hsub⟩

theorem mem_lineage_place {e : Event} {p : String} (hp : p ∈ t.foldersOf dir)
    (h : e ∈ t.events owner p) : p ∈ lineage e.place :=
  (lineage_subset_of_mem_events h).2.2 (by rw [lineage_of_mem_foldersOf hp]; simp)

theorem nodup_own : ((t.filesOf dir).map (fun name => Event.file (join dir name) owner) ++
    (t.foldersOf dir).map (fun p => Event.folder p owner)).Nodup := by
  refine List.Nodup.append ?_ ?_ ?_
  · refine List.Nodup.map_on ?_ nodup_filesOf
    intro a ha b hb hab
    exact Text.join_injective (not_mem_filesOf ha) (not_mem_filesOf hb) (Event.file.inj hab).1
  · exact nodup_foldersOf.map fun a b hab => (Event.folder.inj hab).1
  · intro e hf hp
    obtain ⟨name, _, rfl⟩ := List.mem_map.1 hf
    obtain ⟨p, _, h⟩ := List.mem_map.1 hp
    cases h

/-- No event of a folder comes twice. What is right inside the folder lies in none
    of its folders, and no two of these share a lineage. -/
theorem nodup_events (t : Tree) (owner dir : String) : (t.events owner dir).Nodup := by
  induction dir using Tree.events.induct (t := t) with
  | case1 dir ih =>
    rw [events_eq]
    refine List.Nodup.append nodup_own ?_ ?_
    · refine List.nodup_flatMap.2 ⟨fun p hp => ih ⟨p, hp⟩, ?_⟩
      -- Folders that have an event in common share a lineage, and so are one folder.
      refine List.Pairwise.imp_of_mem ?_ nodup_foldersOf
      intro p q hp hq hne e hep heq
      refine hne (Text.eq_of_mem_lineage (mem_lineage_place hp hep) (mem_lineage_place hq heq) ?_)
      rw [parentPath_of_mem_foldersOf hp, parentPath_of_mem_foldersOf hq]
    · intro e hown hbelow
      obtain ⟨p, hp, he⟩ := List.mem_flatMap.1 hbelow
      have hin := mem_lineage_place hp he
      rw [(place_of_mem_own hown).2.2, ← parentPath_of_mem_foldersOf hp] at hin
      exact Text.not_mem_lineage_parentPath hin

/-- Nothing in a skipped folder is reached. -/
theorem filter_reached_eq_nil {answer : Event → Answer} {p : String} (hp : p ∈ t.foldersOf dir)
    (hskip : answer (.folder p owner) ≠ .enter) :
    (t.events owner p).filter (Event.reached answer) = [] := by
  refine List.filter_eq_nil_iff.2 fun e he hr => ?_
  obtain ⟨hm, ho, -⟩ := lineage_subset_of_mem_events he
  simp only [Event.reached, hm, ho, Bool.false_or, decide_eq_true_eq] at hr
  exact hskip (hr.2 p (mem_lineage_place hp he))

/-- All that is right inside a folder is reached if the folder and those above it
    are entered. -/
theorem filter_reached_own {answer : Event → Answer} (hmod : answer (.module owner) = .enter)
    (hdir : ∀ d ∈ lineage dir, answer (.folder d owner) = .enter) :
    ((t.filesOf dir).map (fun name => Event.file (join dir name) owner) ++
        (t.foldersOf dir).map (fun p => Event.folder p owner)).filter (Event.reached answer) =
      (t.filesOf dir).map (fun name => Event.file (join dir name) owner) ++
        (t.foldersOf dir).map (fun p => Event.folder p owner) := by
  refine List.filter_eq_self.2 fun e he => ?_
  obtain ⟨hm, ho, hp⟩ := place_of_mem_own he
  simp only [Event.reached, hm, ho, hp, Bool.false_or, decide_eq_true_eq]
  exact ⟨hmod, hdir⟩

/-- The reached events below a folder are those below the folders in it that are
    entered. -/
theorem filter_reached_below (answer : Event → Answer) (ps : List String)
    (hps : ∀ p ∈ ps, p ∈ t.foldersOf dir) :
    (ps.flatMap (t.events owner)).filter (Event.reached answer) =
      ((ps.filter fun p => answer (.folder p owner) = .enter).flatMap (t.events owner)).filter
        (Event.reached answer) := by
  induction ps with
  | nil => rfl
  | cons p ps ih =>
    have ih := ih fun q hq => hps q (List.mem_cons_of_mem p hq)
    by_cases hp : answer (.folder p owner) = .enter
    · simp only [List.flatMap_cons, List.filter_append, ih, List.filter_cons, hp, decide_true,
        if_true]
    · rw [List.flatMap_cons, List.filter_append,
        filter_reached_eq_nil (hps p List.mem_cons_self) hp, List.nil_append, ih,
        List.filter_cons_of_neg (by simpa using hp)]

theorem folder_eq (t : Tree) (dir : String) :
    t.folder dir = .mk dir (t.filesOf dir) ((t.foldersOf dir).map t.folder) := by
  unfold folder
  rw [folderAmong]
  congr 1
  exact List.attach_map_val

end Tree

/-! ## The stack -/

/-- A visitor that acts on every event by `act`, and answers by `answer`. -/
def visiting {m : Type → Type} [Monad m] (answer : Event → Answer) (act : Event → m Unit)
    (e : Event) : m Answer := do
  act e
  return answer e

section Stack
variable {m : Type → Type} [Monad m] [LawfulMonad m] (answer : Event → Answer) (act : Event → m Unit)

theorem discard_visiting (e : Event) : discard (visiting answer act e) = act e := by
  have hunit : (fun _ : Unit => PUnit.unit) = id := rfl
  simp [visiting, discard, LawfulFunctor.map_const, hunit]

theorem mapM_visiting {α : Type} (event : α → Event) (as : List α) :
    as.mapM (fun a => visiting answer act (event a)) =
      (do
        (as.map event).forM act
        return as.map fun a => answer (event a)) := by
  induction as with
  | nil => simp
  | cons a as ih =>
    rw [List.mapM_cons, ih]
    simp [visiting]

theorem entered_map (t : Tree) (owner : String) (ps : List String) :
    entered (ps.map t.folder) (ps.map fun p => answer (.folder p owner)) =
      (ps.filter fun p => answer (.folder p owner) = .enter).map t.folder := by
  induction ps with
  | nil => rfl
  | cons p ps ih =>
    cases hp : answer (.folder p owner) <;> simp [entered, hp, ih]

/-- Walking through a stack of folders that are all to be entered tells of what is
    reached in them, one folder after the other. -/
theorem walkPending_eq_forM (t : Tree) {owner : String} (hmod : answer (.module owner) = .enter)
    (dirs : List String)
    (hdirs : ∀ dir ∈ dirs, ∀ d ∈ lineage dir, answer (.folder d owner) = .enter) :
    walkPending (visiting answer act) owner (dirs.map t.folder) =
      ((dirs.flatMap (t.events owner)).filter (Event.reached answer)).forM act := by
  -- The stack gets smaller in the sense of `walkPending`, whatever is entered.
  generalize hp : dirs.map t.folder = pending
  induction pending using walkPending.induct generalizing dirs with
  | case1 =>
    obtain rfl := List.map_eq_nil_iff.1 hp
    simp [walkPending]
  | case2 path files folders rest ih =>
    obtain ⟨dir, dirs, rfl, hdir, rfl⟩ := List.map_eq_cons_iff.1 hp
    rw [Tree.folder_eq] at hdir
    obtain ⟨rfl, rfl, rfl⟩ := Folder.mk.inj hdir
    have hhere := hdirs dir List.mem_cons_self
    have hrest : ∀ d ∈ (t.foldersOf dir).filter (fun p => answer (.folder p owner) = .enter) ++ dirs,
        ∀ e ∈ lineage d, answer (.folder e owner) = .enter := by
      intro d hd
      rcases List.mem_append.1 hd with hd | hd
      · obtain ⟨hd, ha⟩ := List.mem_filter.1 hd
        rw [Tree.lineage_of_mem_foldersOf hd]
        exact List.forall_mem_cons.2 ⟨by simpa using ha, hhere⟩
      · exact hdirs d (List.mem_cons_of_mem _ hd)
    -- The visitor has answered for these folders; those to be entered go onto the stack.
    have hstack := ih ((t.foldersOf dir).map fun p => answer (.folder p owner)) _ hrest
      (by rw [List.map_append, entered_map])
    have hanswers : ((t.foldersOf dir).map t.folder).mapM
        (fun f => visiting answer act (.folder f.path owner)) = (do
          ((t.foldersOf dir).map fun p => Event.folder p owner).forM act
          return (t.foldersOf dir).map fun p => answer (.folder p owner)) := by
      rw [List.mapM_map, ← mapM_visiting]
      congr 1
      funext p
      rw [Function.comp_apply, Tree.folder_eq, Folder.path]
    rw [walkPending, hanswers]
    simp only [discard_visiting, bind_assoc, pure_bind, hstack]
    rw [List.flatMap_cons, Tree.events_eq, List.filter_append, List.filter_append,
      Tree.filter_reached_own hmod hhere, Tree.filter_reached_below answer _ fun _ h => h,
      List.flatMap_append, List.filter_append]
    simp [List.forM_append]

/-- One module, walked through or not. -/
theorem walk_module_eq_forM (mode : Mode) (name : String) (mod : Module) :
    mod.walk (visiting answer act) mode name =
      ((Event.module name :: mod.tree.events name "").filter (Event.told answer mode)).forM act := by
  have hbelow {e : Event} (he : e ∈ mod.tree.events name "") :
      e.isModule = false ∧ e.owner = name :=
    let ⟨hm, ho, _⟩ := Tree.lineage_subset_of_mem_events he
    ⟨hm, ho⟩
  have hmodule : Event.told answer mode (.module name) = true := by cases mode <;> rfl
  rw [List.filter_cons_of_pos hmodule, List.forM_eq_forM, List.forM_cons]
  cases mode with
  | modulesOnly =>
    have hnone : (mod.tree.events name "").filter (Event.told answer .modulesOnly) = [] :=
      List.filter_eq_nil_iff.2 fun e he => by simp [Event.told, (hbelow he).1]
    simp [Module.walk, visiting, hnone]
  | everything =>
    cases ha : answer (.module name) with
    | enter =>
      have hwalk := walkPending_eq_forM answer act mod.tree ha [""] (by simp)
      simp only [List.map_cons, List.map_nil, List.flatMap_cons, List.flatMap_nil,
        List.append_nil] at hwalk
      simp [Module.walk, visiting, ha, hwalk, Event.told]
    | skip =>
      have hnone : (mod.tree.events name "").filter (Event.told answer .everything) = [] :=
        List.filter_eq_nil_iff.2 fun e he => by
          simp [Event.told, Event.reached, (hbelow he).1, (hbelow he).2, ha]
      simp [Module.walk, visiting, ha, hnone]

/-- A walk tells of the delivered events, in their order. -/
theorem walk_eq_forM (c : Contents) (mode : Mode) :
    c.walk (visiting answer act) mode = (c.delivered answer mode).forM act := by
  unfold Contents.walk Contents.delivered Contents.events
  induction c.modules.entries with
  | nil => rfl
  | cons m ms ih =>
    obtain ⟨name, mod⟩ := m
    rw [List.flatMap_cons, List.filter_append, List.forM_eq_forM, List.forM_eq_forM,
      List.forM_cons, List.forM_append]
    dsimp only
    rw [walk_module_eq_forM]
    exact congrArg _ (funext fun _ => ih)

end Stack

/-- The events of a module are about that module. -/
theorem Module.owner_of_mem {m : String × Module} {e : Event}
    (he : e ∈ Event.module m.1 :: m.2.tree.events m.1 "") : e.owner = m.1 := by
  rcases List.mem_cons.1 he with rfl | he
  · rfl
  · exact (Tree.lineage_subset_of_mem_events he).2.1

/-- No event comes twice in a walk. -/
theorem nodup_contents_events (c : Contents) : c.events.Nodup := by
  refine List.nodup_flatMap.2 ⟨fun m _ => ?_, ?_⟩
  · refine List.nodup_cons.2 ⟨fun h => ?_, Tree.nodup_events _ _ _⟩
    have := (Tree.lineage_subset_of_mem_events h).1
    simp [Event.isModule] at this
  · have hnames := List.pairwise_map.1 c.modules.ascending
    refine hnames.imp fun hlt e hm hn => ?_
    have := (Module.owner_of_mem hm).symm.trans (Module.owner_of_mem hn)
    exact absurd hlt (this ▸ String.lt_irrefl _)

theorem delivered_modulesOnly (c : Contents) (answer : Event → Answer) :
    c.delivered answer .modulesOnly = c.modules.keys.map .module := by
  unfold Contents.delivered Contents.events NameMap.keys
  induction c.modules.entries with
  | nil => rfl
  | cons m ms ih =>
    have hnone : (m.2.tree.events m.1 "").filter (Event.told answer .modulesOnly) = [] :=
      List.filter_eq_nil_iff.2 fun e he => by
        simp [Event.told, (Tree.lineage_subset_of_mem_events he).1]
    have hmodule : Event.told answer .modulesOnly (.module m.1) = true := rfl
    rw [List.flatMap_cons, List.filter_append, ih, List.filter_cons_of_pos hmodule, hnone]
    rfl

/-- A walk through an image that opens is what its visitor does on the delivered
    events. -/
theorem on_walkFrom {σ : Type} {c : Contents} {fs : FileSystem} {u v : Use} (mode : Mode)
    (answer : Event → Answer) (act : Event → Visit σ Unit) (start : σ)
    (hopen : openContents.run.on fs u = (.ok c, v)) :
    (walkFrom start (visiting answer act) mode).on fs u =
      walkEnd (Visit.from ((c.delivered answer mode).forM act) start fs v) := by
  rw [on_walkFrom_eq, from_walk hopen, walk_eq_forM]

theorem from_forM_of_error {σ : Type} {act : Event → Visit σ Unit} {before after : List Event}
    {e : Event} {error : Error} {start s s' : σ} {fs : FileSystem} {v w w' : Use}
    (hbefore : Visit.from (before.forM act) start fs v = ((.ok (), s), w))
    (he : Visit.from (act e) s fs w = ((.error error, s'), w')) :
    Visit.from ((before ++ e :: after).forM act) start fs v = ((.error error, s'), w') := by
  rw [List.forM_eq_forM, List.forM_append, List.forM_cons]
  rw [List.forM_eq_forM] at hbefore
  rw [Visit.from_bind_of_ok start fs v _ hbefore]
  exact Visit.from_bind_of_error s fs w _ he

/-- **Pruning a walk is filtering it.** The delivered events are those of the whole
    walk that are not below anything skipped, in their order and each once; of modules
    only, they are the modules. In any monad a visitor acts on these, one after the
    other. In a walk through an image that opens, it does so up to the first event on
    which it fails: what it did on those before stays, none after is told of, and its
    error ends the walk. -/
theorem walk_delivers (c : Contents) (answer : Event → Answer) (mode : Mode) :
    (c.delivered answer mode).Nodup ∧
    c.delivered answer .modulesOnly = c.modules.keys.map .module ∧
    (∀ {m : Type → Type} [Monad m] [LawfulMonad m] (act : Event → m Unit),
      c.walk (visiting answer act) mode = (c.delivered answer mode).forM act) ∧
    ∀ {σ : Type} (act : Event → Visit σ Unit) (start : σ) (fs : FileSystem) (u v : Use),
      openContents.run.on fs u = (.ok c, v) →
      (∀ s w, Visit.from ((c.delivered answer mode).forM act) start fs v = ((.ok (), s), w) →
        (walkFrom start (visiting answer act) mode).on fs u = ((none, s), w)) ∧
      ∀ before e after error s w s' w', c.delivered answer mode = before ++ e :: after →
        Visit.from (before.forM act) start fs v = ((.ok (), s), w) →
        Visit.from (act e) s fs w = ((.error error, s'), w') →
        (walkFrom start (visiting answer act) mode).on fs u = ((some error, s'), w') := by
  refine ⟨(nodup_contents_events c).filter _, delivered_modulesOnly c answer,
    fun act => walk_eq_forM answer act c mode, fun act start fs u v hopen => ⟨?_, ?_⟩⟩
  · intro s w hall
    rw [on_walkFrom mode answer act start hopen, hall]
    rfl
  · intro before e after error s w s' w' hsplit hbefore he
    rw [on_walkFrom mode answer act start hopen, hsplit, from_forM_of_error hbefore he]
    rfl

/-- A module with a file in each of two folders. -/
def twoFolders : Contents :=
  ⟨.exploded, NameMap.empty.insert "m" ⟨.directory "m", .ofEntries ["a/b/C", "a/x/D"]⟩⟩

/-- Enters all but one of the folders. -/
def skipping (e : Event) : Answer := if e = .folder "a/x" "m" then .skip else .enter

/-- Takes down events, and fails on a file. -/
def untilFile (e : Event) : Visit (List Event) Unit :=
  match e with
  | .file path _ => throw (.unreadable path)
  | e => modify (· ++ [e])

/-- The walk ends at the file that is reached; the other one is never told of. -/
theorem walk_delivers_twoFolders :
    twoFolders.delivered skipping .everything =
      [.module "m", .folder "a" "m", .folder "a/b" "m", .folder "a/x" "m"] ++
        .file "a/b/C" "m" :: [] ∧
    (walkFrom [] (visiting skipping untilFile) .everything).on (.emptyAt [])
        ⟨{ Image.new "r" with contents := some twoFolders }, []⟩ =
      ((some (.unreadable "a/b/C"),
        [.module "m", .folder "a" "m", .folder "a/b" "m", .folder "a/x" "m"]),
        ⟨{ Image.new "r" with contents := some twoFolders }, []⟩) := by
  have hsplit : twoFolders.delivered skipping .everything =
      [.module "m", .folder "a" "m", .folder "a/b" "m", .folder "a/x" "m"] ++
        .file "a/b/C" "m" :: [] := by decide +kernel
  refine ⟨hsplit, ?_⟩
  have hopen : openContents.run.on (.emptyAt [])
      ⟨{ Image.new "r" with contents := some twoFolders }, []⟩ =
      (.ok twoFolders, ⟨{ Image.new "r" with contents := some twoFolders }, []⟩) := rfl
  exact ((walk_delivers twoFolders skipping .everything).2.2.2 untilFile [] _ _ _ hopen).2
    _ _ _ _ _ _ _ _ hsplit rfl rfl

end PlatformImage.Image
