import PlatformImage.Image.Contents
import PlatformImage.Proofs.Index
import PlatformImage.Proofs.Resolve
/-! Everything in a directory as a flat list of paths, those of files with the content.

Indexing a directory without links is adding the entries that an archive would have for
this list, one by one (`scan_eq`). The paths that are listed can be put together with
others (`path_join_join`). -/
namespace PlatformImage.Image

/-- Entries of a directory with ordinary names, each once, and no links. -/
def plain : List (String × Node) → Bool
  | [] => true
  | (name, node) :: rest =>
    let inside := match node with
      | .file _ _ => true
      | .directory inner => plain inner
      | .link _ => false
    decide (Ordinary name) && !(rest.map (·.1)).contains name && inside && plain rest

/-- A file, or a directory that is plain. -/
def plainNode : Node → Bool
  | .file _ _ => true
  | .directory inner => plain inner
  | .link _ => false

/-- All files and directories below one, by their paths from it. -/
def listing : List (String × Node) → List (String × Option Bytes)
  | [] => []
  | (name, node) :: rest =>
    let here := match node with
      | .file content _ => [(name, some content)]
      | .directory inner => (name, none) :: (listing inner).map fun i => (name ++ "/" ++ i.1, i.2)
      | .link _ => []
    here ++ listing rest

/-- The name of an archive's entry for a file, or for a directory. -/
def entryName (path : String) : Option Bytes → String
  | some _ => path
  | none => path ++ "/"

/-- What holds of a directory if it holds of those in it, holds of all. -/
theorem entries_induction {P : List (String × Node) → Prop}
    (h : ∀ entries, (∀ name inner, (name, .directory inner) ∈ entries → P inner) → P entries)
    (entries : List (String × Node)) : P entries := by
  refine h entries fun name inner hmem => ?_
  have : sizeOf inner < sizeOf entries := by
    have := List.sizeOf_lt_of_mem hmem
    simp only [Prod.mk.sizeOf_spec, Node.directory.sizeOf_spec] at this
    omega
  exact entries_induction h inner
termination_by sizeOf entries

section
variable {entries : List (String × Node)} {name : String} {node : Node}

theorem plain_cons {rest : List (String × Node)} : plain ((name, node) :: rest) ↔
    Ordinary name ∧ name ∉ rest.map (·.1) ∧ plainNode node ∧ plain rest := by
  cases node <;> simp [plain, plainNode, and_assoc]

theorem listing_cons {rest : List (String × Node)} : listing ((name, node) :: rest) =
    listing [(name, node)] ++ listing rest := by
  cases node <;> simp [listing]

/-- What is made of a list one by one comes from one of its members. -/
theorem mem_one_by_one {α β : Type} {f : List α → List β} (hnil : f [] = [])
    (hcons : ∀ a as, f (a :: as) = f [a] ++ f as) {as : List α} {b : β} :
    b ∈ f as ↔ ∃ a, a ∈ as ∧ b ∈ f [a] := by
  induction as with
  | nil => simp [hnil]
  | cons a as ih =>
    rw [hcons, List.mem_append, ih]
    simp only [List.mem_cons, exists_eq_or_imp]

/-- What is listed belongs to one of the names. -/
theorem mem_listing {i : String × Option Bytes} : i ∈ listing entries ↔
    ∃ name node, (name, node) ∈ entries ∧ i ∈ listing [(name, node)] := by
  have hnil : listing [] = [] := by simp [listing]
  rw [mem_one_by_one hnil fun _ _ => listing_cons]
  exact Prod.exists

theorem mem_of_lookup {n : Node} (h : entries.lookup name = some n) : (name, n) ∈ entries := by
  induction entries with
  | nil => cases h
  | cons e rest ih =>
    obtain ⟨k, m⟩ := e
    rw [List.lookup_cons] at h
    split at h
    · next hk =>
      cases h
      rw [eq_of_beq hk]
      exact List.mem_cons_self
    · exact List.mem_cons_of_mem _ (ih h)

theorem mem_listing_single {i : String × Option Bytes} : i ∈ listing [(name, node)] ↔
    (∃ content executable, node = .file content executable ∧ i = (name, some content)) ∨
      ∃ inner, node = .directory inner ∧
        (i = (name, none) ∨ ∃ j ∈ listing inner, i = (name ++ "/" ++ j.1, j.2)) := by
  cases node with
  | file content executable => simp [listing]
  | directory inner => simp [listing, eq_comm]
  | link target => simp [listing]

/-! ## Plain directories -/

/-- What is in a plain directory has an ordinary name and is no link. -/
theorem plain_of_mem (hplain : plain entries) (hmem : (name, node) ∈ entries) :
    Ordinary name ∧ plainNode node := by
  induction entries with
  | nil => cases hmem
  | cons e rest ih =>
    obtain ⟨k, m⟩ := e
    obtain ⟨hk, -, hm, hrest⟩ := plain_cons.1 hplain
    rcases List.mem_cons.1 hmem with he | hmem
    · cases he
      exact ⟨hk, hm⟩
    · exact ih hrest hmem

/-- In a directory that can be listed, everything has a path that can be asked for. -/
theorem fits_of_mem {base : String} (hfits : Module.fits base entries)
    (hmem : (name, node) ∈ entries) :
    (Path.join base name).utf8ByteSize ≤ FileSystem.maxPathSize ∧
      ∀ inner, node = .directory inner → Module.fits (Path.join base name) inner := by
  induction entries with
  | nil => cases hmem
  | cons e rest ih =>
    obtain ⟨k, m⟩ := e
    unfold Module.fits at hfits
    simp only [Bool.and_eq_true, decide_eq_true_eq] at hfits
    obtain ⟨⟨hsize, hinside⟩, hrest⟩ := hfits
    rcases List.mem_cons.1 hmem with he | hmem
    · cases he
      refine ⟨hsize, ?_⟩
      rintro inner rfl
      exact hinside
    · exact ih hrest hmem

end

/-! ## Indexing -/

section
variable {fs : FileSystem}

theorem beforeEnd?_slash_eq_none_iff {s : String} :
    Text.beforeEnd? "/" s = none ↔ s.toList.getLast? ≠ some '/' := by
  constructor
  · intro h hlast
    obtain ⟨front, hfront⟩ := List.getLast?_eq_some_iff.1 hlast
    have hs : s = String.ofList front ++ "/" := by
      apply String.toList_injective
      rw [hfront]
      simp
    rw [Text.beforeEnd?_eq_some_iff.2 hs] at h
    cases h
  · refine fun h => Option.eq_none_iff_forall_ne_some.2 fun front he => h ?_
    rw [Text.beforeEnd?_eq_some_iff.1 he]
    simp

theorem beforeEnd?_slash_eq_none {s : String} (h : s.toList.getLast? ≠ some '/') :
    Text.beforeEnd? "/" s = none :=
  beforeEnd?_slash_eq_none_iff.2 h

theorem getLast?_of_ordinary {name : String} (h : Ordinary name) :
    name.toList.getLast? ≠ some '/' := fun he => h.single (List.mem_of_getLast? he)

theorem join_ne_empty (dir : String) {name : String} (h : name ≠ "") : Tree.join dir name ≠ "" := by
  unfold Tree.join
  split
  · exact h
  · simp

/-- Names in folders, put together in either order. -/
theorem join_append (dir : String) {name : String} (hne : name ≠ "") (path : String) :
    Tree.join dir (name ++ "/" ++ path) = Tree.join (Tree.join dir name) path := by
  unfold Tree.join
  by_cases hdir : dir = ""
  · simp [hdir, hne]
  · simp [hdir, String.append_assoc]

theorem addEntry_folder (t : Tree) (dir : String) : t.addEntry (dir ++ "/") = t.addFolder dir := by
  unfold Tree.addEntry
  rw [Text.beforeEnd?_eq_some_iff.2 rfl]

theorem addEntry_file (t : Tree) {path : String} (h : path.toList.getLast? ≠ some '/') :
    t.addEntry path = t.addFile path := by
  unfold Tree.addEntry
  rw [beforeEnd?_slash_eq_none h]

theorem getLast?_join (dir : String) {name : String} (h : Ordinary name) :
    (Tree.join dir name).toList.getLast? ≠ some '/' := by
  unfold Tree.join
  split
  · exact getLast?_of_ordinary h
  · have hlast := getLast?_of_ordinary h
    rw [String.toList_append, List.getLast?_append]
    cases hname : name.toList.getLast? with
    | none => exact absurd (String.toList_eq_nil_iff.1 (List.getLast?_eq_none_iff.1 hname)) h.ne_empty
    | some c => rwa [hname] at hlast

theorem scan_nil (path dir : String) (t : Tree) : Module.scan fs path dir t [] = t :=
  Module.scan.eq_def fs path dir t []

theorem scan_file (path dir : String) (t : Tree) (name : String) (content : Bytes)
    (executable : Bool) (rest : List (String × Node)) :
    Module.scan fs path dir t ((name, .file content executable) :: rest) =
      Module.scan fs path dir (t.addFile (Tree.join dir name)) rest :=
  Module.scan.eq_def fs path dir t _

theorem scan_directory (path dir : String) (t : Tree) (name : String)
    (inner rest : List (String × Node)) :
    Module.scan fs path dir t ((name, .directory inner) :: rest) =
      Module.scan fs path dir (Module.scan fs (Path.join path name) (Tree.join dir name)
        (t.addFolder (Tree.join dir name)) inner) rest :=
  Module.scan.eq_def fs path dir t _

/-- Indexing a plain directory is adding what is listed, one by one. -/
theorem scan_eq {entries : List (String × Node)} (hplain : plain entries) (path dir : String)
    (t : Tree) : Module.scan fs path dir t entries =
      ((listing entries).map fun i => entryName (Tree.join dir i.1) i.2).foldl Tree.addEntry t := by
  induction entries using entries_induction generalizing path dir t with
  | h entries ih =>
    induction entries generalizing t with
    | nil => rw [scan_nil, listing]; rfl
    | cons e rest ihrest =>
      obtain ⟨name, node⟩ := e
      obtain ⟨hname, -, hnode, hrest⟩ := plain_cons.1 hplain
      -- By `ih` the directories inside are indexed like that, by `ihrest` what comes after.
      have hlater := ihrest (fun k inner hk => ih k inner (List.mem_cons_of_mem _ hk)) hrest
      rw [listing_cons, List.map_append, List.foldl_append, ← hlater]
      cases node with
      | file content executable =>
        rw [scan_file]
        have hlast : (Tree.join dir name).toList.getLast? ≠ some '/' := getLast?_join dir hname
        simp only [listing, entryName, List.append_nil, List.map_cons, List.map_nil,
          List.foldl_cons, List.foldl_nil, addEntry_file _ hlast]
      | directory inner =>
        rw [scan_directory, ih name inner List.mem_cons_self hnode]
        simp only [listing, entryName, List.append_nil, List.map_cons, List.map_map,
          List.foldl_cons, addEntry_folder]
        simp only [Function.comp_def, join_append dir hname.ne_empty]
      | link target => cases hnode

theorem hasFolder_scan_of {entries : List (String × Node)} (hplain : plain entries)
    (path dir : String) {d : String} {t : Tree} (h : t.hasFolder d) :
    (Module.scan fs path dir t entries).hasFolder d := by
  rw [scan_eq hplain]
  exact Tree.hasFolder_foldl_addEntry.2 (.inl h)

/-- Indexing adds just the directories that are listed. -/
theorem hasFolder_scan {entries : List (String × Node)} (hplain : plain entries) (path : String)
    {dir d : String} {t : Tree} (hdir : t.hasFolder dir)
    (h : (Module.scan fs path dir t entries).hasFolder d) :
    t.hasFolder d ∨ ∃ below, (below, none) ∈ listing entries ∧ d = Tree.join dir below := by
  induction entries using entries_induction generalizing path dir t with
  | h entries ih =>
    induction entries generalizing t with
    | nil => exact .inl (by rwa [scan_nil] at h)
    | cons e rest ihrest =>
      obtain ⟨name, node⟩ := e
      obtain ⟨hname, -, hnode, hrest⟩ := plain_cons.1 hplain
      have hlater {t : Tree} :=
        @ihrest (fun k inner hk => ih k inner (List.mem_cons_of_mem _ hk)) hrest t
      rw [listing_cons]
      have hparent : Text.parentPath (Tree.join dir name) = dir :=
        Text.parentPath_join dir hname.single
      -- Whatever adding a child adds above it is there already.
      have habove {d : String} (hd : d = "" ∨ d ∈ Text.lineage dir) : t.hasFolder d := by
        rcases hd with rfl | hd
        · exact Tree.hasFolder_root hdir
        · exact Tree.hasFolder_of_mem_lineage hdir hd
      cases node with
      | file content executable =>
        rw [scan_file] at h
        rcases hlater (Tree.hasFolder_addFile.2 (.inl hdir)) h with h | ⟨below, hmem, rfl⟩
        · rw [Tree.hasFolder_addFile, hparent] at h
          exact .inl (h.elim id habove)
        · exact .inr ⟨below, List.mem_append_right _ hmem, rfl⟩
      | directory inner =>
        rw [scan_directory] at h
        have hself : (t.addFolder (Tree.join dir name)).hasFolder (Tree.join dir name) :=
          Folders.contains_withFolder_self
        have hkept : (Module.scan fs (Path.join path name) (Tree.join dir name)
            (t.addFolder (Tree.join dir name)) inner).hasFolder dir :=
          hasFolder_scan_of hnode _ _ (Tree.hasFolder_addFolder.2 (.inl hdir))
        rcases hlater hkept h with h | ⟨below, hmem, rfl⟩
        · rcases ih name inner List.mem_cons_self hnode _ hself h with h | ⟨below, hmem, rfl⟩
          · rw [Tree.hasFolder_addFolder, Text.lineage_of_ne (join_ne_empty dir hname.ne_empty),
              hparent, List.mem_cons] at h
            rcases h with h | h | rfl | h
            · exact .inl h
            · exact .inl (habove (.inl h))
            · exact .inr ⟨name, List.mem_append_left _ (by simp [listing]), rfl⟩
            · exact .inl (habove (.inr h))
          · refine .inr ⟨name ++ "/" ++ below, List.mem_append_left _ ?_,
              (join_append dir hname.ne_empty below).symm⟩
            rw [listing, listing, List.append_nil]
            refine List.mem_cons_of_mem _ (List.mem_map.2 ⟨_, hmem, ?_⟩)
            simp only [String.append_assoc]
        · exact .inr ⟨below, List.mem_append_right _ hmem, rfl⟩
      | link target => cases hnode

/-- The folders of a module that is a plain directory. -/
theorem listed_of_hasFolder {entries : List (String × Node)} (hplain : plain entries)
    {path dir : String} (h : (Module.scan fs path "" .root entries).hasFolder dir) :
    dir = "" ∨ (dir, none) ∈ listing entries := by
  have hroot : Tree.root.hasFolder "" := Folders.contains_withFolder_self
  rcases hasFolder_scan hplain path hroot h with h | ⟨below, hmem, rfl⟩
  · exact .inl (Tree.hasFolder_root_iff.1 h)
  · exact .inr hmem

end

/-! ## Paths put together -/

/-- A path that can be put behind another one and before a further one. -/
structure Clean (path : String) : Prop where
  ne_empty : path ≠ ""
  relative : Path.isAbsolute path = false
  open_end : path.toList.getLast? ≠ some '/'

theorem Clean.of_ordinary {name : String} (h : Ordinary name) : Clean name :=
  ⟨h.ne_empty, FileSystem.isAbsolute_of_single h.single, getLast?_of_ordinary h⟩

theorem isAbsolute_append {path : String} (hne : path ≠ "") (rest : String) :
    Path.isAbsolute (path ++ rest) = Path.isAbsolute path := by
  obtain ⟨c, cs, hpath⟩ := List.exists_cons_of_ne_nil (mt String.toList_eq_nil_iff.1 hne)
  rw [Path.isAbsolute, Path.isAbsolute, String.toList_append, hpath]
  rfl

theorem getLast?_append {path : String} (hne : path ≠ "") (front : String) :
    (front ++ path).toList.getLast? = path.toList.getLast? := by
  obtain ⟨cs, c, hpath⟩ := List.eq_nil_or_concat path.toList |>.resolve_left
    (mt String.toList_eq_nil_iff.1 hne)
  rw [String.toList_append, hpath]
  simp

theorem Clean.append {path rest : String} (h : Clean path) (h' : Clean rest) :
    Clean (path ++ "/" ++ rest) where
  ne_empty := by simp
  relative := by rw [String.append_assoc, isAbsolute_append h.ne_empty]; exact h.relative
  open_end := by rw [getLast?_append h'.ne_empty]; exact h'.open_end

theorem clean_of_mem_listing {entries : List (String × Node)} (hplain : plain entries)
    {i : String × Option Bytes} (h : i ∈ listing entries) : Clean i.1 := by
  induction entries using entries_induction generalizing i with
  | h entries ih =>
    obtain ⟨name, node, hmem, hi⟩ := mem_listing.1 h
    obtain ⟨hname, hnode⟩ := plain_of_mem hplain hmem
    rcases mem_listing_single.1 hi with ⟨_, _, -, rfl⟩ | ⟨inner, rfl, rfl | ⟨j, hj, rfl⟩⟩
    · exact .of_ordinary hname
    · exact .of_ordinary hname
    · exact (Clean.of_ordinary hname).append (ih name inner hmem hnode hj)

/-- Paths behind a path are put together in either order. -/
theorem path_join_join (base : String) {dir rest : String} (hdir : Clean dir)
    (hrest : Path.isAbsolute rest = false) :
    Path.join (Path.join base dir) rest = Path.join base (dir ++ "/" ++ rest) := by
  have hjoin : Path.isAbsolute (dir ++ "/" ++ rest) = false := by
    rw [String.append_assoc, isAbsolute_append hdir.ne_empty]
    exact hdir.relative
  have hbelow (front : String) : Path.join (front ++ dir) rest = front ++ (dir ++ "/" ++ rest) := by
    have hlast : ¬((front ++ dir).isEmpty || decide ((front ++ dir).toList.getLast? = some '/')) := by
      rw [getLast?_append hdir.ne_empty]
      simp [hdir.open_end, hdir.ne_empty]
    rw [FileSystem.join_of_relative _ hrest, if_neg hlast]
    simp only [String.append_assoc]
  rw [FileSystem.join_of_relative base hdir.relative, FileSystem.join_of_relative base hjoin]
  split
  · exact hbelow base
  · exact hbelow (base ++ "/")

end PlatformImage.Image
