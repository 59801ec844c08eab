import PlatformImage.Proofs.Listing
/-! Directories with links in them.

A link to a file counts as that file, any other link does not count at all. So a directory
is indexed as if each link were replaced by the file it leads to (`scan_settled`), and what
can be read from it are the files that are listed then (`read_settled`). A directory without
links stays as it is. -/
namespace PlatformImage

namespace FileSystem

theorem isFile_iff {fs : FileSystem} {path : String} :
    fs.isFile path = true ↔ ∃ content, fs.readFile path = .ok content := by
  unfold isFile readFile
  cases fs.node? path with
  | error e => simp
  | ok n => cases n <;> simp [Node.isFile]

end FileSystem

namespace Image

/-- Entries of a directory with ordinary names, each once, and links to paths that can be
    followed. -/
def tidy : List (String × Node) → Bool
  | [] => true
  | (name, node) :: rest =>
    let inside := match node with
      | .file _ _ => true
      | .directory inner => tidy inner
      | .link target => !target.toList.contains '\x00'
    decide (Ordinary name) && !(rest.map (·.1)).contains name && inside && tidy rest

/-- A file, a link that can be followed, or a directory that is tidy. -/
def tidyNode : Node → Bool
  | .file _ _ => true
  | .directory inner => tidy inner
  | .link target => !target.toList.contains '\x00'

/-- The entries of the directory at a path with files in place of the links to them, and
    without all other links. -/
def settled (fs : FileSystem) (path : String) : List (String × Node) → List (String × Node)
  | [] => []
  | (name, node) :: rest =>
    let child := Path.join path name
    let here := match node with
      | .file content executable => [(name, .file content executable)]
      | .directory inner => [(name, .directory (settled fs child inner))]
      | .link _ =>
        match fs.readFile child with
        | .ok content => [(name, .file content false)]
        | .error _ => []
    here ++ settled fs path rest

section
variable {fs : FileSystem} {entries : List (String × Node)} {name path : String} {node : Node}

theorem tidy_cons {rest : List (String × Node)} : tidy ((name, node) :: rest) ↔
    Ordinary name ∧ name ∉ rest.map (·.1) ∧ tidyNode node ∧ tidy rest := by
  cases node <;> simp [tidy, tidyNode, and_assoc]

/-- What is in a tidy directory has an ordinary name, and is found under it. -/
theorem tidy_of_mem (htidy : tidy entries) (hmem : (name, node) ∈ entries) :
    Ordinary name ∧ entries.lookup name = some node ∧ tidyNode node := by
  induction entries with
  | nil => cases hmem
  | cons e rest ih =>
    obtain ⟨k, m⟩ := e
    obtain ⟨hk, hnew, hm, hrest⟩ := tidy_cons.1 htidy
    rcases List.mem_cons.1 hmem with he | hmem
    · cases he
      exact ⟨hk, by rw [List.lookup_cons_self], hm⟩
    · obtain ⟨hname, hlookup, hnode⟩ := ih hrest hmem
      refine ⟨hname, ?_, hnode⟩
      have hne : name ≠ k := fun he => hnew (he ▸ List.mem_map.2 ⟨_, hmem, rfl⟩)
      rw [List.lookup_cons, beq_false_of_ne hne]
      exact hlookup

theorem settled_nil : settled fs path [] = [] := settled.eq_def fs path []

theorem settled_cons {rest : List (String × Node)} : settled fs path ((name, node) :: rest) =
    settled fs path [(name, node)] ++ settled fs path rest := by
  rw [settled.eq_def fs path (_ :: rest), settled.eq_def fs path [(name, node)]]
  simp only [settled_nil, List.append_nil]

theorem settled_file {content : Bytes} {executable : Bool} :
    settled fs path [(name, .file content executable)] = [(name, .file content executable)] := by
  rw [settled.eq_def]
  simp only [settled_nil, List.append_nil]

theorem settled_directory {inner : List (String × Node)} :
    settled fs path [(name, .directory inner)] =
      [(name, .directory (settled fs (Path.join path name) inner))] := by
  rw [settled.eq_def]
  simp only [settled_nil, List.append_nil]

theorem settled_link {target : String} : settled fs path [(name, .link target)] =
    match fs.readFile (Path.join path name) with
    | .ok content => [(name, .file content false)]
    | .error _ => [] := by
  rw [settled.eq_def]
  simp only [settled_nil, List.append_nil]

/-- What is in a settled directory comes from one of the names. -/
theorem mem_settled {e : String × Node} : e ∈ settled fs path entries ↔
    ∃ name node, (name, node) ∈ entries ∧ e ∈ settled fs path [(name, node)] := by
  rw [mem_one_by_one settled_nil fun _ _ => settled_cons]
  exact Prod.exists

/-- It is a file, a link to a file, or a settled directory. -/
theorem mem_settled_single {e : String × Node} : e ∈ settled fs path [(name, node)] ↔
    (∃ content executable, node = .file content executable ∧ e = (name, .file content executable)) ∨
    (∃ target content, node = .link target ∧ fs.readFile (Path.join path name) = .ok content ∧
      e = (name, .file content false)) ∨
    ∃ inner, node = .directory inner ∧
      e = (name, .directory (settled fs (Path.join path name) inner)) := by
  cases node with
  | file content executable =>
    rw [settled_file, List.mem_singleton]
    constructor
    · exact fun h => .inl ⟨content, executable, rfl, h⟩
    · rintro (⟨_, _, h, he⟩ | ⟨_, _, h, -⟩ | ⟨_, h, -⟩) <;> cases h
      exact he
  | directory inner => simp [settled_directory]
  | link target =>
    rw [settled_link]
    cases fs.readFile (Path.join path name) <;> simp

theorem mem_settled_directory {found : List (String × Node)} :
    (name, .directory found) ∈ settled fs path entries ↔ ∃ inner, (name, .directory inner) ∈ entries ∧
      found = settled fs (Path.join path name) inner := by
  rw [mem_settled]
  constructor
  · rintro ⟨k, node, hmem, hfrom⟩
    rcases mem_settled_single.1 hfrom with ⟨_, _, -, he⟩ | ⟨_, _, -, -, he⟩ | ⟨inner, rfl, he⟩ <;> cases he
    exact ⟨inner, hmem, rfl⟩
  · rintro ⟨inner, hmem, rfl⟩
    exact ⟨name, _, hmem, mem_settled_single.2 (.inr (.inr ⟨inner, rfl, rfl⟩))⟩

theorem mem_settled_file {content : Bytes} {executable : Bool} :
    (name, .file content executable) ∈ settled fs path entries ↔
      (name, .file content executable) ∈ entries ∨ ∃ target, (name, .link target) ∈ entries ∧
        fs.readFile (Path.join path name) = .ok content ∧ executable = false := by
  rw [mem_settled]
  constructor
  · rintro ⟨k, node, hmem, hfrom⟩
    rcases mem_settled_single.1 hfrom with ⟨_, _, rfl, he⟩ | ⟨target, _, rfl, hread, he⟩ | ⟨_, -, he⟩ <;>
      cases he
    · exact .inl hmem
    · exact .inr ⟨target, hmem, hread, rfl⟩
  · rintro (hmem | ⟨target, hmem, hread, rfl⟩)
    · exact ⟨name, _, hmem, mem_settled_single.2 (.inl ⟨content, executable, rfl, rfl⟩)⟩
    · exact ⟨name, _, hmem, mem_settled_single.2 (.inr (.inl ⟨target, content, rfl, hread, rfl⟩))⟩

theorem names_settled : (settled fs path entries).map (·.1) ⊆ entries.map (·.1) := by
  intro k hk
  obtain ⟨e, he, rfl⟩ := List.mem_map.1 hk
  obtain ⟨name, node, hmem, he⟩ := mem_settled.1 he
  refine List.mem_map.2 ⟨_, hmem, ?_⟩
  rcases mem_settled_single.1 he with ⟨_, _, -, rfl⟩ | ⟨_, _, -, -, rfl⟩ | ⟨_, -, rfl⟩ <;> rfl

/-- A tidy directory is plain once it is settled. -/
theorem plain_settled (htidy : tidy entries) : plain (settled fs path entries) := by
  induction entries using entries_induction generalizing path with
  | h entries ih =>
    induction entries with
    | nil => simp [settled_nil, plain]
    | cons e rest ihrest =>
      obtain ⟨name, node⟩ := e
      obtain ⟨hname, hnew, hnode, hrest⟩ := tidy_cons.1 htidy
      have hlater := ihrest (fun k inner hk => ih k inner (List.mem_cons_of_mem _ hk)) hrest
      have hnew' : name ∉ (settled fs path rest).map (·.1) := fun h => hnew (names_settled h)
      rw [settled_cons]
      cases node with
      | file content executable =>
        rw [settled_file]
        exact plain_cons.2 ⟨hname, hnew', rfl, hlater⟩
      | directory inner =>
        rw [settled_directory]
        exact plain_cons.2 ⟨hname, hnew', ih name inner List.mem_cons_self hnode, hlater⟩
      | link target =>
        rw [settled_link]
        cases fs.readFile (Path.join path name) with
        | ok content => exact plain_cons.2 ⟨hname, hnew', rfl, hlater⟩
        | error e => exact hlater

/-- A directory that is plain is tidy, and settled as it is. -/
theorem tidy_of_plain (hplain : plain entries) : tidy entries := by
  induction entries using entries_induction with
  | h entries ih =>
    induction entries with
    | nil => simp [tidy]
    | cons e rest ihrest =>
      obtain ⟨name, node⟩ := e
      obtain ⟨hname, hnew, hnode, hrest⟩ := plain_cons.1 hplain
      have hlater := ihrest (fun k inner hk => ih k inner (List.mem_cons_of_mem _ hk)) hrest
      refine tidy_cons.2 ⟨hname, hnew, ?_, hlater⟩
      cases node with
      | file content executable => rfl
      | directory inner => exact ih name inner List.mem_cons_self hnode
      | link target => cases hnode

theorem settled_of_plain (hplain : plain entries) : settled fs path entries = entries := by
  induction entries using entries_induction generalizing path with
  | h entries ih =>
    induction entries with
    | nil => exact settled_nil
    | cons e rest ihrest =>
      obtain ⟨name, node⟩ := e
      obtain ⟨-, -, hnode, hrest⟩ := plain_cons.1 hplain
      have hlater := ihrest (fun k inner hk => ih k inner (List.mem_cons_of_mem _ hk)) hrest
      rw [settled_cons, hlater]
      cases node with
      | file content executable => rw [settled_file]; rfl
      | directory inner =>
        rw [settled_directory, ih name inner List.mem_cons_self hnode]
        rfl
      | link target => cases hnode

/-! ## Indexing -/

theorem scan_link (dir : String) (t : Tree) (target : String) (rest : List (String × Node)) :
    Module.scan fs path dir t ((name, .link target) :: rest) =
      Module.scan fs path dir
        (if fs.isFile (Path.join path name) then t.addFile (Tree.join dir name) else t) rest :=
  Module.scan.eq_def fs path dir t _

/-- A directory is indexed as if it were settled. -/
theorem scan_settled (dir : String) (t : Tree) :
    Module.scan fs path dir t (settled fs path entries) = Module.scan fs path dir t entries := by
  induction entries using entries_induction generalizing path dir t with
  | h entries ih =>
    induction entries generalizing t with
    | nil => rw [settled_nil]
    | cons e rest ihrest =>
      obtain ⟨name, node⟩ := e
      have hlater := ihrest fun k inner hk => ih k inner (List.mem_cons_of_mem _ hk)
      rw [settled_cons]
      cases node with
      | file content executable =>
        rw [settled_file, List.singleton_append, scan_file, scan_file, hlater]
      | directory inner =>
        rw [settled_directory, List.singleton_append, scan_directory, scan_directory, hlater,
          ih name inner List.mem_cons_self]
      | link target =>
        rw [settled_link, scan_link]
        cases hread : fs.readFile (Path.join path name) with
        | ok content =>
          rw [if_pos (FileSystem.isFile_iff.2 ⟨content, hread⟩), List.singleton_append, scan_file,
            hlater]
        | error e =>
          have hnot : ¬fs.isFile (Path.join path name) := by
            rw [FileSystem.isFile_iff, hread]
            rintro ⟨content, h⟩
            cases h
          rw [if_neg hnot, List.nil_append, hlater]

/-- The tree of a tidy directory is that of an archive with the paths that are listed. -/
theorem scan_root_eq (htidy : tidy entries) : Module.scan fs path "" .root entries =
    .ofEntries ((listing (settled fs path entries)).map fun i => entryName i.1 i.2) := by
  rw [← scan_settled, scan_eq (plain_settled htidy)]
  rfl

end

/-! ## Finding what is listed -/

section
variable {fs : FileSystem} {base : String} {entries : List (String × Node)}

/-- A directory that is listed is found, and with it all that is listed in it. -/
theorem directory_of_mem_listing (hbase : fs.node? base = .ok (.directory entries))
    (htidy : tidy entries) (hfits : Module.fits base entries) {dir : String}
    (h : (dir, none) ∈ listing (settled fs base entries)) :
    ∃ inner, fs.node? (Path.join base dir) = .ok (.directory inner) ∧
      ∀ j ∈ listing (settled fs (Path.join base dir) inner),
        (dir ++ "/" ++ j.1, j.2) ∈ listing (settled fs base entries) := by
  induction entries using entries_induction generalizing base dir with
  | h entries ih =>
    obtain ⟨name, node, hmem, hi⟩ := mem_listing.1 h
    rcases mem_listing_single.1 hi with ⟨_, _, -, he⟩ | ⟨found, rfl, hin⟩
    · cases he
    obtain ⟨inner, hinner, rfl⟩ := mem_settled_directory.1 hmem
    obtain ⟨hname, hlookup, hnode⟩ := tidy_of_mem htidy hinner
    obtain ⟨hsize, hinside⟩ := fits_of_mem hfits hinner
    have hfound := FileSystem.node?_join hbase hname hlookup nofun hsize
    -- What is listed in the first directory on the way is listed here.
    have hbelow (j : String × Option Bytes) (hj : j ∈ listing (settled fs (Path.join base name) inner)) :
        (name ++ "/" ++ j.1, j.2) ∈ listing (settled fs base entries) :=
      mem_listing.2 ⟨name, _, hmem, mem_listing_single.2 (.inr ⟨_, rfl, .inr ⟨j, hj, rfl⟩⟩)⟩
    rcases hin with he | ⟨j, hj, he⟩
    · cases he
      exact ⟨inner, hfound, hbelow⟩
    · obtain ⟨deeper, content⟩ := j
      cases he
      obtain ⟨found, hdeeper, hall⟩ :=
        ih name inner hinner hfound hnode (hinside inner rfl) hj
      have hclean := clean_of_mem_listing (plain_settled hnode) hj
      have hjoin := path_join_join base (.of_ordinary hname) hclean.relative
      rw [hjoin] at hdeeper hall
      refine ⟨found, hdeeper, fun j hj => ?_⟩
      simpa only [String.append_assoc] using hbelow _ (hall j hj)

/-- A file that is listed can be read. -/
theorem file_of_mem_listing (hbase : fs.node? base = .ok (.directory entries))
    (htidy : tidy entries) (hfits : Module.fits base entries) {path : String} {content : Bytes}
    (h : (path, some content) ∈ listing (settled fs base entries)) :
    fs.readFile (Path.join base path) = .ok content := by
  induction entries using entries_induction generalizing base path with
  | h entries ih =>
    obtain ⟨name, node, hmem, hi⟩ := mem_listing.1 h
    rcases mem_listing_single.1 hi with ⟨_, executable, rfl, he⟩ | ⟨found, rfl, he | ⟨j, hj, he⟩⟩
    · cases he
      rcases mem_settled_file.1 hmem with hfile | ⟨target, -, hread, -⟩
      · obtain ⟨hname, hlookup, -⟩ := tidy_of_mem htidy hfile
        have hsize := (fits_of_mem hfits hfile).1
        have hlink (target : String) : Node.file content executable ≠ .link target := Node.noConfusion
        rw [FileSystem.readFile, FileSystem.node?_join hbase hname hlookup hlink hsize]
      · exact hread
    · cases he
    · obtain ⟨deeper, content⟩ := j
      cases he
      obtain ⟨inner, hinner, rfl⟩ := mem_settled_directory.1 hmem
      obtain ⟨hname, hlookup, hnode⟩ := tidy_of_mem htidy hinner
      obtain ⟨hsize, hinside⟩ := fits_of_mem hfits hinner
      have hlink (target : String) : Node.directory inner ≠ .link target := Node.noConfusion
      have hfound := FileSystem.node?_join hbase hname hlookup hlink hsize
      have hclean := clean_of_mem_listing (plain_settled hnode) hj
      rw [← path_join_join base (.of_ordinary hname) hclean.relative]
      exact ih name inner hinner hfound hnode (hinside inner rfl) hj

/-- A listed file of a module in a plain directory is read. -/
theorem read_of_mem_listing (hbase : fs.node? base = .ok (.directory entries))
    (hplain : plain entries) (hfits : Module.fits base entries) (tree : Tree) {path : String}
    {content : Bytes} (h : (path, some content) ∈ listing entries) :
    Module.read fs ⟨.directory base, tree⟩ path = .ok (some content) := by
  have hread : fs.readFile (Path.join base path) = .ok content :=
    file_of_mem_listing hbase (tidy_of_plain hplain) hfits (by rwa [settled_of_plain hplain])
  rw [Module.read]
  simp only [FileSystem.isFile_iff.2 ⟨content, hread⟩, hread, if_true]

/-- A single name leads to a file only if the file is listed, or a link to it is. -/
theorem mem_listing_of_isFile_join (hbase : fs.node? base = .ok (.directory entries)) {name : String}
    (hsingle : '/' ∉ name.toList) (h : fs.isFile (Path.join base name)) :
    ∃ content, (name, some content) ∈ listing (settled fs base entries) ∧
      fs.readFile (Path.join base name) = .ok content := by
  have hlisted {content : Bytes} {executable : Bool}
      (hmem : (name, .file content executable) ∈ settled fs base entries) :
      (name, some content) ∈ listing (settled fs base entries) :=
    mem_listing.2 ⟨name, _, hmem, mem_listing_single.2 (.inl ⟨content, executable, rfl, rfl⟩)⟩
  by_cases hlink : ∃ target, entries.lookup name = some (.link target)
  · obtain ⟨target, hlookup⟩ := hlink
    obtain ⟨content, hread⟩ := FileSystem.isFile_iff.1 h
    exact ⟨content, hlisted (mem_settled_file.2 (.inr ⟨target, mem_of_lookup hlookup, hread, rfl⟩)),
      hread⟩
  · obtain ⟨content, executable, hlookup, hread⟩ := FileSystem.lookup_of_isFile_join hbase hsingle
      (fun target h => hlink ⟨target, h⟩) h
    exact ⟨content, hlisted (mem_settled_file.2 (.inl (mem_of_lookup hlookup))), hread⟩

/-- A path whose folder is listed leads to a file only if it is listed itself. -/
theorem mem_listing_of_isFile (hbase : fs.node? base = .ok (.directory entries))
    (htidy : tidy entries) (hfits : Module.fits base entries) {path : String}
    (hrelative : Path.isAbsolute path = false)
    (hfolder : Text.parentPath path = "" ∨
      (Text.parentPath path, none) ∈ listing (settled fs base entries))
    (h : fs.isFile (Path.join base path)) :
    ∃ content, (path, some content) ∈ listing (settled fs base entries) ∧
      fs.readFile (Path.join base path) = .ok content := by
  have hlast := Text.not_mem_lastSegment path
  rcases Text.eq_lastSegment_or path with ⟨-, hsame⟩ | hpath
  · rw [← hsame] at hlast
    exact mem_listing_of_isFile_join hbase hlast h
  · generalize Text.parentPath path = dir at hpath hfolder
    generalize Text.lastSegment path = last at hpath hlast
    subst hpath
    rcases hfolder with rfl | hfolder
    · -- Such a path would begin with a slash.
      rw [String.empty_append, isAbsolute_append (by decide)] at hrelative
      cases hrelative
    · obtain ⟨inner, hdir, hall⟩ := directory_of_mem_listing hbase htidy hfits hfolder
      have hclean := clean_of_mem_listing (plain_settled htidy) hfolder
      rw [← path_join_join base hclean (FileSystem.isAbsolute_of_single hlast)] at h ⊢
      obtain ⟨content, hmem, hread⟩ := mem_listing_of_isFile_join hdir hlast h
      exact ⟨content, hall _ hmem, hread⟩

/-- A module that is a tidy directory has the files that are listed, and no others in the
    folders that it has. -/
theorem read_settled (hbase : fs.node? base = .ok (.directory entries))
    (htidy : tidy entries) (hfits : Module.fits base entries) (tree : Tree) {path : String}
    (hrelative : Path.isAbsolute path = false)
    (hfolder : Text.parentPath path = "" ∨
      (Text.parentPath path, none) ∈ listing (settled fs base entries)) :
    (∃ content, (path, some content) ∈ listing (settled fs base entries) ∧
        Module.read fs ⟨.directory base, tree⟩ path = .ok (some content)) ∨
      ((∀ content, (path, some content) ∉ listing (settled fs base entries)) ∧
        Module.read fs ⟨.directory base, tree⟩ path = .ok none) := by
  rw [Module.read]
  by_cases hfile : fs.isFile (Path.join base path)
  · obtain ⟨content, hmem, hread⟩ := mem_listing_of_isFile hbase htidy hfits hrelative hfolder hfile
    refine .inl ⟨content, hmem, ?_⟩
    dsimp only
    rw [if_pos hfile, hread]
  · refine .inr ⟨fun content hmem => hfile ?_, ?_⟩
    · exact FileSystem.isFile_iff.2 ⟨content, file_of_mem_listing hbase htidy hfits hmem⟩
    · dsimp only
      rw [if_neg hfile]

/-- A module that is a plain directory has the files that are listed, and no others in the
    folders that it has. -/
theorem read_directory (hbase : fs.node? base = .ok (.directory entries))
    (hplain : plain entries) (hfits : Module.fits base entries) (tree : Tree) {path : String}
    (hrelative : Path.isAbsolute path = false)
    (hfolder : Text.parentPath path = "" ∨ (Text.parentPath path, none) ∈ listing entries) :
    (∃ content, (path, some content) ∈ listing entries ∧
        Module.read fs ⟨.directory base, tree⟩ path = .ok (some content)) ∨
      ((∀ content, (path, some content) ∉ listing entries) ∧
        Module.read fs ⟨.directory base, tree⟩ path = .ok none) := by
  have hsettled : settled fs base entries = entries := settled_of_plain hplain
  have hread := @read_settled fs base entries hbase (tidy_of_plain hplain) hfits tree path hrelative
  rw [hsettled] at hread
  exact hread hfolder

end

end Image

end PlatformImage
