import PlatformImage.Proofs.Links
import PlatformImage.Proofs.Requests
import PlatformImage.Proofs.SamePath
/-! File systems as they are on a disk: the names in a directory are ordinary ones, and each
is there once.

Nothing in a path can be followed that is no such name, so a file system stays tidy when
directories are made along a path (`tidyNode_makeDirectories`), and a session keeps it tidy
that puts nothing under other names (`Session.tidy_runs`). -/
namespace PlatformImage

/-! ## Changes to a directory -/

namespace Image

section
variable {entries : List (String × Node)} {name : String} {node : Node}

theorem mem_names_put {k : String} (h : k ∈ (Node.put name node entries).map (·.1)) :
    k = name ∨ k ∈ entries.map (·.1) := by
  induction entries with
  | nil => exact .inl (List.mem_singleton.1 h)
  | cons e rest ih =>
    obtain ⟨first, n⟩ := e
    rw [Node.put] at h
    split at h
    · exact (List.mem_cons.1 h).imp_right (List.mem_cons_of_mem _)
    · rcases List.mem_cons.1 h with rfl | h
      · exact .inr List.mem_cons_self
      · exact (ih h).imp_right (List.mem_cons_of_mem _)

theorem tidy_put (htidy : tidy entries) (hname : Ordinary name) (hnode : tidyNode node) :
    tidy (Node.put name node entries) := by
  induction entries with
  | nil => exact tidy_cons.2 ⟨hname, List.not_mem_nil, hnode, by simp [tidy]⟩
  | cons e rest ih =>
    obtain ⟨first, n⟩ := e
    obtain ⟨hfirst, hnew, hn, hrest⟩ := tidy_cons.1 htidy
    rw [Node.put]
    split
    · next he => exact tidy_cons.2 ⟨hname, he ▸ hnew, hnode, hrest⟩
    · next hne =>
      refine tidy_cons.2 ⟨hfirst, fun hmem => ?_, hn, ih hrest⟩
      rcases mem_names_put hmem with he | hmem
      · exact hne he
      · exact hnew hmem

theorem tidy_filter (htidy : tidy entries) (p : String × Node → Bool) :
    tidy (entries.filter p) := by
  induction entries with
  | nil => exact htidy
  | cons e rest ih =>
    obtain ⟨first, n⟩ := e
    obtain ⟨hfirst, hnew, hn, hrest⟩ := tidy_cons.1 htidy
    rw [List.filter_cons]
    split
    · refine tidy_cons.2 ⟨hfirst, fun hmem => hnew ?_, hn, ih hrest⟩
      obtain ⟨e, he, rfl⟩ := List.mem_map.1 hmem
      exact List.mem_map_of_mem (List.mem_filter.1 he).1
    · exact ih hrest

/-- A change that keeps directories tidy may be made anywhere in a tree. -/
theorem tidyNode_modifyAt {f : List (String × Node) → List (String × Node)}
    (hf : ∀ es, tidy es → tidy (f es)) (l : Location) (hnode : tidyNode node) :
    tidyNode (node.modifyAt f l) := by
  fun_induction Node.modifyAt f l node with
  | case1 es => exact hf es hnode
  | case2 name names es child hlookup ih =>
    obtain ⟨hname, -, hchild⟩ := tidy_of_mem hnode (mem_of_lookup hlookup)
    exact tidy_put hnode hname (ih hchild)
  | case3 => exact hnode
  | case4 => exact hnode

/-- A file may get another content. -/
theorem tidyNode_rewriteAt (content : Bytes) (l : Location) (hnode : tidyNode node) :
    tidyNode (node.rewriteAt content l) := by
  fun_induction Node.rewriteAt content l node with
  | case1 => rfl
  | case2 name names es child hlookup ih =>
    obtain ⟨hname, -, hchild⟩ := tidy_of_mem hnode (mem_of_lookup hlookup)
    exact tidy_put hnode hname (ih hchild)
  | case3 => exact hnode
  | case4 => exact hnode

theorem tidyNode_at? {m : Node} {l : Location} (hnode : tidyNode node) (h : node.at? l = some m) :
    tidyNode m := by
  induction l generalizing node with
  | nil =>
    cases h
    exact hnode
  | cons name names ih =>
    rw [Node.at?] at h
    cases hlookup : node.entries.lookup name with
    | none =>
      rw [hlookup] at h
      cases h
    | some child =>
      rw [hlookup] at h
      cases node with
      | directory entries => exact ih (tidy_of_mem hnode (mem_of_lookup hlookup)).2.2 h
      | file content executable => cases hlookup
      | link target => cases hlookup

end

end Image

namespace FileSystem

open Image (tidy tidyNode tidyNode_modifyAt tidyNode_rewriteAt tidyNode_at?)

/-- A file system in whose directories each name is an ordinary one, and there once. -/
def Tidy (fs : FileSystem) : Prop := tidyNode fs.root = true

/-- A part of a path as it may be followed. -/
structure Part (part : String) : Prop where
  single : '/' ∉ part.toList
  noNul : '\x00' ∉ part.toList

theorem part_of_mem_segments {path part : String} (hnul : '\x00' ∉ path.toList)
    (h : part ∈ Text.segments path) : Part part :=
  ⟨Text.not_mem_of_mem_segments h, fun hmem => hnul ((Text.mem_segments (by decide)).1 ⟨part, h, hmem⟩)⟩

section
variable {fs : FileSystem} {path : String}

theorem Tidy.directory {entries : List (String × Node)} (hfs : fs.Tidy)
    (h : fs.node? path = .ok (.directory entries)) : tidy entries := by
  obtain ⟨loc, -, hloc⟩ := node?_eq_ok.1 h
  exact tidyNode_at? hfs hloc

/-- Directories that are made along a path have ordinary names. -/
theorem tidyNode_makeDirectories {links : Nat} {root root' : Node} {here place : Location}
    {parts : List String} (hroot : tidyNode root) (hparts : ∀ part ∈ parts, Part part)
    (h : makeDirectories links root here parts = .ok (root', place)) : tidyNode root' := by
  fun_induction makeDirectories links root here parts with
  | case1 links root here =>
    cases h
    exact hroot
  | case2 links root here part rest hsame ih =>
    exact ih hroot (fun p hp => hparts p (List.mem_cons_of_mem part hp)) h
  | case3 links root here rest hsame ih =>
    exact ih hroot (fun p hp => hparts p (List.mem_cons_of_mem _ hp)) h
  | case4 links root here part rest hsame habove next hnext ih =>
    have hpart := hparts part List.mem_cons_self
    have hname : Ordinary part := ⟨fun he => hsame (.inl he), fun he => hsame (.inr he), habove,
      hpart.single, hpart.noNul⟩
    refine ih (tidyNode_modifyAt (fun es hes => ?_) here hroot)
      (fun p hp => hparts p (List.mem_cons_of_mem part hp)) h
    exact Image.tidy_put hes hname (by simp [tidyNode, tidy])
  | case5 links root here part rest hsame habove next entries hnext ih =>
    exact ih hroot (fun p hp => hparts p (List.mem_cons_of_mem part hp)) h
  | case6 => cases h
  | case7 => cases h
  | case8 root here part rest hsame habove next target hnext links start ih =>
    have htarget : '\x00' ∉ target.toList := by
      simpa [tidyNode] using tidyNode_at? hroot hnext
    refine ih hroot (fun p hp => ?_) h
    rcases List.mem_append.1 hp with hp | hp
    · exact part_of_mem_segments htarget hp
    · exact hparts p (List.mem_cons_of_mem part hp)

theorem Tidy.addDirectory (hfs : fs.Tidy) (hnul : '\x00' ∉ path.toList) :
    (fs.addDirectory path).Tidy := by
  unfold FileSystem.addDirectory
  split
  · next root place henter =>
    exact tidyNode_makeDirectories hfs (fun part hp => part_of_mem_segments hnul hp) henter
  · exact hfs

theorem dropTail_subset (cs : List Char) : Path.dropTail cs ⊆ cs := by
  fun_induction Path.dropTail cs with
  | case1 r ih => exact fun c hc => List.mem_cons_of_mem _ (ih hc)
  | case2 r ih => exact fun c hc => List.mem_cons_of_mem _ (List.mem_cons_of_mem _ (ih hc))
  | case3 r => exact fun c hc => hc

theorem getLast?_segments (path : String) :
    (Text.segments path).getLast? = some (Text.lastSegment path) := by
  have hlast := Text.segments_eq_single (Text.not_mem_lastSegment path)
  rcases Text.eq_lastSegment_or path with ⟨-, hsame⟩ | hjoin
  · rw [← hsame] at hlast ⊢
    rw [hlast]
    rfl
  · have hsegments : Text.segments path =
        Text.segments (Text.parentPath path) ++ [Text.lastSegment path] := by
      conv_lhs => rw [hjoin]
      rw [Text.segments_append, hlast]
    rw [hsegments, List.getLast?_concat]

/-- A file system stays tidy if something is put under a name. -/
theorem Tidy.add (hfs : fs.Tidy) (hnul : '\x00' ∉ path.toList)
    (hname : (Path.fileName? path).isSome) {node : Node} (hnode : tidyNode node) :
    (fs.add path node).Tidy := by
  have htrimmed : '\x00' ∉ (Path.trimTail path).toList := by
    intro hmem
    rw [Path.trimTail, String.toList_ofList, List.mem_reverse] at hmem
    exact hnul (List.mem_reverse.1 (dropTail_subset _ hmem))
  have hparts : ∀ part ∈ Text.segments (Path.trimTail path), Part part :=
    fun part hp => part_of_mem_segments htrimmed hp
  unfold FileSystem.add
  dsimp only
  split
  · next root here name henter hlast =>
    have hroot : tidyNode root := tidyNode_makeDirectories hfs
      (fun part hp => hparts part (List.dropLast_subset _ hp)) henter
    split
    · exact hroot
    · have hordinary : Ordinary name := by
        have hpart := hparts name (List.mem_of_getLast? hlast)
        rw [getLast?_segments] at hlast
        cases hlast
        unfold Path.fileName? at hname
        dsimp only at hname
        split at hname
        · cases hname
        · next hproper =>
          rw [not_or, not_or] at hproper
          exact ⟨hproper.1, hproper.2.1, hproper.2.2, hpart.single, hpart.noNul⟩
      exact tidyNode_modifyAt (fun es hes => Image.tidy_put hes hordinary hnode) here hroot
  · exact hfs

theorem Tidy.overwrite (hfs : fs.Tidy) (path : String) (content : Bytes) :
    (fs.overwrite path content).Tidy := by
  unfold FileSystem.overwrite
  split
  · exact tidyNode_rewriteAt content _ hfs
  · exact hfs

theorem Tidy.remove (hfs : fs.Tidy) {fs' : FileSystem} (h : fs.remove? path = some fs') :
    fs'.Tidy := by
  unfold remove? at h
  split at h
  · cases h
  · split at h
    · cases h
    · cases h
      exact tidyNode_modifyAt (fun es hes => Image.tidy_filter hes _) _ hfs

/-- A file system with nothing but a current directory. -/
theorem tidy_emptyAt {current : Location} (h : ∀ name ∈ current, Ordinary name) :
    (emptyAt current).Tidy := by
  unfold emptyAt Tidy
  induction current with
  | nil => simp [tidyNode, tidy]
  | cons name rest ih =>
    have hrest := ih fun k hk => h k (List.mem_cons_of_mem name hk)
    exact Image.tidy_cons.2 ⟨h name List.mem_cons_self, List.not_mem_nil, hrest, by simp [tidy]⟩

end

end FileSystem

/-! ## Sessions -/

namespace Session

/-- Whether something can be put at a path: a file or a link only under a name. -/
def FileSpec.Placeable (spec : FileSpec) (path : String) : Prop :=
  '\x00' ∉ path.toList ∧
    match spec with
    | .directory => True
    | .bytes _ _ | .archive _ _ => (Path.fileName? path).isSome
    | .link target => (Path.fileName? path).isSome ∧ '\x00' ∉ target.toList

/-- A request that writes nothing which no disk could have. -/
def Request.Placeable : Request → Prop
  | .write path spec => spec.Placeable path
  | _ => True

theorem tidy_addTo {spec : FileSpec} {fs : FileSystem} {path : String} (hfs : fs.Tidy)
    (hspec : spec.Placeable path) : (spec.addTo fs path).Tidy := by
  obtain ⟨hnul, hspec⟩ := hspec
  cases spec with
  | bytes content executable => exact hfs.add hnul hspec rfl
  | directory => exact hfs.addDirectory hnul
  | link target => exact hfs.add hnul hspec.1 (by simpa [Image.tidyNode] using hspec.2)
  | archive front items => exact hfs.add hnul hspec rfl

/-- A request keeps the file system tidy. -/
theorem tidy_run {s : Session} {r : Request} (hs : s.files.Tidy) (hr : r.Placeable) :
    (s.run r).session.files.Tidy := by
  have hchange := change_run s r
  generalize (s.run r).session = s' at hchange
  generalize (s.run r).notices = notices at hchange
  cases hchange with
  | write path spec => exact tidy_addTo hs hr
  | overwrite path content => exact hs.overwrite path content
  | remove h => exact hs.remove h
  | publish register => rwa [files_setRegister]
  | @useEntry name use =>
    change (s.setRegister _ use.register).files.Tidy
    rwa [files_setRegister]
  | _ => exact hs

/-- **A session keeps its file system tidy**, from nothing but a current directory on. -/
theorem tidy_runs {current : Location} (hcurrent : ∀ name ∈ current, Ordinary name)
    (vars : JavaHome.Variables) {rs : List Request} (hrs : ∀ r ∈ rs, r.Placeable) :
    ((start (.emptyAt current) vars).after rs).files.Tidy := by
  have hstart : (start (.emptyAt current) vars).files.Tidy := FileSystem.tidy_emptyAt hcurrent
  generalize start (.emptyAt current) vars = s at hstart
  induction rs generalizing s with
  | nil => exact hstart
  | cons r rs ih =>
    exact ih (fun q hq => hrs q (List.mem_cons_of_mem r hq)) _
      (tidy_run hstart (hrs r List.mem_cons_self))

end Session

end PlatformImage
