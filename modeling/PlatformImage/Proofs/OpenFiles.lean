import PlatformImage.Archive.Zip
import PlatformImage.Proofs.Resolve
/-! Files that are held open. What an open file holds when it is opened is what is read
under its path (`readFile_eq`). From then on only what is written into it changes that: to
make directories, to put a file or a link somewhere, its own place included, and to remove
what there is leaves what it holds (`Keeps`), and what is written into a file is held by
those who have it open, and by no others (`overwrite_spec`). -/
namespace PlatformImage

/-! ## Changes to a tree -/

namespace Node

section
variable {entries : List (String × Node)} {name k : String} {node : Node}

theorem lookup_put_self : (put name node entries).lookup name = some node := by
  induction entries with
  | nil => exact List.lookup_cons_self
  | cons e rest ih =>
    obtain ⟨first, n⟩ := e
    rw [put]
    split
    · exact List.lookup_cons_self
    · next hne => rw [List.lookup_cons, beq_false_of_ne (Ne.symm hne), ih]

theorem lookup_put_of_ne (hne : k ≠ name) :
    (put name node entries).lookup k = entries.lookup k := by
  induction entries with
  | nil => rw [put, List.lookup_cons, beq_false_of_ne hne]
  | cons e rest ih =>
    obtain ⟨first, n⟩ := e
    rw [put]
    split
    · next heq => rw [List.lookup_cons, List.lookup_cons, heq, beq_false_of_ne hne]
    · rw [List.lookup_cons, List.lookup_cons, ih]

theorem lookup_filter_of_ne (hne : k ≠ name) :
    (entries.filter fun e => e.1 ≠ name).lookup k = entries.lookup k := by
  induction entries with
  | nil => rfl
  | cons e rest ih =>
    obtain ⟨first, n⟩ := e
    by_cases hfirst : first = name
    · rw [List.filter_cons_of_neg (by simpa using hfirst), ih, List.lookup_cons, hfirst,
        beq_false_of_ne hne]
    · rw [List.filter_cons_of_pos (by simpa using hfirst), List.lookup_cons, List.lookup_cons, ih]

end

section
variable {n : Node} {here place : Location} {name : String} {content : Bytes} {executable : Bool}

theorem at?_cons (n : Node) (name : String) (names : Location) :
    n.at? (name :: names) = (n.entries.lookup name).bind (at? names) := by
  rw [at?]
  cases n.entries.lookup name <;> rfl

/-- A file below a place is in a directory there. -/
theorem directory_of_file_below (h : n.at? (here ++ name :: place) = some (.file content executable)) :
    ∃ es child, n.at? here = some (.directory es) ∧ es.lookup name = some child ∧
      child.at? place = some (.file content executable) := by
  rw [at?_append] at h
  obtain ⟨above, habove, hbelow⟩ := Option.bind_eq_some_iff.1 h
  rw [at?_cons] at hbelow
  obtain ⟨child, hchild, hplace⟩ := Option.bind_eq_some_iff.1 hbelow
  cases above with
  | directory es => exact ⟨es, child, habove, hchild, hplace⟩
  | _ => cases hchild

/-- A change to a directory leaves the files that are not below it. -/
theorem at?_modifyAt_of_apart (g : List (String × Node) → List (String × Node))
    (h : n.at? place = some (.file content executable))
    (hapart : ∀ name rest, place ≠ here ++ name :: rest) :
    (n.modifyAt g here).at? place = some (.file content executable) := by
  fun_induction modifyAt g here n generalizing place with
  | case1 es =>
    cases place with
    | nil => cases h
    | cons name rest => exact absurd rfl (hapart name rest)
  | case2 name names es child hlookup ih =>
    cases place with
    | nil => cases h
    | cons k rest =>
      rw [at?_cons] at h ⊢
      by_cases hk : k = name
      · subst hk
        rw [entries, hlookup, Option.bind_some] at h
        rw [entries, lookup_put_self, Option.bind_some]
        refine ih h fun k' rest' hrest => hapart k' rest' ?_
        rw [hrest, List.cons_append]
      · rw [entries, lookup_put_of_ne hk]
        exact h
  | case3 => exact h
  | case4 => exact h

/-- Below a directory there are after a change those that the changed one has. -/
theorem at?_modifyAt_below (g : List (String × Node) → List (String × Node))
    {es : List (String × Node)} (hhere : n.at? here = some (.directory es)) (rest : Location) :
    (n.modifyAt g here).at? (here ++ rest) = (directory (g es)).at? rest := by
  fun_induction modifyAt g here n with
  | case1 => cases hhere; rfl
  | case2 name names es' child hlookup ih =>
    rw [at?_cons, entries, hlookup, Option.bind_some] at hhere
    rw [List.cons_append, at?_cons, entries, lookup_put_self, Option.bind_some]
    exact ih hhere
  | case3 name names es' hlookup =>
    rw [at?_cons, entries, hlookup] at hhere
    cases hhere
  | case4 here n hfirst hsecond =>
    cases here with
    | nil =>
      cases hhere
      exact absurd rfl (hfirst es rfl)
    | cons name names =>
      rw [at?_cons] at hhere
      cases n with
      | directory es' => exact absurd rfl (hsecond name names es' rfl)
      | _ => cases hhere

/-- A change to what a directory has under one name leaves the files that are not there. -/
theorem at?_modifyAt_of_other {g : List (String × Node) → List (String × Node)}
    (hg : ∀ es k, k ≠ name → (g es).lookup k = es.lookup k)
    (h : n.at? place = some (.file content executable))
    (hother : ∀ rest, place ≠ here ++ name :: rest) :
    (n.modifyAt g here).at? place = some (.file content executable) := by
  by_cases hbelow : ∃ k rest, place = here ++ k :: rest
  · obtain ⟨k, rest, rfl⟩ := hbelow
    obtain ⟨es, child, hhere, hchild, hrest⟩ := directory_of_file_below h
    have hne : k ≠ name := by
      rintro rfl
      exact hother rest rfl
    rw [at?_modifyAt_below g hhere, at?_cons, entries, hg es k hne, hchild, Option.bind_some, hrest]
  · exact at?_modifyAt_of_apart g h fun k rest hplace => hbelow ⟨k, rest, hplace⟩

/-- Where a file gets another content, all other files stay. -/
theorem at?_rewriteAt {written : Location} {old : Bytes}
    (h : n.at? place = some (.file old executable)) :
    (n.rewriteAt content written).at? place =
      some (.file (if place = written then content else old) executable) := by
  fun_induction rewriteAt content written n generalizing place with
  | case1 =>
    cases place with
    | nil =>
      cases h
      rfl
    | cons name rest => cases h
  | case2 name names es child hlookup ih =>
    cases place with
    | nil => cases h
    | cons k rest =>
      rw [at?_cons] at h ⊢
      by_cases hk : k = name
      · subst hk
        rw [entries, hlookup, Option.bind_some] at h
        rw [entries, lookup_put_self, Option.bind_some, ih h]
        simp only [List.cons.injEq, true_and]
      · rw [entries, lookup_put_of_ne hk, if_neg fun heq => hk (List.cons.inj heq).1]
        exact h
  | case3 name names es hlookup =>
    rw [if_neg, h]
    rintro rfl
    rw [at?_cons, entries, hlookup] at h
    cases h
  | case4 written n hfirst hsecond =>
    rw [if_neg, h]
    rintro rfl
    cases place with
    | nil =>
      cases h
      exact hfirst _ _ rfl rfl
    | cons name names =>
      rw [at?_cons] at h
      cases n with
      | directory es => exact hsecond name names es rfl rfl
      | _ => cases h

end

/-! ## The files that go -/

section
variable {here place : Location} {es : List (String × Node)} {name : String} {content : Bytes}
  {executable : Bool}

/-- What is kept of files that go from a place. -/
def lastAt (place : Location) (files : List (Location × Bytes)) : List Bytes :=
  (files.filter (·.1 = place)).map (·.2)

theorem lastAt_append (xs ys : List (Location × Bytes)) :
    lastAt place (xs ++ ys) = lastAt place xs ++ lastAt place ys := by
  rw [lastAt, List.filter_append, List.map_append, lastAt, lastAt]

theorem lastAt_eq_nil {files : List (Location × Bytes)} (h : ∀ f ∈ files, f.1 ≠ place) :
    lastAt place files = [] := by
  rw [lastAt, List.filter_eq_nil_iff.2 fun f hf => by simpa using h f hf, List.map_nil]

/-- The files in a directory are below its place, each behind a name in it. -/
theorem below_of_mem_filesIn {f : Location × Bytes} (h : f ∈ filesIn here es) :
    ∃ name ∈ es.map (·.1), ∃ rest, f.1 = here ++ name :: rest := by
  fun_induction filesIn here es with
  | case1 => cases h
  | case2 here name content executable rest ih =>
    rcases List.mem_cons.1 h with rfl | h
    · exact ⟨name, List.mem_cons_self, [], rfl⟩
    · obtain ⟨k, hk, below, hf⟩ := ih h
      exact ⟨k, List.mem_cons_of_mem name hk, below, hf⟩
  | case3 here name inner rest ihinner ih =>
    rcases List.mem_append.1 h with h | h
    · obtain ⟨k, -, below, hf⟩ := ihinner h
      exact ⟨name, List.mem_cons_self, k :: below,
        by rw [hf, List.append_assoc, List.singleton_append]⟩
    · obtain ⟨k, hk, below, hf⟩ := ih h
      exact ⟨k, List.mem_cons_of_mem name hk, below, hf⟩
  | case4 here name target rest ih =>
    obtain ⟨k, hk, below, hf⟩ := ih h
    exact ⟨k, List.mem_cons_of_mem name hk, below, hf⟩

theorem filesIn_append (xs ys : List (String × Node)) :
    filesIn here (xs ++ ys) = filesIn here xs ++ filesIn here ys := by
  induction xs with
  | nil => rw [filesIn, List.nil_append, List.nil_append]
  | cons e xs ih =>
    obtain ⟨name, node⟩ := e
    cases node with
    | file bytes mode => rw [List.cons_append, filesIn, filesIn, ih, List.cons_append]
    | directory inner => rw [List.cons_append, filesIn, filesIn, ih, List.append_assoc]
    | link target => rw [List.cons_append, filesIn, filesIn, ih]

/-- Nothing goes from below a name that a directory does not have. -/
theorem lastAt_filesIn_of_not_mem {rest : Location} (hname : name ∉ es.map (·.1)) :
    lastAt (here ++ name :: rest) (filesIn here es) = [] := by
  refine lastAt_eq_nil fun f hf hplace => ?_
  obtain ⟨k, hk, below, hbelow⟩ := below_of_mem_filesIn hf
  rw [hbelow] at hplace
  exact hname ((List.cons.inj (List.append_cancel_left hplace)).1 ▸ hk)

/-- Of all that goes from the place of a file, the file goes first. -/
theorem lastAt_filesIn (h : (directory es).at? place = some (.file content executable)) :
    ∃ later, lastAt (here ++ place) (filesIn here es) = content :: later := by
  induction place generalizing here es with
  | nil => cases h
  | cons name rest ih =>
    rw [at?_cons, entries] at h
    obtain ⟨child, hchild, hrest⟩ := Option.bind_eq_some_iff.1 h
    -- What stands before the child has other names, and what goes after it does not matter.
    obtain ⟨before, after, rfl, hbefore⟩ := List.lookup_eq_some_iff.1 hchild
    have hnew : name ∉ before.map (·.1) := by
      intro hmem
      obtain ⟨e, he, heq⟩ := List.mem_map.1 hmem
      exact bne_iff_ne.1 (hbefore e he) heq.symm
    have hsplit : filesIn here (before ++ (name, child) :: after) =
        filesIn here before ++ (filesIn here [(name, child)] ++ filesIn here after) := by
      rw [filesIn_append, ← filesIn_append [(name, child)], List.singleton_append]
    suffices hfirst : ∃ later, lastAt (here ++ name :: rest) (filesIn here [(name, child)]) =
        content :: later by
      obtain ⟨later, hlater⟩ := hfirst
      exact ⟨_, by rw [hsplit, lastAt_append, lastAt_append, lastAt_filesIn_of_not_mem hnew, hlater,
        List.nil_append, List.cons_append]⟩
    cases child with
    | file bytes mode =>
      cases rest with
      | nil =>
        cases hrest
        exact ⟨[], by simp [filesIn, lastAt]⟩
      | cons k rest => cases hrest
    | directory inner =>
      obtain ⟨later, hlater⟩ := @ih (here ++ [name]) inner hrest
      rw [List.append_assoc, List.singleton_append] at hlater
      exact ⟨later, by rw [filesIn, filesIn, List.append_nil, hlater]⟩
    | link target => cases rest <;> cases hrest

variable {root : Node}

/-- Of what goes with what a directory has under a name, a file that goes from below goes
    first. -/
theorem lastAt_filesAt {rest : Location}
    (h : root.at? (here ++ name :: rest) = some (.file content executable)) :
    ∃ later, lastAt (here ++ name :: rest) (root.filesAt here name) = content :: later := by
  obtain ⟨es, child, hhere, hchild, hrest⟩ := directory_of_file_below h
  have hnode : root.at? (here ++ [name]) = some child := by
    rw [at?_append, hhere, Option.bind_some, at?_single, entries, hchild]
  rw [filesAt, hnode]
  have hfound : (directory ((some child).toList.map ((name, ·)))).at? (name :: rest) =
      some (.file content executable) := by
    rw [at?_cons, entries, Option.toList_some, List.map_singleton, List.lookup_cons_self,
      Option.bind_some, hrest]
  exact lastAt_filesIn hfound

theorem lastAt_filesAt_of_other (hother : ∀ rest, place ≠ here ++ name :: rest) :
    lastAt place (root.filesAt here name) = [] := by
  refine lastAt_eq_nil fun f hf hplace => ?_
  obtain ⟨k, hk, rest, hbelow⟩ := below_of_mem_filesIn hf
  cases hnode : root.at? (here ++ [name]) with
  | none =>
    rw [hnode] at hk
    cases hk
  | some child =>
    rw [hnode] at hk
    obtain rfl : k = name := List.mem_singleton.1 hk
    exact hother rest (hplace.symm.trans hbelow)

end

end Node

namespace FileSystem

open Node (lastAt lastAt_append lastAt_filesAt lastAt_filesAt_of_other)

variable {fs fs' : FileSystem} {f : OpenFile} {path : String} {content : Bytes}
  {executable : Bool}

/-! ## What an open file holds -/

/-- A file that has been opened is still at its place, or it has gone from there. -/
def IsOpen (fs : FileSystem) (f : OpenFile) : Prop :=
  f.earlier < (fs.goneFrom f.place).length ∨
    f.earlier = (fs.goneFrom f.place).length ∧
      ∃ content executable, fs.root.at? f.place = some (.file content executable)

theorem held_of_gone {last : Bytes} (h : (fs.goneFrom f.place)[f.earlier]? = some last) :
    fs.held f = last := by
  rw [held, h]

theorem held_of_there (hearlier : f.earlier = (fs.goneFrom f.place).length)
    (hfile : fs.root.at? f.place = some (.file content executable)) : fs.held f = content := by
  rw [held, hearlier, List.getElem?_eq_none (Nat.le_refl _), hfile]

theorem openFile_eq_ok : fs.openFile path = .ok f ↔ fs.resolve true path = .ok f.place ∧
    f.earlier = (fs.goneFrom f.place).length ∧
      ∃ content executable, fs.root.at? f.place = some (.file content executable) := by
  unfold openFile
  cases hplace : fs.resolve true path with
  | error e => exact ⟨nofun, fun h => nomatch h.1⟩
  | ok place =>
    simp only [bind, Except.bind, Except.ok.injEq]
    constructor
    · intro h
      split at h
      · next content executable hnode =>
        cases h
        exact ⟨rfl, rfl, content, executable, hnode⟩
      · cases h
      · cases h
    · rintro ⟨rfl, hearlier, content, executable, hfile⟩
      rw [hfile, ← hearlier]

theorem IsOpen.of_openFile (h : fs.openFile path = .ok f) : fs.IsOpen f :=
  .inr (openFile_eq_ok.1 h).2

/-- A file is opened with what is read under its path. -/
theorem readFile_eq (fs : FileSystem) (path : String) :
    fs.readFile path = (fs.openFile path).map fs.held := by
  unfold readFile node? openFile
  cases fs.resolve true path with
  | error e => rfl
  | ok place =>
    simp only [bind, Except.bind]
    rcases hnode : fs.root.at? place with _ | (⟨content, executable⟩ | target | es)
    · rfl
    · exact congrArg Except.ok (held_of_there (f := ⟨place, _⟩) rfl hnode).symm
    · rfl
    · rfl

theorem readFile_eq_ok :
    fs.readFile path = .ok content ↔ ∃ f, fs.openFile path = .ok f ∧ fs.held f = content := by
  rw [readFile_eq]
  cases fs.openFile path with
  | error e => simp [Except.map]
  | ok f => simp [Except.map]

theorem openFile_of_node? (h : fs.node? path = .ok (.file content executable)) :
    ∃ f, fs.openFile path = .ok f ∧ fs.held f = content := by
  apply readFile_eq_ok.1
  rw [readFile, h]

/-! ## Changes that leave what open files hold -/

/-- A change that leaves all open files, and what they hold. -/
def Keeps (fs fs' : FileSystem) : Prop :=
  ∀ f, fs.IsOpen f → fs'.IsOpen f ∧ fs'.held f = fs.held f

theorem Keeps.refl (fs : FileSystem) : fs.Keeps fs := fun _ hf => ⟨hf, rfl⟩

/-- A file that was opened stays as it is if it is still there, or is the first that has gone
    from its place since. -/
theorem keeps_of {root : Node} {went : List (Location × Bytes)}
    (h : ∀ place content executable, fs.root.at? place = some (.file content executable) →
      (root.at? place = some (.file content executable) ∧ lastAt place went = []) ∨
        ∃ later, lastAt place went = content :: later) :
    fs.Keeps { fs with root := root, gone := fs.gone ++ went } := by
  intro f hf
  have hgone : goneFrom { fs with root := root, gone := fs.gone ++ went } f.place =
      fs.goneFrom f.place ++ lastAt f.place went := lastAt_append _ _
  rcases hf with hbefore | ⟨hearlier, content, executable, hfile⟩
  · -- It had gone before.
    have hlast := List.getElem?_eq_getElem hbefore
    refine ⟨.inl ?_, ?_⟩
    · rw [hgone, List.length_append]
      omega
    · rw [held_of_gone hlast, held_of_gone]
      rw [hgone, List.getElem?_append_left hbefore, hlast]
  · rw [held_of_there hearlier hfile]
    rcases h f.place content executable hfile with ⟨hthere, hnone⟩ | ⟨later, hlater⟩
    · rw [hnone, List.append_nil] at hgone
      rw [← hgone] at hearlier
      exact ⟨.inr ⟨hearlier, content, executable, hthere⟩, held_of_there hearlier hthere⟩
    · rw [hlater] at hgone
      refine ⟨.inl ?_, held_of_gone ?_⟩
      · rw [hgone, hearlier, List.length_append, List.length_cons]
        omega
      · rw [hgone, hearlier, List.getElem?_append_right (Nat.le_refl _), Nat.sub_self]
        rfl

theorem Keeps.trans {fs'' : FileSystem} (h : fs.Keeps fs') (h' : fs'.Keeps fs'') :
    fs.Keeps fs'' := by
  intro f hf
  obtain ⟨hf', hheld⟩ := h f hf
  obtain ⟨hf'', hheld'⟩ := h' f hf'
  exact ⟨hf'', hheld'.trans hheld⟩

/-- What a directory has under one name may be changed, if the files that were there have
    gone. -/
theorem keeps_modifyAt {g : List (String × Node) → List (String × Node)} {name : String}
    (hg : ∀ es k, k ≠ name → (g es).lookup k = es.lookup k) (here : Location) :
    fs.Keeps { fs with
      root := fs.root.modifyAt g here
      gone := fs.gone ++ fs.root.filesAt here name } := by
  apply keeps_of
  intro place content executable hfile
  by_cases hbelow : ∃ rest, place = here ++ name :: rest
  · obtain ⟨rest, rfl⟩ := hbelow
    exact .inr (lastAt_filesAt hfile)
  · have hother : ∀ rest, place ≠ here ++ name :: rest := fun rest hplace => hbelow ⟨rest, hplace⟩
    exact .inl ⟨Node.at?_modifyAt_of_other hg hfile hother, lastAt_filesAt_of_other hother⟩

/-- Directories are made only where nothing is. -/
theorem at?_makeDirectories {links : Nat} {root root' : Node} {here there place : Location}
    {parts : List String} (hfile : root.at? place = some (.file content executable))
    (h : makeDirectories links root here parts = .ok (root', there)) :
    root'.at? place = some (.file content executable) := by
  fun_induction makeDirectories links root here parts with
  | case1 =>
    cases h
    exact hfile
  | case2 links root here part rest hsame ih => exact ih hfile h
  | case3 links root here rest hsame ih => exact ih hfile h
  | case4 links root here part rest hsame habove next hnext ih =>
    refine ih (Node.at?_modifyAt_of_other (fun es k hne => Node.lookup_put_of_ne hne) hfile ?_) h
    rintro below rfl
    have hpart : here ++ part :: below = next ++ below := by
      rw [List.append_assoc, List.singleton_append]
    rw [hpart, Node.at?_append, hnext] at hfile
    cases hfile
  | case5 links root here part rest hsame habove next entries hnext ih => exact ih hfile h
  | case6 => cases h
  | case7 => cases h
  | case8 root here part rest hsame habove next target hnext links start ih => exact ih hfile h

theorem keeps_enter {parts : List String} {root : Node} {here : Location}
    (h : fs.enter path parts = .ok (root, here)) : fs.Keeps { fs with root := root } := by
  have hkeeps : fs.Keeps { fs with root := root, gone := fs.gone ++ [] } :=
    keeps_of fun _ _ _ hfile => .inl ⟨at?_makeDirectories hfile h, rfl⟩
  rwa [List.append_nil] at hkeeps

theorem keeps_addDirectory (fs : FileSystem) (path : String) :
    fs.Keeps (fs.addDirectory path) := by
  unfold addDirectory
  split
  · next root here henter => exact keeps_enter henter
  · exact .refl fs

/-- A file or link takes the place of a file that stays open where it is held. -/
theorem keeps_add (fs : FileSystem) (path : String) (node : Node) :
    fs.Keeps (fs.add path node) := by
  unfold add
  dsimp only
  split
  · next root here name henter hlast =>
    refine (keeps_enter henter).trans ?_
    split
    · exact .refl _
    · exact keeps_modifyAt (fun es k hne => Node.lookup_put_of_ne hne) here
  · exact .refl fs

/-- What a path leads to is taken out of its directory. -/
theorem remove?_of_resolve {here : Location} {name : String}
    (h : fs.resolve false path = .ok (here ++ [name])) :
    fs.remove? path = some { fs with
      root := fs.root.modifyAt (fun es => es.filter fun e => e.1 ≠ name) here
      gone := fs.gone ++ fs.root.filesAt here name } := by
  rw [remove?, h]
  simp only [List.getLast?_concat, List.dropLast_concat]

theorem keeps_remove (h : fs.remove? path = some fs') : fs.Keeps fs' := by
  unfold remove? at h
  split at h
  · cases h
  · split at h
    · cases h
    · cases h
      exact keeps_modifyAt (fun es k hne => Node.lookup_filter_of_ne hne) _

/-! ## Writing into a file -/

/-- A file that is written into stays open where it is held, and holds what is written. All
    others hold what they held, those that were at its place before it too. -/
theorem overwrite_spec (hf : fs.IsOpen f) (path : String) (content : Bytes) :
    (fs.overwrite path content).IsOpen f ∧
    (fs.openFile path = .ok f → (fs.overwrite path content).held f = content) ∧
    (fs.openFile path ≠ .ok f → (fs.overwrite path content).held f = fs.held f) := by
  unfold overwrite
  cases hplace : fs.resolve true path with
  | error e =>
    refine ⟨hf, fun hopen => ?_, fun _ => rfl⟩
    rw [(openFile_eq_ok.1 hopen).1] at hplace
    cases hplace
  | ok written =>
    dsimp only
    rcases hf with hbefore | ⟨hearlier, old, executable, hfile⟩
    · -- It had gone before, so it is not the one at its place.
      have hlast := List.getElem?_eq_getElem hbefore
      refine ⟨.inl hbefore, fun hopen => ?_, fun _ => ?_⟩
      · have hnow := (openFile_eq_ok.1 hopen).2.1
        omega
      · rw [held_of_gone hlast]
        exact held_of_gone hlast
    · have hafter := @Node.at?_rewriteAt _ _ content _ written _ hfile
      refine ⟨.inr ⟨hearlier, _, _, hafter⟩, fun hopen => ?_, fun hother => ?_⟩
      · have hsame : f.place = written :=
          Except.ok.inj ((openFile_eq_ok.1 hopen).1.symm.trans hplace)
        rw [if_pos hsame] at hafter
        exact held_of_there hearlier hafter
      · have hne : f.place ≠ written := by
          rintro rfl
          exact hother (openFile_eq_ok.2 ⟨hplace, hearlier, old, executable, hfile⟩)
        rw [if_neg hne] at hafter
        rw [held_of_there hearlier hfile]
        exact held_of_there hearlier hafter

end FileSystem

/-! ## Open archives -/

namespace Archive.Zip

variable {fs fs' : FileSystem} {z z' : Zip} {file : OpenFile}

theorem ofFile_eq_ok :
    ofFile fs file = .ok z ↔ z.file = file ∧ Entry.directory (fs.held file) = .ok z.entries := by
  obtain ⟨place, entries⟩ := z
  unfold ofFile
  cases Entry.directory (fs.held file) with
  | error e => simp [Except.map]
  | ok found => simp [Except.map, eq_comm]

/-- Two open archives with the same entries, whose files hold the same. -/
structure Matches (fs : FileSystem) (z : Zip) (fs' : FileSystem) (z' : Zip) : Prop where
  entries : z'.entries = z.entries
  held : fs'.held z'.file = fs.held z.file

theorem Matches.read (h : Matches fs z fs' z') (name : String) :
    z'.read fs' name = z.read fs name := by
  unfold Zip.read
  rw [h.entries, h.held]

/-- There is nothing under the names that no entry has. -/
theorem read_eq_none {name : String} :
    z.read fs name = .ok none ↔ Entry.named? z.entries name = none := by
  unfold Zip.read
  cases Entry.named? z.entries name with
  | none => simp
  | some e => cases he : e.content (fs.held z.file) <;> simp [he, Except.map]

/-- The program ends at an entry that it can go to, if that is a fatal one. -/
theorem content_eq_fatal {bs : Bytes} {e : Entry} :
    e.content bs = .error .fatal ↔ ∃ source, e.goTo bs.toArray = .ok source ∧ e.isFatal := by
  unfold Entry.content
  cases e.goTo bs.toArray with
  | error why => exact ⟨nofun, nofun⟩
  | ok source =>
    cases e.isFatal with
    | true => exact ⟨fun _ => ⟨source, rfl, rfl⟩, fun _ => rfl⟩
    | false =>
      refine ⟨fun h => ?_, nofun⟩
      -- What is read behind that fails for other reasons.
      change source.content.mapError EntryError.content = .error .fatal at h
      cases hcontent : source.content <;> rw [hcontent] at h <;> cases h

theorem read_eq_fatal {name : String} :
    z.read fs name = .error .fatal ↔ ∃ e source, Entry.named? z.entries name = some e ∧
      e.goTo (fs.held z.file).toArray = .ok source ∧ e.isFatal := by
  have hmap (r : Except EntryError Bytes) :
      r.map some = .error .fatal ↔ r = .error .fatal := by
    cases r <;> simp [Except.map]
  unfold Zip.read
  cases Entry.named? z.entries name with
  | none => simp
  | some e =>
    dsimp only
    rw [hmap, content_eq_fatal]
    simp

end Archive.Zip

end PlatformImage
