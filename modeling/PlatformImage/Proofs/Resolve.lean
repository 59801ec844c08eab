import PlatformImage.FileSystem.Basic
/-! Paths below a directory. What a path and a further one behind it lead to is found
in two steps: the directory that the first leads to, then from there on
(`resolve_join`). A single name leads to what the directory has under it
(`node?_join`), and to a file only so (`lookup_of_isFile_join`): the names of the
directory itself and of the one above it lead to no file. -/
namespace PlatformImage

namespace Text

theorem cut_append {α : Type} [DecidableEq α] (sep : α) (xs ys : List α) :
    cut sep (xs ++ sep :: ys) = cut sep xs ++ cut sep ys := by
  induction xs with
  | nil => simp [cut]
  | cons c xs ih =>
    simp only [List.cons_append, cut]
    split
    · rw [ih, List.cons_append]
    · rw [ih]
      cases h : cut sep xs with
      | nil => exact absurd h (cut_ne_nil sep xs)
      | cons part parts => rfl

theorem cut_eq_single {α : Type} [DecidableEq α] {sep : α} {cs : List α} (h : sep ∉ cs) :
    cut sep cs = [cs] := by
  induction cs with
  | nil => rfl
  | cons c cs ih =>
    rw [List.mem_cons, not_or] at h
    rw [cut, if_neg (Ne.symm h.1), ih h.2]

theorem segments_append (s t : String) :
    segments (s ++ "/" ++ t) = segments s ++ segments t := by
  have hlist : (s ++ "/" ++ t).toList = s.toList ++ '/' :: t.toList := by simp
  rw [segments, hlist, cut_append, List.map_append]
  rfl

theorem segments_eq_single {s : String} (h : '/' ∉ s.toList) : segments s = [s] := by
  rw [segments, cut_eq_single h]
  simp

theorem segments_ne_nil (s : String) : segments s ≠ [] := by
  rw [segments, ne_eq, List.map_eq_nil_iff]
  exact cut_ne_nil _ _

end Text

namespace Node

theorem at?_append (n : Node) (xs ys : List String) :
    n.at? (xs ++ ys) = (n.at? xs).bind (at? ys) := by
  induction xs generalizing n with
  | nil => rfl
  | cons x xs ih =>
    rw [List.cons_append, at?, at?]
    cases n.entries.lookup x with
    | none => rfl
    | some child => exact ih child

theorem at?_single (n : Node) (name : String) : n.at? [name] = n.entries.lookup name := by
  rw [at?]
  cases n.entries.lookup name <;> rfl

/-- What leads to a directory leads through directories. -/
theorem at?_dropLast {n : Node} {l : Location} {es : List (String × Node)}
    (h : n.at? l = some (.directory es)) : ∃ above, n.at? l.dropLast = some (.directory above) := by
  rcases List.eq_nil_or_concat l with rfl | ⟨front, name, rfl⟩
  · exact ⟨es, h⟩
  · rw [List.concat_eq_append, at?_append] at h
    obtain ⟨m, hm, hlast⟩ := Option.bind_eq_some_iff.1 h
    rw [at?_single] at hlast
    rw [List.concat_eq_append, List.dropLast_concat]
    cases m with
    | directory above => exact ⟨above, hm⟩
    | _ => cases hlast

end Node

/-- A name that a node can have in a directory. -/
structure Ordinary (name : String) : Prop where
  ne_empty : name ≠ ""
  ne_here : name ≠ "."
  ne_above : name ≠ ".."
  single : '/' ∉ name.toList
  noNul : '\x00' ∉ name.toList

instance (name : String) : Decidable (Ordinary name) :=
  decidable_of_iff
    (name ≠ "" ∧ name ≠ "." ∧ name ≠ ".." ∧ '/' ∉ name.toList ∧ '\x00' ∉ name.toList)
    ⟨fun ⟨h₁, h₂, h₃, h₄, h₅⟩ => ⟨h₁, h₂, h₃, h₄, h₅⟩,
      fun ⟨h₁, h₂, h₃, h₄, h₅⟩ => ⟨h₁, h₂, h₃, h₄, h₅⟩⟩

namespace FileSystem

section
variable {root : Node} {followLast : Bool} {links : Nat} {here loc : Location} {part : String}
  {rest : List String} {es : List (String × Node)}

/-! ## One part of a path -/

theorem resolveFrom_same (h : part = "" ∨ part = ".") :
    resolveFrom root followLast links here (part :: rest) =
      resolveFrom root followLast links here rest := by
  rw [resolveFrom, if_pos h]

theorem resolveFrom_above : resolveFrom root followLast links here (".." :: rest) =
    resolveFrom root followLast links here.dropLast rest := by
  rw [resolveFrom, if_neg (by decide), if_pos rfl]

section
variable (hsame : ¬(part = "" ∨ part = ".")) (habove : part ≠ "..")
include hsame habove

theorem resolveFrom_none (h : root.at? (here ++ [part]) = none) :
    resolveFrom root followLast links here (part :: rest) =
      .error (if maxNameSize < part.utf8ByteSize then .nameTooLong else .notFound) := by
  rw [resolveFrom, if_neg hsame, if_neg habove]
  simp only [h]

theorem resolveFrom_directory (h : root.at? (here ++ [part]) = some (.directory es)) :
    resolveFrom root followLast links here (part :: rest) =
      resolveFrom root followLast links (here ++ [part]) rest := by
  rw [resolveFrom, if_neg hsame, if_neg habove]
  simp only [h]

theorem resolveFrom_file {content : Bytes} {executable : Bool}
    (h : root.at? (here ++ [part]) = some (.file content executable)) :
    resolveFrom root followLast links here (part :: rest) =
      if rest.isEmpty then .ok (here ++ [part]) else .error .notADirectory := by
  rw [resolveFrom, if_neg hsame, if_neg habove]
  simp only [h]

theorem resolveFrom_link {target : String} (h : root.at? (here ++ [part]) = some (.link target)) :
    resolveFrom root true (links + 1) here (part :: rest) =
      resolveFrom root true links (if Path.isAbsolute target then [] else here)
        (Text.segments target ++ rest) := by
  rw [resolveFrom, if_neg hsame, if_neg habove]
  simp [h]

theorem resolveFrom_link_zero {target : String}
    (h : root.at? (here ++ [part]) = some (.link target)) :
    resolveFrom root true 0 here (part :: rest) = .error .tooManyLinks := by
  rw [resolveFrom, if_neg hsame, if_neg habove]
  simp [h]

end

/-- A single name leads to a directory, or to a file under it. -/
theorem at?_of_resolveFrom_single {place : Location}
    (h : resolveFrom root true links loc [part] = .ok place)
    (hloc : root.at? loc = some (.directory es))
    (hlink : ∀ target, es.lookup part ≠ some (.link target)) :
    (∃ inner, root.at? place = some (.directory inner)) ∨
      ∃ content executable, es.lookup part = some (.file content executable) ∧
        root.at? place = some (.file content executable) := by
  have hat : root.at? (loc ++ [part]) = es.lookup part := by
    rw [Node.at?_append, hloc, Option.bind_some, Node.at?_single]
    rfl
  -- Such parts lead to the directory itself, or to the one above it.
  by_cases hsame : part = "" ∨ part = "."
  · rw [resolveFrom_same hsame, resolveFrom] at h
    cases h
    exact .inl ⟨es, hloc⟩
  by_cases habove : part = ".."
  · rw [habove, resolveFrom_above, resolveFrom] at h
    cases h
    exact .inl (Node.at?_dropLast hloc)
  cases hlookup : es.lookup part with
  | none =>
    rw [resolveFrom_none hsame habove (hat.trans hlookup)] at h
    cases h
  | some n =>
    cases n with
    | file content executable =>
      rw [resolveFrom_file hsame habove (hat.trans hlookup)] at h
      cases h
      exact .inr ⟨content, executable, rfl, hat.trans hlookup⟩
    | directory inner =>
      rw [resolveFrom_directory hsame habove (hat.trans hlookup), resolveFrom] at h
      cases h
      exact .inl ⟨inner, hat.trans hlookup⟩
    | link target => exact absurd hlookup (hlink target)

/-! ## Paths put together -/

/-- Resolution goes on from the directory that the first parts lead to. -/
theorem resolveFrom_append {parts : List String}
    (h : resolveFrom root true links here parts = .ok loc)
    (hloc : root.at? loc = some (.directory es)) (more : List String) :
    ∃ left, resolveFrom root true links here (parts ++ more) =
      resolveFrom root true left loc more := by
  fun_induction resolveFrom root true links here parts with
  | case1 links here =>
    cases h
    exact ⟨links, rfl⟩
  | case2 links here part rest hsame ih =>
    rw [List.cons_append, resolveFrom_same hsame]
    exact ih h
  | case3 links here rest hsame ih =>
    rw [List.cons_append, resolveFrom_above]
    exact ih h
  | case4 => cases h
  | case5 links here part rest hsame habove next entries hnext ih =>
    rw [List.cons_append, resolveFrom_directory hsame habove hnext]
    exact ih h
  | case6 links here part rest hsame habove next content executable hnext =>
    -- A path that ends at a file does not lead to a directory.
    rw [← Except.ok.inj h, hnext] at hloc
    cases hloc
  | case7 => cases h
  | case8 links here part rest hsame habove next target hnext hlast =>
    simp at hlast
  | case9 => cases h
  | case10 here part rest hsame habove next target hnext hlast links start ih =>
    rw [List.cons_append, resolveFrom_link hsame habove hnext, ← List.append_assoc]
    exact ih h

/-- An empty part in front of others does not count, nor does `.`. -/
theorem resolveFrom_insert {skipped : String} {parts more : List String}
    (hskipped : skipped = "" ∨ skipped = ".") (hmore : more ≠ []) :
    resolveFrom root true links here (parts ++ skipped :: more) =
      resolveFrom root true links here (parts ++ more) := by
  have hempty (rest : List String) : (rest ++ skipped :: more).isEmpty = false ∧
      (rest ++ more).isEmpty = false := by simp [hmore]
  fun_induction resolveFrom root true links here parts with
  | case1 => exact resolveFrom_same hskipped
  | case2 links here part rest hsame ih =>
    rw [List.cons_append, List.cons_append, resolveFrom_same hsame, resolveFrom_same hsame, ih]
  | case3 links here rest hsame ih =>
    rw [List.cons_append, List.cons_append, resolveFrom_above, resolveFrom_above, ih]
  | case4 links here part rest hsame habove next hnext =>
    rw [List.cons_append, List.cons_append, resolveFrom_none hsame habove hnext,
      resolveFrom_none hsame habove hnext]
  | case5 links here part rest hsame habove next entries hnext ih =>
    rw [List.cons_append, List.cons_append, resolveFrom_directory hsame habove hnext,
      resolveFrom_directory hsame habove hnext, ih]
  | case6 links here part rest hsame habove next content executable hnext
  | case7 links here part rest hsame habove next content executable hnext =>
    rw [List.cons_append, List.cons_append, resolveFrom_file hsame habove hnext,
      resolveFrom_file hsame habove hnext, (hempty rest).1, (hempty rest).2]
  | case8 links here part rest hsame habove next target hnext hlast =>
    simp at hlast
  | case9 here part rest hsame habove next target hnext =>
    rw [List.cons_append, List.cons_append, resolveFrom_link_zero hsame habove hnext,
      resolveFrom_link_zero hsame habove hnext]
  | case10 here part rest hsame habove next target hnext hlast links start ih =>
    rw [List.cons_append, List.cons_append, resolveFrom_link hsame habove hnext,
      resolveFrom_link hsame habove hnext, ← List.append_assoc, ← List.append_assoc]
    exact ih

theorem join_of_relative (base : String) {path : String} (h : Path.isAbsolute path = false) :
    Path.join base path =
      if base.isEmpty || decide (base.toList.getLast? = some '/') then base ++ path
      else base ++ "/" ++ path := by
  rw [Path.join, if_neg (by simp [h])]

/-- The parts of a path below another one are followed after those of that one. -/
theorem resolveFrom_segments_join {base path : String} (hbase : base ≠ "")
    (hrelative : Path.isAbsolute path = false) :
    resolveFrom root true links here (Text.segments (Path.join base path)) =
      resolveFrom root true links here (Text.segments base ++ Text.segments path) := by
  rw [join_of_relative base hrelative, String.isEmpty_eq_false_iff.2 hbase, Bool.false_or]
  split
  · next hslash =>
    obtain ⟨front, hfront⟩ := List.getLast?_eq_some_iff.1 (of_decide_eq_true hslash)
    -- With a slash at its end the base has one more part, an empty one.
    have hsplit : base = String.ofList front ++ "/" ++ "" := by
      apply String.toList_injective
      simp [hfront]
    have hjoin : base ++ path = String.ofList front ++ "/" ++ path := by
      rw [hsplit, String.append_empty]
    rw [hjoin, hsplit, Text.segments_append, Text.segments_append, List.append_assoc]
    exact (resolveFrom_insert (.inl rfl) (Text.segments_ne_nil path)).symm
  · rw [Text.segments_append]

end

section
variable {fs : FileSystem} {base path : String} {loc : Location} {es : List (String × Node)}

/-- Where a path is followed from. -/
def startOf (fs : FileSystem) (path : String) : Location :=
  if Path.isAbsolute path then [] else fs.current

theorem resolve_eq {followLast : Bool} (hnul : '\x00' ∉ path.toList) (hne : path ≠ "")
    (hsize : path.utf8ByteSize ≤ maxPathSize) : fs.resolve followLast path =
      resolveFrom fs.root followLast linkBudget (fs.startOf path) (Text.segments path) := by
  rw [resolve, if_neg (by simpa using hnul), if_neg (by simpa using hne), if_neg (by omega)]
  rfl

theorem of_resolve_eq_ok {followLast : Bool} (h : fs.resolve followLast path = .ok loc) :
    '\x00' ∉ path.toList ∧ path ≠ "" ∧ path.utf8ByteSize ≤ maxPathSize := by
  unfold resolve at h
  split at h
  · cases h
  · next hnul =>
    split at h
    · cases h
    · next hempty =>
      split at h
      · cases h
      · next hsize => exact ⟨by simpa using hnul, by simpa using hempty, by omega⟩

theorem toList_join (base : String) (hrelative : Path.isAbsolute path = false) :
    ∃ between : List Char, (Path.join base path).toList = base.toList ++ between ++ path.toList ∧
      between ⊆ ['/'] := by
  rw [join_of_relative base hrelative]
  split
  · exact ⟨[], by simp, by simp⟩
  · exact ⟨['/'], by simp, by simp⟩

theorem startOf_join (hne : base ≠ "") (hrelative : Path.isAbsolute path = false) :
    fs.startOf (Path.join base path) = fs.startOf base := by
  obtain ⟨between, hlist, _⟩ := toList_join base hrelative
  obtain ⟨c, cs, hbase⟩ := List.exists_cons_of_ne_nil (mt String.toList_eq_nil_iff.1 hne)
  have habsolute : Path.isAbsolute (Path.join base path) = Path.isAbsolute base := by
    rw [Path.isAbsolute, Path.isAbsolute, hlist, hbase]
    rfl
  rw [startOf, startOf, habsolute]

/-- A path below a directory leads from that directory on. -/
theorem resolve_join (hbase : fs.resolve true base = .ok loc)
    (hloc : fs.root.at? loc = some (.directory es)) (hrelative : Path.isAbsolute path = false)
    (hnul : '\x00' ∉ path.toList) (hsize : (Path.join base path).utf8ByteSize ≤ maxPathSize) :
    ∃ left, fs.resolve true (Path.join base path) =
      resolveFrom fs.root true left loc (Text.segments path) := by
  obtain ⟨hbaseNul, hne, hbaseSize⟩ := of_resolve_eq_ok hbase
  obtain ⟨between, hlist, hbetween⟩ := toList_join base hrelative
  -- The joined path can be resolved because both of its halves can.
  have hjoinNul : '\x00' ∉ (Path.join base path).toList := by
    rw [hlist, List.mem_append, List.mem_append, not_or, not_or]
    exact ⟨⟨hbaseNul, fun h => absurd (hbetween h) (by decide)⟩, hnul⟩
  have hjoin : Path.join base path ≠ "" := by
    intro h
    rw [h] at hlist
    have hnil := (List.append_eq_nil_iff.1 (List.append_eq_nil_iff.1 hlist.symm).1).1
    exact hne (String.toList_eq_nil_iff.1 hnil)
  rw [resolve_eq hbaseNul hne hbaseSize] at hbase
  rw [resolve_eq hjoinNul hjoin hsize, startOf_join hne hrelative,
    resolveFrom_segments_join hne hrelative]
  exact resolveFrom_append hbase hloc _

/-! ## Names in a directory -/

theorem node?_eq_ok {n : Node} :
    fs.node? path = .ok n ↔ ∃ loc, fs.resolve true path = .ok loc ∧ fs.root.at? loc = some n := by
  unfold node?
  cases fs.resolve true path with
  | error e => exact ⟨nofun, nofun⟩
  | ok loc => cases hn : fs.root.at? loc <;> simp [bind, Except.bind, hn]

theorem isAbsolute_of_single {name : String} (h : '/' ∉ name.toList) :
    Path.isAbsolute name = false := by
  refine decide_eq_false fun hhead => h ?_
  exact List.mem_of_mem_head? hhead

/-- A name that a directory has leads to the node under it. -/
theorem node?_join {name : String} {n : Node} (hbase : fs.node? base = .ok (.directory es))
    (hname : Ordinary name) (hn : es.lookup name = some n) (hlink : ∀ target, n ≠ .link target)
    (hsize : (Path.join base name).utf8ByteSize ≤ maxPathSize) :
    fs.node? (Path.join base name) = .ok n := by
  obtain ⟨loc, hloc, hdir⟩ := node?_eq_ok.1 hbase
  obtain ⟨left, hjoin⟩ := resolve_join hloc hdir (isAbsolute_of_single hname.single) hname.noNul hsize
  have hat : fs.root.at? (loc ++ [name]) = some n := by
    rw [Node.at?_append, hdir, Option.bind_some, Node.at?_single]
    exact hn
  have hsame : ¬(name = "" ∨ name = ".") := not_or.2 ⟨hname.ne_empty, hname.ne_here⟩
  refine node?_eq_ok.2 ⟨loc ++ [name], ?_, hat⟩
  rw [hjoin, Text.segments_eq_single hname.single]
  cases n with
  | file content executable =>
    rw [resolveFrom_file hsame hname.ne_above hat]
    rfl
  | directory inner =>
    rw [resolveFrom_directory hsame hname.ne_above hat, resolveFrom]
  | link target => exact absurd rfl (hlink target)

/-- The same for a path that is written in one. -/
theorem node?_child {name : String} {n : Node} (hbase : fs.node? base = .ok (.directory es))
    (hpath : Path.join base name = path) (hname : Ordinary name) (hn : es.lookup name = some n)
    (hlink : ∀ target, n ≠ .link target) (hsize : path.utf8ByteSize ≤ maxPathSize) :
    fs.node? path = .ok n := by
  subst hpath
  exact node?_join hbase hname hn hlink hsize

/-- A name that a directory does not have leads nowhere. -/
theorem isDirectory_join_of_none {name : String} (hbase : fs.node? base = .ok (.directory es))
    (hname : Ordinary name) (hn : es.lookup name = none) :
    fs.isDirectory (Path.join base name) = false := by
  obtain ⟨loc, hloc, hdir⟩ := node?_eq_ok.1 hbase
  have hat : fs.root.at? (loc ++ [name]) = none := by
    rw [Node.at?_append, hdir, Option.bind_some, Node.at?_single]
    exact hn
  have hsame : ¬(name = "" ∨ name = ".") := not_or.2 ⟨hname.ne_empty, hname.ne_here⟩
  unfold isDirectory
  cases hnode : fs.node? (Path.join base name) with
  | error e => rfl
  | ok n =>
    obtain ⟨place, hplace, -⟩ := node?_eq_ok.1 hnode
    obtain ⟨left, hjoin⟩ := resolve_join hloc hdir (isAbsolute_of_single hname.single) hname.noNul
      (of_resolve_eq_ok hplace).2.2
    rw [hjoin, Text.segments_eq_single hname.single, resolveFrom_none hsame hname.ne_above hat]
      at hplace
    cases hplace

theorem node?_root (fs : FileSystem) : fs.node? "/" = .ok fs.root := by
  have hresolve : fs.resolve true "/" = .ok [] := by
    rw [resolve_eq (by decide) (by decide) (by decide)]
    have hsegments : Text.segments "/" = ["", ""] := by decide
    rw [hsegments, resolveFrom_same (.inl rfl), resolveFrom_same (.inl rfl), resolveFrom]
    rfl
  exact node?_eq_ok.2 ⟨[], hresolve, rfl⟩

/-- A single name leads to a file only if the directory has one under it. -/
theorem lookup_of_isFile_join {name : String} (hbase : fs.node? base = .ok (.directory es))
    (hsingle : '/' ∉ name.toList) (hlink : ∀ target, es.lookup name ≠ some (.link target))
    (h : fs.isFile (Path.join base name)) :
    ∃ content executable, es.lookup name = some (.file content executable) ∧
      fs.readFile (Path.join base name) = .ok content := by
  obtain ⟨loc, hloc, hdir⟩ := node?_eq_ok.1 hbase
  unfold isFile at h
  cases hnode : fs.node? (Path.join base name) with
  | error e => rw [hnode] at h; cases h
  | ok n =>
    rw [hnode] at h
    obtain ⟨place, hplace, hn⟩ := node?_eq_ok.1 hnode
    obtain ⟨hnul, -, hsize⟩ := of_resolve_eq_ok hplace
    have hrelative := isAbsolute_of_single hsingle
    obtain ⟨between, hlist, -⟩ := toList_join base hrelative
    have hnameNul : '\x00' ∉ name.toList := fun hmem => hnul (by rw [hlist]; simp [hmem])
    obtain ⟨left, hjoin⟩ := resolve_join hloc hdir hrelative hnameNul hsize
    rw [hjoin, Text.segments_eq_single hsingle] at hplace
    rcases at?_of_resolveFrom_single hplace hdir hlink with
      ⟨inner, hinner⟩ | ⟨content, executable, hlookup, hfile⟩
    · rw [hinner] at hn
      cases hn
      cases h
    · rw [hfile] at hn
      cases hn
      exact ⟨content, executable, hlookup, by rw [readFile, hnode]⟩

end

end FileSystem

end PlatformImage
