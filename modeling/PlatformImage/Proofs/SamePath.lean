import PlatformImage.Proofs.Lineage
import PlatformImage.Proofs.Resolve
/-! Paths with the same components. They lead to the same place, if they end in a name and
are short enough to be asked for (`node?_same`): whatever else the text of a path has in it
is skipped on the way. At the end it is not skipped, since a path that ends in a slash must
lead to a directory. -/
namespace PlatformImage

namespace Text

theorem not_mem_of_mem_cut {α : Type} [DecidableEq α] {sep : α} {cs part : List α}
    (h : part ∈ cut sep cs) : sep ∉ part := by
  induction cs generalizing part with
  | nil =>
    rw [cut, List.mem_singleton] at h
    simp [h]
  | cons c cs ih =>
    rw [cut] at h
    split at h
    · rcases List.mem_cons.1 h with rfl | h
      · simp
      · exact ih h
    · next hc =>
      split at h
      · rw [List.mem_singleton] at h
        simp [h, Ne.symm hc]
      · next first rest hcut =>
        rw [hcut] at ih
        rcases List.mem_cons.1 h with rfl | h
        · simp [Ne.symm hc, ih List.mem_cons_self]
        · exact ih (List.mem_cons_of_mem first h)

theorem mem_cut {α : Type} [DecidableEq α] {sep a : α} {cs : List α} (h : a ≠ sep) :
    (∃ part ∈ cut sep cs, a ∈ part) ↔ a ∈ cs := by
  induction cs with
  | nil => simp [cut]
  | cons c cs ih =>
    rw [cut]
    split
    · next hc => simp [ih, hc, h]
    · cases hcut : cut sep cs with
      | nil => exact absurd hcut (cut_ne_nil sep cs)
      | cons first rest =>
        rw [hcut] at ih
        simp only [List.mem_cons, exists_eq_or_imp] at ih ⊢
        rw [← ih, or_assoc]

theorem cut_replicate {α : Type} [DecidableEq α] (sep : α) (n : Nat) (cs : List α) :
    cut sep (List.replicate n sep ++ cs) = List.replicate n [] ++ cut sep cs := by
  induction n with
  | zero => rfl
  | succ n ih => rw [List.replicate_succ, List.cons_append, cut, if_pos rfl, ih]; rfl

/-- A part of a path has no slash in it. -/
theorem not_mem_of_mem_segments {s part : String} (h : part ∈ segments s) : '/' ∉ part.toList := by
  obtain ⟨cs, hcs, rfl⟩ := List.mem_map.1 h
  simpa using not_mem_of_mem_cut hcs

/-- Any other character is in one of the parts. -/
theorem mem_segments {c : Char} {s : String} (h : c ≠ '/') :
    (∃ part ∈ segments s, c ∈ part.toList) ↔ c ∈ s.toList := by
  rw [← mem_cut h, segments]
  simp

end Text

namespace Path

/-- The parts of a path that are not skipped on the way. -/
def names (path : String) : List String := (Text.segments path).filter fun p => p ≠ "" ∧ p ≠ "."

/-- A path that ends neither in a slash nor in `.` after one. -/
def Ended (path : String) : Prop :=
  Text.beforeEnd? "/" path = none ∧ Text.beforeEnd? "/." path = none

instance (path : String) : Decidable (Ended path) := inferInstanceAs (Decidable (_ ∧ _))

variable {p q path : String}

theorem mem_names {part : String} :
    part ∈ names path ↔ part ∈ Text.segments path ∧ part ≠ "" ∧ part ≠ "." := by
  simp [names]

/-- What stands in front of the names: the root, `.`, or nothing. -/
theorem components_cases (path : String) :
    isAbsolute path = true ∧ components path = "/" :: names path ∨
    isAbsolute path = false ∧ (Text.segments path).head? = some "." ∧
      components path = "." :: names path ∨
    isAbsolute path = false ∧ (Text.segments path).head? ≠ some "." ∧
      components path = names path := by
  unfold components
  cases habsolute : isAbsolute path with
  | true => exact .inl ⟨rfl, if_pos rfl⟩
  | false =>
    by_cases hhere : (Text.segments path).head? = some "."
    · exact .inr (.inl ⟨rfl, hhere, if_pos hhere⟩)
    · exact .inr (.inr ⟨rfl, hhere, if_neg hhere⟩)

/-- Paths with the same components begin alike and have the same names. -/
theorem of_same (h : same p q) : isAbsolute p = isAbsolute q ∧ names p = names q ∧
    (isAbsolute p = false →
      ((Text.segments p).head? = some "." ↔ (Text.segments q).head? = some ".")) := by
  -- What stands in front of the names is no name.
  have hroot {path : String} {rest : List String} : "/" :: rest ≠ names path := fun he =>
    absurd (Text.not_mem_of_mem_segments (mem_names.1 (he ▸ List.mem_cons_self)).1) (by decide)
  have hhere {path : String} {rest : List String} : "." :: rest ≠ names path := fun he =>
    (mem_names.1 (he ▸ List.mem_cons_self)).2.2 rfl
  have heq : components p = components q := eq_of_beq h
  rcases components_cases p with ⟨hp, hcp⟩ | ⟨hp, hdot, hcp⟩ | ⟨hp, hdot, hcp⟩ <;>
    rcases components_cases q with ⟨hq, hcq⟩ | ⟨hq, hdot', hcq⟩ | ⟨hq, hdot', hcq⟩ <;>
    rw [hcp, hcq] at heq
  · exact ⟨hp.trans hq.symm, List.tail_eq_of_cons_eq heq, by simp [hp]⟩
  · exact absurd (List.head_eq_of_cons_eq heq) (by decide)
  · exact absurd heq hroot
  · exact absurd (List.head_eq_of_cons_eq heq) (by decide)
  · exact ⟨hp.trans hq.symm, List.tail_eq_of_cons_eq heq, by simp [hdot, hdot']⟩
  · exact absurd heq hhere
  · exact absurd heq.symm hroot
  · exact absurd heq.symm hhere
  · exact ⟨hp.trans hq.symm, heq, by simp [hdot, hdot']⟩

/-- The last part of a path is a name. -/
def Named (path : String) : Prop :=
  ∃ front last, Text.segments path = front ++ [last] ∧ last ≠ "" ∧ last ≠ "."

theorem Named.names_ne_nil (h : Named path) : names path ≠ [] := by
  obtain ⟨front, last, hsegments, hempty, hhere⟩ := h
  exact List.ne_nil_of_mem (mem_names.2 ⟨by simp [hsegments], hempty, hhere⟩)

theorem Named.ne_empty (h : Named path) : path ≠ "" := by
  rintro rfl
  exact h.names_ne_nil (by decide)

/-- A path that ends in a name is empty, or `.`, or its last part is one. -/
theorem Ended.cases (h : Ended path) : path = "" ∨ path = "." ∨ Named path := by
  cases hsplit : Text.splitLast '/' path with
  | none =>
    have hsingle : Text.segments path = [path] := Text.segments_eq_single ?_
    · by_cases hempty : path = ""
      · exact .inl hempty
      · by_cases hhere : path = "."
        · exact .inr (.inl hhere)
        · exact .inr (.inr ⟨[], path, hsingle, hempty, hhere⟩)
    · have hlast := Text.not_mem_lastSegment path
      rwa [Text.lastSegment, hsplit] at hlast
  | some parts =>
    obtain ⟨front, last⟩ := parts
    have hpath := Text.eq_append_of_splitLast hsplit
    have hlast := Text.not_mem_lastSegment path
    rw [Text.lastSegment, hsplit, Option.map_some, Option.getD_some] at hlast
    refine .inr (.inr ⟨Text.segments front, last, ?_, ?_, ?_⟩)
    · rw [hpath, Text.segments_append, Text.segments_eq_single hlast]
    · rintro rfl
      rw [String.append_empty] at hpath
      exact absurd (Text.beforeEnd?_eq_some_iff.2 hpath) (by simp [h.1])
    · rintro rfl
      rw [String.append_assoc] at hpath
      exact absurd (Text.beforeEnd?_eq_some_iff.2 hpath) (by simp [h.2])

/-- Paths with the same components that end in a name are equal, or both have names. -/
theorem eq_or_named (h : same p q) (hp : Ended p) (hq : Ended q) : p = q ∨ Named p ∧ Named q := by
  obtain ⟨-, hnames, hhead⟩ := of_same h
  rcases hp.cases with rfl | rfl | hp
  · rcases hq.cases with rfl | rfl | hq
    · exact .inl rfl
    · exact absurd ((hhead (by decide)).2 (by decide)) (by decide)
    · exact absurd hnames.symm hq.names_ne_nil
  · rcases hq.cases with rfl | rfl | hq
    · exact absurd ((hhead (by decide)).1 (by decide)) (by decide)
    · exact .inl rfl
    · exact absurd hnames.symm hq.names_ne_nil
  · rcases hq.cases with rfl | rfl | hq
    · exact absurd hnames hp.names_ne_nil
    · exact absurd hnames hp.names_ne_nil
    · exact .inr ⟨hp, hq⟩

/-- All that a path has in it but slashes and points is in its names. -/
theorem mem_names_of_mem {c : Char} (hslash : c ≠ '/') (hpoint : c ≠ '.') :
    c ∈ path.toList ↔ ∃ part ∈ names path, c ∈ part.toList := by
  rw [← Text.mem_segments hslash]
  constructor
  · rintro ⟨part, hpart, hc⟩
    refine ⟨part, mem_names.2 ⟨hpart, ?_, ?_⟩, hc⟩
    · rintro rfl
      simp at hc
    · rintro rfl
      exact hpoint (by simpa using hc)
  · rintro ⟨part, hpart, hc⟩
    exact ⟨part, (mem_names.1 hpart).1, hc⟩

/-- Only the empty path has no components. -/
theorem eq_empty_of_same (h : same p "") : p = "" := by
  obtain ⟨habsolute, hnames, hhead⟩ := of_same h
  have hrelative : isAbsolute p = false := habsolute.trans (by decide)
  have hnil : names p = [] := hnames.trans (by decide)
  by_contra hne
  obtain ⟨c, cs, hp⟩ := List.exists_cons_of_ne_nil (mt String.toList_eq_nil_iff.1 hne)
  have hslash : c ≠ '/' := by
    rintro rfl
    rw [isAbsolute, hp] at hrelative
    simp at hrelative
  by_cases hpoint : c = '.'
  · -- The first part begins with a point, so it is `.` or a name.
    obtain ⟨part, rest, hcut⟩ : ∃ part rest, Text.cut '/' (c :: cs) = (c :: part) :: rest := by
      rw [Text.cut, if_neg hslash]
      cases Text.cut '/' cs with
      | nil => exact ⟨[], [], rfl⟩
      | cons part rest => exact ⟨part, rest, rfl⟩
    have hsegments : Text.segments p = String.ofList (c :: part) :: rest.map String.ofList := by
      rw [Text.segments, hp, hcut, List.map_cons]
    by_cases hhere : String.ofList (c :: part) = "."
    · have hpath := (hhead hrelative).1 (by rw [hsegments, hhere]; rfl)
      exact absurd hpath (by decide)
    · have hname : String.ofList (c :: part) ∈ names p := by
        refine mem_names.2 ⟨by simp [hsegments], fun hempty => ?_, hhere⟩
        have hchars := congrArg String.toList hempty
        simp at hchars
      rw [hnil] at hname
      cases hname
  · have hmem : c ∈ p.toList := by simp [hp]
    obtain ⟨part, hpart, -⟩ := (mem_names_of_mem hslash hpoint).1 hmem
    rw [hnil] at hpart
    cases hpart

theorem names_append (front rest : String) : names (front ++ "/" ++ rest) = names front ++ names rest := by
  rw [names, Text.segments_append, List.filter_append]
  rfl

/-- So many slashes. -/
def slashes (n : Nat) : String := String.ofList (List.replicate n '/')

/-- More than one slash counts as one. -/
theorem names_slashes (n : Nat) (rest : String) : names (slashes n ++ rest) = names rest := by
  have hlist : (slashes n ++ rest).toList = List.replicate n '/' ++ rest.toList := by
    simp [slashes]
  have hempty : (List.replicate n "").filter (fun p => p ≠ "" ∧ p ≠ ".") = [] := by simp
  rw [names, Text.segments, hlist, Text.cut_replicate, List.map_append, List.map_replicate,
    String.ofList_nil, List.filter_append, hempty, List.nil_append]
  rfl

theorem utf8ByteSize_slashes (n : Nat) : (slashes n).utf8ByteSize = n := by
  induction n with
  | zero => rfl
  | succ n ih =>
    rw [slashes, List.replicate_succ, String.ofList_cons, String.utf8ByteSize_append,
      String.utf8ByteSize_singleton]
    rw [slashes] at ih
    rw [ih]
    exact Nat.add_comm 1 n

/-- A path with an ordinary name at its end ends in a name. -/
theorem ended_append (front : String) {name : String} (h : Ordinary name) : Ended (front ++ name) := by
  have hsingle : '/' ∉ name.toList := h.single
  have hempty : name.toList ≠ [] := mt String.toList_eq_nil_iff.1 h.ne_empty
  have hhere : name.toList ≠ ['.'] := fun he => h.ne_here (String.toList_injective he)
  constructor
  · refine Option.eq_none_iff_forall_not_mem.2 fun rest hrest => ?_
    have heq := congrArg String.toList (Text.beforeEnd?_eq_some_iff.1 hrest)
    rw [String.toList_append, String.toList_append] at heq
    obtain ⟨cs, c, hname⟩ := List.eq_nil_or_concat name.toList |>.resolve_left hempty
    rw [hname, List.concat_eq_append, ← List.append_assoc] at heq
    have hlast : [c] = ['/'] := List.append_inj_right' heq rfl
    obtain rfl : c = '/' := List.head_eq_of_cons_eq hlast
    exact hsingle (by simp [hname])
  · refine Option.eq_none_iff_forall_not_mem.2 fun rest hrest => ?_
    have heq := congrArg String.toList (Text.beforeEnd?_eq_some_iff.1 hrest)
    rw [String.toList_append, String.toList_append] at heq
    -- Either the slash is in the name, or the name is what comes behind it.
    rcases List.append_eq_append_iff.1 heq with ⟨more, -, hname⟩ | ⟨more, -, hname⟩
    · exact hsingle (by simp [hname])
    · have htail : "/.".toList = ['/', '.'] := rfl
      rw [htail] at hname
      rcases more with _ | ⟨c, _ | ⟨d, more⟩⟩
      · rw [List.nil_append] at hname
        exact hsingle (by simp [← hname])
      · exact hhere (List.tail_eq_of_cons_eq hname).symm
      · have hlength := congrArg List.length hname
        simp only [List.length_cons, List.cons_append, List.length_append, List.length_nil] at hlength
        exact hempty (List.eq_nil_of_length_eq_zero (by omega))

end Path

namespace FileSystem

variable {root : Node} {links : Nat} {here : Location} {fs : FileSystem} {p q : String}

/-- Of parts that end in a name, just the names count. -/
theorem resolveFrom_filter (before front : List String) {last : String} (hempty : last ≠ "")
    (hhere : last ≠ ".") : resolveFrom root true links here (before ++ (front ++ [last])) =
      resolveFrom root true links here
        (before ++ (front ++ [last]).filter fun p => p ≠ "" ∧ p ≠ ".") := by
  induction front generalizing before with
  | nil => simp [hempty, hhere]
  | cons part front ih =>
    by_cases hskip : part = "" ∨ part = "."
    · rw [List.cons_append, resolveFrom_insert hskip (by simp), ih, List.filter_cons_of_neg]
      simpa using hskip.resolve_left
    · rw [List.cons_append, List.filter_cons_of_pos (by simpa using hskip),
        List.append_cons before part (front ++ [last]), ih, ← List.append_cons]

/-- The names of a path lead to where it leads. -/
theorem resolveFrom_names (h : Path.Named p) : resolveFrom root true links here (Text.segments p) =
    resolveFrom root true links here (Path.names p) := by
  obtain ⟨front, last, hsegments, hempty, hhere⟩ := h
  rw [Path.names, hsegments]
  exact resolveFrom_filter [] front hempty hhere

/-- Paths with the same components lead to the same place. -/
theorem resolve_same (h : Path.same p q) (hp : Path.Ended p) (hq : Path.Ended q)
    (hsize : p.utf8ByteSize ≤ maxPathSize) (hsize' : q.utf8ByteSize ≤ maxPathSize) :
    fs.resolve true p = fs.resolve true q := by
  rcases Path.eq_or_named h hp hq with rfl | ⟨hp, hq⟩
  · rfl
  · obtain ⟨habsolute, hnames, -⟩ := Path.of_same h
    have hnul : '\x00' ∈ p.toList ↔ '\x00' ∈ q.toList := by
      rw [Path.mem_names_of_mem (by decide) (by decide), hnames,
        ← Path.mem_names_of_mem (by decide) (by decide)]
    by_cases hmem : '\x00' ∈ p.toList
    · rw [resolve, resolve, if_pos (by simpa using hmem), if_pos (by simpa using hnul.1 hmem)]
    · rw [resolve_eq hmem hp.ne_empty hsize, resolve_eq (mt hnul.2 hmem) hq.ne_empty hsize',
        resolveFrom_names hp, resolveFrom_names hq, hnames, startOf, startOf, habsolute]

/-- Paths with the same components lead to the same node. -/
theorem node?_same (h : Path.same p q) (hp : Path.Ended p) (hq : Path.Ended q)
    (hsize : p.utf8ByteSize ≤ maxPathSize) (hsize' : q.utf8ByteSize ≤ maxPathSize) :
    fs.node? p = fs.node? q := by
  rw [node?, node?, resolve_same h hp hq hsize hsize']

/-! ## A path that leads somewhere -/

/-- What is skipped at the end of a path that leads somewhere may be left out. -/
theorem resolveFrom_of_concat {skipped : String} {parts : List String} {loc : Location}
    (hskipped : skipped = "" ∨ skipped = ".")
    (h : resolveFrom root true links here (parts ++ [skipped]) = .ok loc) :
    resolveFrom root true links here parts = .ok loc := by
  fun_induction resolveFrom root true links here parts with
  | case1 links here =>
    rw [List.nil_append, resolveFrom_same hskipped] at h
    rwa [resolveFrom] at h
  | case2 links here part rest hsame ih =>
    rw [List.cons_append, resolveFrom_same hsame] at h
    exact ih h
  | case3 links here rest hsame ih =>
    rw [List.cons_append, resolveFrom_above] at h
    exact ih h
  | case4 links here part rest hsame habove next hnext =>
    rw [List.cons_append, resolveFrom_none hsame habove hnext] at h
    cases h
  | case5 links here part rest hsame habove next entries hnext ih =>
    rw [List.cons_append, resolveFrom_directory hsame habove hnext] at h
    exact ih h
  | case6 links here part rest hsame habove next content executable hnext
  | case7 links here part rest hsame habove next content executable hnext =>
    -- Nothing follows behind a file, not even what would be skipped.
    rw [List.cons_append, resolveFrom_file hsame habove hnext, if_neg (by simp)] at h
    cases h
  | case8 links here part rest hsame habove next target hnext hlast =>
    simp at hlast
  | case9 here part rest hsame habove next target hnext =>
    rw [List.cons_append, resolveFrom_link_zero hsame habove hnext] at h
    cases h
  | case10 here part rest hsame habove next target hnext hlast links start ih =>
    rw [List.cons_append, resolveFrom_link hsame habove hnext, ← List.append_assoc] at h
    exact ih h

/-- So just the names count of a path that leads somewhere. -/
theorem resolveFrom_filter_of_ok (before : List String) {parts : List String} {loc : Location}
    (h : resolveFrom root true links here (before ++ parts) = .ok loc) :
    resolveFrom root true links here (before ++ parts.filter fun p => p ≠ "" ∧ p ≠ ".") =
      .ok loc := by
  induction parts generalizing before with
  | nil => exact h
  | cons part parts ih =>
    by_cases hskip : part = "" ∨ part = "."
    · rw [List.filter_cons_of_neg (by simpa using hskip.resolve_left)]
      apply ih
      cases parts with
      | nil =>
        rw [List.append_nil]
        exact resolveFrom_of_concat hskip h
      | cons next rest =>
        rw [← resolveFrom_insert hskip (by simp)]
        exact h
    · rw [List.filter_cons_of_pos (by simpa using hskip), List.append_cons]
      apply ih
      rw [← List.append_cons]
      exact h

/-- A path that leads somewhere leads there by its names. -/
theorem resolveFrom_names_of_ok {loc : Location} (h : fs.resolve true p = .ok loc) :
    resolveFrom fs.root true linkBudget (fs.startOf p) (Path.names p) = .ok loc := by
  obtain ⟨hnul, hne, hsize⟩ := of_resolve_eq_ok h
  rw [resolve_eq hnul hne hsize] at h
  exact resolveFrom_filter_of_ok [] h

theorem startOf_of_same (h : Path.same p q) : fs.startOf p = fs.startOf q := by
  rw [startOf, startOf, (Path.of_same h).1]

/-- Paths with the same components that lead somewhere lead to the same node. -/
theorem node?_eq_of_same {n m : Node} (h : Path.same p q) (hp : fs.node? p = .ok n)
    (hq : fs.node? q = .ok m) : n = m := by
  obtain ⟨loc, hloc, hn⟩ := node?_eq_ok.1 hp
  obtain ⟨place, hplace, hm⟩ := node?_eq_ok.1 hq
  have hfrom := resolveFrom_names_of_ok hloc
  have hfrom' := resolveFrom_names_of_ok hplace
  rw [startOf_of_same h, (Path.of_same h).2.1, hfrom'] at hfrom
  cases hfrom
  rw [hm] at hn
  exact (Option.some.inj hn).symm

/-- If a path leads somewhere, so does each with the same components that ends in a name and is
    short enough. -/
theorem node?_of_same {n : Node} (h : Path.same p q) (hp : fs.node? p = .ok n)
    (hq : Path.Ended q) (hsize : q.utf8ByteSize ≤ maxPathSize) : fs.node? q = .ok n := by
  obtain ⟨loc, hloc, hn⟩ := node?_eq_ok.1 hp
  obtain ⟨hnul, hne, -⟩ := of_resolve_eq_ok hloc
  obtain ⟨habsolute, hnames, hhead⟩ := Path.of_same h
  have hfrom := resolveFrom_names_of_ok hloc
  rw [startOf_of_same h, hnames] at hfrom
  have hnul' : '\x00' ∉ q.toList := by
    rw [Path.mem_names_of_mem (by decide) (by decide), ← hnames,
      ← Path.mem_names_of_mem (by decide) (by decide)]
    exact hnul
  refine node?_eq_ok.2 ⟨loc, ?_, hn⟩
  rcases hq.cases with rfl | rfl | hnamed
  · exact absurd (Path.eq_empty_of_same h) hne
  · rw [resolve_eq hnul' (by decide) hsize]
    have hsegments : Text.segments "." = ["."] := by decide
    rw [hsegments, resolveFrom_same (.inr rfl)]
    exact hfrom
  · rw [resolve_eq hnul' hnamed.ne_empty hsize, resolveFrom_names hnamed]
    exact hfrom

end FileSystem

end PlatformImage
