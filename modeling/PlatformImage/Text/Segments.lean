/-! Paths written as text: names joined by `/`.

Everything here works on the list of characters, so that each function is a
recursion on the data: cutting at every separator, cutting at the last one, and
asking for a fixed beginning or end. -/
namespace PlatformImage.Text

/-- Cuts a list at every `sep`. There is one more part than there are
    separators, so the empty list has one empty part. -/
def cut {α : Type} [DecidableEq α] (sep : α) : List α → List (List α)
  | [] => [[]]
  | c :: cs =>
    if c = sep then [] :: cut sep cs
    else
      match cut sep cs with
      | [] => [[c]]
      | part :: parts => (c :: part) :: parts

/-- Cuts a list at its last `sep`; `none` if there is no `sep` in it. -/
def cutLast {α : Type} [DecidableEq α] (sep : α) : List α → Option (List α × List α)
  | [] => none
  | c :: cs =>
    match cutLast sep cs with
    | some (before, after) => some (c :: before, after)
    | none => if c = sep then some ([], cs) else none

/-- The `/` separated segments of a text, empty ones included. -/
def segments (s : String) : List String := (cut '/' s.toList).map String.ofList

/-- The text before and after the last `sep`. -/
def splitLast (sep : Char) (s : String) : Option (String × String) :=
  (cutLast sep s.toList).map fun (before, after) => (String.ofList before, String.ofList after)

/-- What comes before the last `/`; empty if there is none. -/
def parentPath (s : String) : String := ((splitLast '/' s).map (·.1)).getD ""

/-- What comes after the last `/`; the whole text if there is none. -/
def lastSegment (s : String) : String := ((splitLast '/' s).map (·.2)).getD s

/-- The rest of `s` after `start`, if it begins with it. -/
def afterStart? (start s : String) : Option String :=
  (start.toList.isPrefixOf? s.toList).map String.ofList

/-- What stands in `s` before `ending`, if it ends with it. -/
def beforeEnd? (ending s : String) : Option String :=
  (ending.toList.isSuffixOf? s.toList).map String.ofList

/-- One character in place of another. -/
def exchange (old new : Char) (s : String) : String :=
  String.ofList (s.toList.map fun c => if c = old then new else c)

/-- `/` written as `.`: the dotted form of an internal name. -/
def dotted (s : String) : String := exchange '/' '.' s

/-- `.` written as `/`: the internal form of a dotted name. -/
def slashed (s : String) : String := exchange '.' '/' s

/-- Every `/` at either end taken off. -/
def trimSlashes (s : String) : String :=
  let rest := s.toList.dropWhile (· == '/')
  String.ofList ((rest.reverse.dropWhile (· == '/')).reverse)

theorem cut_ne_nil {α : Type} [DecidableEq α] (sep : α) (cs : List α) : cut sep cs ≠ [] := by
  cases cs with
  | nil => simp [cut]
  | cons c cs =>
    simp only [cut]
    split
    · simp
    · split <;> simp

theorem eq_append_of_cutLast {α : Type} [DecidableEq α] {sep : α} {cs before after : List α}
    (h : cutLast sep cs = some (before, after)) : cs = before ++ sep :: after := by
  induction cs generalizing before with
  | nil => cases h
  | cons c cs ih =>
    simp only [cutLast] at h
    split at h
    · next b a hb =>
      cases Option.some.inj h
      rw [List.cons_append, ← ih hb]
    · split at h
      · next hc => cases Option.some.inj h; rw [hc]; rfl
      · cases h

/-- What comes after the last `sep` holds none. -/
theorem not_mem_of_cutLast {α : Type} [DecidableEq α] (sep : α) (cs : List α) :
    match cutLast sep cs with
    | some (_, after) => sep ∉ after
    | none => sep ∉ cs := by
  induction cs with
  | nil => simp [cutLast]
  | cons c cs ih =>
    simp only [cutLast]
    cases hc : cutLast sep cs with
    | some p => rw [hc] at ih; exact ih
    | none =>
      rw [hc] at ih
      by_cases h : c = sep
      · simpa [h] using ih
      · simp only [h, if_false, List.mem_cons, not_or]
        exact ⟨Ne.symm h, ih⟩

theorem not_mem_lastSegment (s : String) : '/' ∉ (lastSegment s).toList := by
  have h := not_mem_of_cutLast '/' s.toList
  unfold lastSegment splitLast
  cases hc : cutLast '/' s.toList with
  | none => rw [hc] at h; simpa using h
  | some p => rw [hc] at h; simpa using h

@[simp] theorem parentPath_empty : parentPath "" = "" := rfl

/-- What comes before the last `/` is shorter. -/
theorem length_parentPath_lt {s : String} (h : s ≠ "") : (parentPath s).length < s.length := by
  unfold parentPath splitLast
  cases hc : cutLast '/' s.toList with
  | none =>
    have : s.length ≠ 0 := fun h0 => h (String.length_eq_zero_iff.1 h0)
    simp only [Option.map_none, Option.getD_none, String.length_empty]
    omega
  | some p =>
    obtain ⟨before, after⟩ := p
    have := congrArg List.length (eq_append_of_cutLast hc)
    simp only [List.length_append, List.length_cons, String.length_toList] at this
    simp only [Option.map_some, Option.getD_some, String.length_ofList]
    omega

end PlatformImage.Text
