/-! Matching a pattern with wildcards against a text.

A pattern is an array of symbols, some of which are *stars* and stand for any
run of items. The matcher walks both arrays with one cursor and remembers the
latest star: when it is stuck it goes back there and lets the star take one
item more. A step may therefore move the cursor backwards, and the run ends
because the remembered star only ever moves forward (`step_measure`), which
needs that the cursor stays within both arrays (`step_inBounds`). -/
namespace PlatformImage.Access

/-- What a pattern symbol does at an item. -/
inductive Move where
  /-- Match any run of items, the empty one first. -/
  | star
  /-- Match exactly this item. -/
  | take
  /-- Not match here. -/
  | refuse
  deriving DecidableEq, Repr

/-- The symbols of a kind of pattern: which are stars, and how each acts at an
    item. Only a star acts as one. -/
structure Symbols (α β : Type) where
  isStar : α → Bool
  move : α → β → Move
  isStar_of_move : ∀ a b, move a b = .star → isStar a = true

/-- A point between two items, in a pattern and in a text. -/
structure Point where
  pattern : Nat
  text : Nat
  deriving DecidableEq, Repr

/-- Where the matcher stands, and the latest star with the point of the text
    at which its run of items ends so far. -/
structure Cursor where
  here : Point
  star : Option Point
  deriving DecidableEq, Repr

namespace Cursor

/-- Before the first symbol and the first item. -/
def start : Cursor := ⟨⟨0, 0⟩, none⟩

/-- The cursor lies within both arrays, and the remembered star is an earlier
    star of the pattern that begins no later than the cursor in the text. -/
structure InBounds {α β : Type} (sy : Symbols α β) (pattern : Array α) (text : Array β)
    (c : Cursor) : Prop where
  pattern_le : c.here.pattern ≤ pattern.size
  text_le : c.here.text ≤ text.size
  star_ok : ∀ q, c.star = some q → q.pattern < c.here.pattern ∧ q.text ≤ c.here.text ∧
    ∃ a, pattern[q.pattern]? = some a ∧ sy.isStar a = true

/-- One item more for the remembered star. -/
def retry (c : Cursor) : Option Cursor :=
  c.star.map fun q => ⟨⟨q.pattern + 1, q.text + 1⟩, some ⟨q.pattern, q.text + 1⟩⟩

/-- One step at an item of the text; `none` when the match has failed. -/
def step {α β : Type} (sy : Symbols α β) (pattern : Array α) (item : β) (c : Cursor) :
    Option Cursor :=
  match pattern[c.here.pattern]? with
  | none => c.retry
  | some symbol =>
    match sy.move symbol item with
    | .star => some ⟨⟨c.here.pattern + 1, c.here.text⟩, some c.here⟩
    | .take => some ⟨⟨c.here.pattern + 1, c.here.text + 1⟩, c.star⟩
    | .refuse => c.retry

/-- Items not yet given to the remembered star, and one more if there is none. -/
def freeItems (n : Nat) (c : Cursor) : Nat :=
  match c.star with
  | none => n + 1
  | some q => n - q.text

/-- Symbols and items still ahead of the cursor. -/
def ahead (m n : Nat) (c : Cursor) : Nat := (m - c.here.pattern) + (n - c.here.text)

section Step
variable {α β : Type} {sy : Symbols α β} {pattern : Array α} {text : Array β} {c d : Cursor}

theorem start_inBounds : start.InBounds sy pattern text :=
  ⟨Nat.zero_le _, Nat.zero_le _, fun q h => by simp [start] at h⟩

theorem retry_inBounds (hc : c.InBounds sy pattern text) (ht : c.here.text < text.size)
    (hd : c.retry = some d) : d.InBounds sy pattern text := by
  obtain ⟨q, hq, rfl⟩ := Option.map_eq_some_iff.1 hd
  obtain ⟨hp, hle, a, ha, hs⟩ := hc.star_ok q hq
  have := hc.pattern_le
  refine ⟨by simp; omega, by simp; omega, fun r hr => ?_⟩
  cases Option.some.inj hr
  exact ⟨by simp, by simp, a, ha, hs⟩

/-- A step keeps the cursor in bounds. -/
theorem step_inBounds {item : β} (hc : c.InBounds sy pattern text)
    (ht : c.here.text < text.size) (hd : c.step sy pattern item = some d) :
    d.InBounds sy pattern text := by
  unfold step at hd
  split at hd
  · exact retry_inBounds hc ht hd
  · next symbol hsym =>
    have hlt : c.here.pattern < pattern.size := (Array.getElem?_eq_some_iff.1 hsym).1
    split at hd
    · next hm =>
      cases Option.some.inj hd
      refine ⟨hlt, hc.text_le, fun q hq => ?_⟩
      cases Option.some.inj hq
      exact ⟨by simp, by simp, symbol, hsym, sy.isStar_of_move _ _ hm⟩
    · cases Option.some.inj hd
      refine ⟨hlt, ht, fun q hq => ?_⟩
      obtain ⟨h₁, h₂, h₃⟩ := hc.star_ok q hq
      exact ⟨by simp; omega, by simp; omega, h₃⟩
    · exact retry_inBounds hc ht hd

/-- A step gives the star more items, or leaves it in place and moves on. -/
theorem step_measure {item : β} (hc : c.InBounds sy pattern text)
    (ht : c.here.text < text.size) (hd : c.step sy pattern item = some d) :
    d.freeItems text.size < c.freeItems text.size ∨
      d.freeItems text.size = c.freeItems text.size ∧
        d.ahead pattern.size text.size < c.ahead pattern.size text.size := by
  have retry_less (hr : c.retry = some d) : d.freeItems text.size < c.freeItems text.size := by
    obtain ⟨q, hq, rfl⟩ := Option.map_eq_some_iff.1 hr
    have := (hc.star_ok q hq).2.1
    simp only [freeItems, hq]; omega
  unfold step at hd
  split at hd
  · exact .inl (retry_less hd)
  · next symbol hsym =>
    have hlt : c.here.pattern < pattern.size := (Array.getElem?_eq_some_iff.1 hsym).1
    split at hd
    · cases Option.some.inj hd
      cases hq : c.star with
      | none => left; simp only [freeItems, hq]; omega
      | some q =>
        have := (hc.star_ok q hq).2.1
        simp only [freeItems, hq, ahead]; omega
    · cases Option.some.inj hd
      right
      refine ⟨rfl, ?_⟩
      simp only [ahead]; omega
    · exact .inl (retry_less hd)

end Step

/-- Runs the matcher to the end of the text. There the match holds if only
    stars are left in the pattern. -/
def run {α β : Type} (sy : Symbols α β) (pattern : Array α) (text : Array β) (c : Cursor)
    (hc : c.InBounds sy pattern text) : Bool :=
  if ht : c.here.text < text.size then
    match hd : c.step sy pattern text[c.here.text] with
    | none => false
    | some d => run sy pattern text d (step_inBounds hc ht hd)
  else (pattern.toList.drop c.here.pattern).all sy.isStar
termination_by (c.freeItems text.size, c.ahead pattern.size text.size)
decreasing_by
  rcases step_measure hc ht hd with h | ⟨h, h'⟩
  · exact Prod.Lex.left _ _ h
  · rw [h]; exact Prod.Lex.right _ h'

end Cursor

/-- Whether the whole pattern matches the whole text. -/
def Symbols.matches {α β : Type} (sy : Symbols α β) (pattern : Array α) (text : Array β) : Bool :=
  Cursor.run sy pattern text .start Cursor.start_inBounds

end PlatformImage.Access
