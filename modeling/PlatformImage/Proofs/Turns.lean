import PlatformImage.Proofs.Patterns
/-! The loop of the matcher, turn by turn.

A turn looks at nothing but the cursor: no bound is asked for, and nothing says that the loop ends.
That every cursor it comes to is in bounds is proved from turn to turn (`inBounds_after`), and so
is that what it still has to do gets less, though a turn may take the cursor back in the pattern
and in the text (`weight_turn`). So the loop is over after a number of turns that the lengths of
pattern and text give (`lt_of_after`), and it ends with the answer of the matcher
(`exists_last`). -/
namespace PlatformImage.Access

variable {α β : Type}

namespace Cursor

/-- One turn of the loop: a step at the next item. There is none at the end of the text, and none
    where the match has failed. -/
def turn (sy : Symbols α β) (pattern : Array α) (text : Array β) (c : Cursor) : Option Cursor :=
  text[c.here.text]?.bind fun item => c.step sy pattern item

/-- The cursor after a number of turns; `none` if the loop has ended before. -/
def after (sy : Symbols α β) (pattern : Array α) (text : Array β) : Nat → Cursor → Option Cursor
  | 0, c => some c
  | n + 1, c => (c.turn sy pattern text).bind (after sy pattern text n)

/-- What the loop answers if it ends here: the text must have been read, and only stars be left in
    the pattern. -/
def answer (sy : Symbols α β) (pattern : Array α) (text : Array β) (c : Cursor) : Bool :=
  decide (text.size ≤ c.here.text) && (pattern.toList.drop c.here.pattern).all sy.isStar

/-- What the loop still has to do: each item that the star may yet take counts for more than all
    symbols and items ahead. -/
def weight (pattern : Array α) (text : Array β) (c : Cursor) : Nat :=
  c.freeItems text.size * (pattern.size + text.size + 1) + c.ahead pattern.size text.size

section
variable {sy : Symbols α β} {pattern : Array α} {text : Array β} {c d : Cursor} {n : Nat}

theorem turn_eq_some : c.turn sy pattern text = some d ↔
    ∃ ht : c.here.text < text.size, c.step sy pattern text[c.here.text] = some d := by
  unfold turn
  rw [Option.bind_eq_some_iff]
  constructor
  · intro h
    obtain ⟨item, hitem, hstep⟩ := h
    obtain ⟨ht, rfl⟩ := Array.getElem?_eq_some_iff.1 hitem
    exact ⟨ht, hstep⟩
  · intro h
    obtain ⟨ht, hstep⟩ := h
    exact ⟨_, Array.getElem?_eq_getElem ht, hstep⟩

/-! ## In bounds -/

theorem inBounds_turn (hc : c.InBounds sy pattern text) (hd : c.turn sy pattern text = some d) :
    d.InBounds sy pattern text := by
  obtain ⟨ht, hstep⟩ := turn_eq_some.1 hd
  exact step_inBounds hc ht hstep

theorem inBounds_after (hc : c.InBounds sy pattern text)
    (hd : after sy pattern text n c = some d) : d.InBounds sy pattern text := by
  induction n generalizing c with
  | zero =>
    cases hd
    exact hc
  | succ n ih =>
    obtain ⟨next, hnext, hd⟩ := Option.bind_eq_some_iff.1 hd
    exact ih (inBounds_turn hc hnext) hd

/-! ## An end -/

theorem ahead_le (m n : Nat) (c : Cursor) : c.ahead m n ≤ m + n := by
  unfold ahead
  omega

/-- A turn leaves less to do. -/
theorem weight_turn (hc : c.InBounds sy pattern text) (hd : c.turn sy pattern text = some d) :
    d.weight pattern text < c.weight pattern text := by
  obtain ⟨ht, hstep⟩ := turn_eq_some.1 hd
  unfold weight
  obtain hless | ⟨hsame, hless⟩ := step_measure hc ht hstep
  · -- An item less for the star outweighs whatever is ahead again.
    have hahead := d.ahead_le pattern.size text.size
    have hfree := Nat.mul_le_mul_right (pattern.size + text.size + 1) hless
    rw [Nat.succ_mul] at hfree
    omega
  · rw [hsame]
    omega

theorem weight_after (hc : c.InBounds sy pattern text)
    (hd : after sy pattern text n c = some d) :
    n + d.weight pattern text ≤ c.weight pattern text := by
  induction n generalizing c with
  | zero =>
    cases hd
    omega
  | succ n ih =>
    obtain ⟨next, hnext, hd⟩ := Option.bind_eq_some_iff.1 hd
    have hturn := weight_turn hc hnext
    have hrest := ih (inBounds_turn hc hnext) hd
    omega

/-- As many turns as this are never made. -/
theorem lt_of_after (hd : after sy pattern text n start = some d) :
    n < (text.size + 2) * (pattern.size + text.size + 1) := by
  have hweight := weight_after start_inBounds hd
  have hstart : start.weight pattern text =
      (text.size + 1) * (pattern.size + text.size + 1) + (pattern.size + text.size) := rfl
  have htotal : (text.size + 2) * (pattern.size + text.size + 1) =
      (text.size + 1) * (pattern.size + text.size + 1) + (pattern.size + text.size + 1) :=
    Nat.succ_mul _ _
  omega

/-- The loop comes to a last cursor, and what it answers there is what the matcher answers. -/
theorem exists_last (hc : c.InBounds sy pattern text) : ∃ n d,
    after sy pattern text n c = some d ∧ d.turn sy pattern text = none ∧
    run sy pattern text c hc = d.answer sy pattern text := by
  fun_induction run sy pattern text c hc with
  | case1 c hc ht hd =>
    have hturn : c.turn sy pattern text = none := by
      rw [turn, Array.getElem?_eq_getElem ht]
      exact hd
    refine ⟨0, c, rfl, hturn, ?_⟩
    rw [answer, decide_eq_false (Nat.not_le.2 ht)]
    rfl
  | case2 c hc ht d hd ih =>
    obtain ⟨n, last, hlast, hend, hanswer⟩ := ih
    have hturn : c.turn sy pattern text = some d := turn_eq_some.2 ⟨ht, hd⟩
    refine ⟨n + 1, last, ?_, hend, hanswer⟩
    rw [after, hturn]
    exact hlast
  | case3 c hc ht =>
    have hturn : c.turn sy pattern text = none := by
      rw [turn, Array.getElem?_eq_none (Nat.not_lt.1 ht)]
      rfl
    refine ⟨0, c, rfl, hturn, ?_⟩
    rw [answer, decide_eq_true (Nat.not_lt.1 ht)]
    rfl

end

end Cursor

/-- The loop of a matcher on a pattern and a text stays in bounds and ends. -/
structure EndsInBounds (sy : Symbols α β) (pattern : Array α) (text : Array β) : Prop where
  /-- The cursor stays within pattern and text, and behind the star that it remembers. -/
  inBounds : ∀ n c, Cursor.after sy pattern text n .start = some c → c.InBounds sy pattern text
  /-- Wherever the star may be asked to take another item, it can be given one. -/
  retries : ∀ n c d, Cursor.after sy pattern text n .start = some c → c.here.text < text.size →
    c.retry = some d → d.InBounds sy pattern text
  /-- So many turns are never made. -/
  ends : Cursor.after sy pattern text ((text.size + 2) * (pattern.size + text.size + 1)) .start =
    none
  /-- After the last turn the loop has the answer of the matcher. -/
  answers : ∃ n c, Cursor.after sy pattern text n .start = some c ∧
    c.turn sy pattern text = none ∧ sy.matches pattern text = c.answer sy pattern text

theorem Symbols.endsInBounds (sy : Symbols α β) (pattern : Array α) (text : Array β) :
    EndsInBounds sy pattern text where
  inBounds n c hc := Cursor.inBounds_after Cursor.start_inBounds hc
  retries n c d hc ht hd :=
    Cursor.retry_inBounds (Cursor.inBounds_after Cursor.start_inBounds hc) ht hd
  ends := by
    apply Option.eq_none_iff_forall_ne_some.2
    intro c hc
    exact Nat.lt_irrefl _ (Cursor.lt_of_after hc)
  answers := Cursor.exists_last Cursor.start_inBounds

/-- Some turn takes the cursor back, in the pattern and in the text. -/
def TurnsBack (sy : Symbols α β) (pattern : Array α) (text : Array β) : Prop :=
  ∃ n c d, Cursor.after sy pattern text n .start = some c ∧ c.turn sy pattern text = some d ∧
    d.here.pattern < c.here.pattern ∧ d.here.text < c.here.text

/-- Behind a star two symbols have taken an item each when the next one refuses. -/
theorem Symbols.turnsBack {sy : Symbols α β} {star a b : α} {item : β}
    (hstar : sy.move star item = .star) (htake : sy.move a item = .take)
    (hrefuse : sy.move b item = .refuse) : TurnsBack sy #[star, a, a, b] #[item, item, item] := by
  have hthree : Cursor.after sy #[star, a, a, b] #[item, item, item] 3 .start =
      some ⟨⟨3, 2⟩, some ⟨0, 0⟩⟩ := by
    simp [Cursor.after, Cursor.turn, Cursor.step, Cursor.start, hstar, htake]
  have hback : Cursor.turn sy #[star, a, a, b] #[item, item, item] ⟨⟨3, 2⟩, some ⟨0, 0⟩⟩ =
      some ⟨⟨1, 1⟩, some ⟨0, 1⟩⟩ := by
    simp [Cursor.turn, Cursor.step, Cursor.retry, hrefuse]
  exact ⟨3, _, _, hthree, hback, by decide, by decide⟩

/-- **Both matchers end in bounds.** Over segments and over bytes, whatever they are, the cursor is
    within pattern and text in every turn, and the star that it remembers is a star of the pattern
    and lies before it; so there is an item to give to that star when the loop goes back to it. The
    loop makes fewer than `(n + 2) * (m + n + 1)` turns on `m` symbols and `n` items, and ends with
    the answer of the matcher. That is so although in either loop some turns take the cursor back,
    in the pattern and in the text. -/
theorem matchers_endInBounds :
    (∀ pattern path : Array String, EndsInBounds segmentSymbols pattern path) ∧
    (∀ pattern segment : Array UInt8, EndsInBounds byteSymbols pattern segment) ∧
    (∃ pattern path : Array String, TurnsBack segmentSymbols pattern path) ∧
    ∃ pattern segment : Array UInt8, TurnsBack byteSymbols pattern segment := by
  refine ⟨segmentSymbols.endsInBounds, byteSymbols.endsInBounds, ?_, ?_⟩
  · have hsame : segmentMatches "a" "a" = true := segmentMatches_of_cuts (by decide) (by decide)
    have hother : segmentMatches "b" "a" = false :=
      Bool.eq_false_iff.2 (mt cuts_of_segmentMatches (by decide))
    have htake : segmentSymbols.move "a" "a" = .take := by
      simp [segmentSymbols, anySegments, hsame]
    have hrefuse : segmentSymbols.move "b" "a" = .refuse := by
      simp [segmentSymbols, anySegments, hother]
    exact ⟨#[anySegments, "a", "a", "b"], #["a", "a", "a"],
      Symbols.turnsBack rfl htake hrefuse⟩
  · exact ⟨#[starByte, 97, 97, 98], #[97, 97, 97],
      Symbols.turnsBack (by decide) (by decide) (by decide)⟩

end PlatformImage.Access
