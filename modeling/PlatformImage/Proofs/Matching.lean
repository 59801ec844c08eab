import Mathlib.Data.List.Forall2
import PlatformImage.Access.Pattern
/-! What the matcher accepts. A text matches a pattern if it can be cut into as many blocks as the
pattern has symbols, so that each symbol may stand for its block (`Cuts`).

The matcher remembers one star only. That loses nothing: up to a later star every symbol takes
one item, so what an earlier star could still take, the later one can take as well
(`Cursor.ahead_later`). So whatever it accepts can be cut (`Symbols.cuts_of_matches`), and whatever
can be cut it accepts, if its stars are never read as something else
(`Symbols.matches_of_cuts`). For the segments of a path that is always so (`matches_iff_cut`). -/
namespace PlatformImage.Access

variable {α β : Type}

/-- A text can be cut into as many blocks as a pattern has symbols, so that each symbol may stand
    for its block. -/
def Cuts (stands : α → List β → Prop) (pattern : List α) (text : List β) : Prop :=
  ∃ blocks, blocks.flatten = text ∧ List.Forall₂ stands pattern blocks

section Cuts
variable {stands : α → List β → Prop} {a : α} {pattern front : List α} {text : List β}

theorem cuts_nil : Cuts stands [] text ↔ text = [] := by
  constructor
  · rintro ⟨blocks, rfl, hblocks⟩
    cases hblocks
    rfl
  · rintro rfl
    exact ⟨[], rfl, .nil⟩

theorem cuts_cons : Cuts stands (a :: pattern) text ↔
    ∃ block rest, text = block ++ rest ∧ stands a block ∧ Cuts stands pattern rest := by
  constructor
  · rintro ⟨blocks, rfl, hblocks⟩
    cases hblocks with
    | @cons _ block _ blocks hblock hrest =>
      exact ⟨block, blocks.flatten, List.flatten_cons, hblock, blocks, rfl, hrest⟩
  · rintro ⟨block, rest, rfl, hblock, blocks, rfl, hblocks⟩
    exact ⟨block :: blocks, List.flatten_cons, .cons hblock hblocks⟩

/-- The first block is what the text begins with, up to some place. -/
theorem cuts_cons_iff_take : Cuts stands (a :: pattern) text ↔ ∃ n, n < text.length + 1 ∧
    stands a (text.take n) ∧ Cuts stands pattern (text.drop n) := by
  rw [cuts_cons]
  constructor
  · rintro ⟨block, rest, rfl, hblock, hrest⟩
    have hlength : block.length < (block ++ rest).length + 1 := by
      rw [List.length_append]
      omega
    refine ⟨block.length, hlength, ?_⟩
    rw [List.take_left, List.drop_left]
    exact ⟨hblock, hrest⟩
  · rintro ⟨n, -, hblock, hrest⟩
    exact ⟨text.take n, text.drop n, (List.take_append_drop n text).symm, hblock, hrest⟩

/-- All places are tried for the end of each block. -/
def decidableCuts [∀ a block, Decidable (stands a block)] :
    ∀ (pattern : List α) (text : List β), Decidable (Cuts stands pattern text)
  | [], _ => decidable_of_iff _ (List.isEmpty_iff.trans cuts_nil.symm)
  | _ :: pattern, _ =>
    have (rest : List β) : Decidable (Cuts stands pattern rest) := decidableCuts pattern rest
    decidable_of_iff _ cuts_cons_iff_take.symm

instance [∀ a block, Decidable (stands a block)] : Decidable (Cuts stands pattern text) :=
  decidableCuts pattern text

theorem cuts_append : Cuts stands (front ++ pattern) text ↔
    ∃ before after, text = before ++ after ∧ Cuts stands front before ∧
      Cuts stands pattern after := by
  induction front generalizing text with
  | nil =>
    constructor
    · intro h
      exact ⟨[], text, rfl, cuts_nil.2 rfl, h⟩
    · rintro ⟨before, after, rfl, hbefore, hafter⟩
      rw [cuts_nil.1 hbefore]
      exact hafter
  | cons a front ih =>
    rw [List.cons_append, cuts_cons]
    constructor
    · rintro ⟨block, rest, rfl, hblock, hrest⟩
      obtain ⟨before, after, rfl, hbefore, hafter⟩ := ih.1 hrest
      exact ⟨block ++ before, after, (List.append_assoc ..).symm,
        cuts_cons.2 ⟨block, before, rfl, hblock, hbefore⟩, hafter⟩
    · rintro ⟨before, after, rfl, hbefore, hafter⟩
      obtain ⟨block, rest, rfl, hblock, hrest⟩ := cuts_cons.1 hbefore
      exact ⟨block, rest ++ after, List.append_assoc .., hblock,
        ih.2 ⟨rest, after, rfl, hrest, hafter⟩⟩

/-- Symbols that stand for one item each match as many items as they are. -/
theorem length_of_cuts (hone : ∀ a ∈ pattern, ∀ block, stands a block → block.length = 1)
    (h : Cuts stands pattern text) : text.length = pattern.length := by
  induction pattern generalizing text with
  | nil => rw [cuts_nil.1 h]; rfl
  | cons a pattern ih =>
    obtain ⟨block, rest, rfl, hblock, hrest⟩ := cuts_cons.1 h
    have hfirst := hone a List.mem_cons_self block hblock
    have hlater := ih (fun b hb => hone b (List.mem_cons_of_mem a hb)) hrest
    simp only [List.length_append, List.length_cons]
    omega

/-- Symbols that may stand for more things match what they did. -/
theorem Cuts.mono {stands' : α → List β → Prop}
    (himp : ∀ a ∈ pattern, ∀ block, block ⊆ text → stands a block → stands' a block)
    (h : Cuts stands pattern text) : Cuts stands' pattern text := by
  induction pattern generalizing text with
  | nil => exact cuts_nil.2 (cuts_nil.1 h)
  | cons a pattern ih =>
    obtain ⟨block, rest, rfl, hblock, hrest⟩ := cuts_cons.1 h
    refine cuts_cons.2 ⟨block, rest, rfl, ?_, ih (fun b hb later hsub => ?_) hrest⟩
    · exact himp a List.mem_cons_self block (List.subset_append_left ..) hblock
    · exact himp b (List.mem_cons_of_mem a hb) later
        (List.subset_append_of_subset_right block hsub)

end Cuts

/-- What a symbol may stand for: a star for any block, any other for one item that it takes. -/
def Symbols.Stands (sy : Symbols α β) (a : α) (block : List β) : Prop :=
  sy.isStar a = true ∨ ∃ b, block = [b] ∧ sy.move a b = .take

/-- The stars of a pattern act as stars at every item of a text. -/
def Symbols.StarsAct (sy : Symbols α β) (pattern : List α) (text : List β) : Prop :=
  ∀ a ∈ pattern, ∀ b ∈ text, sy.isStar a = true → sy.move a b = .star

section
variable {sy : Symbols α β}

/-- No items are matched by stars only. -/
theorem cuts_stands_nil {symbols : List α} :
    Cuts sy.Stands symbols [] ↔ symbols.all sy.isStar = true := by
  induction symbols with
  | nil => simp [cuts_nil]
  | cons a rest ih =>
    rw [cuts_cons, List.all_cons, Bool.and_eq_true, ← ih]
    constructor
    · rintro ⟨block, later, hsplit, hblock, hlater⟩
      obtain ⟨rfl, rfl⟩ := List.append_eq_nil_iff.1 hsplit.symm
      rcases hblock with hstar | ⟨b, hb, -⟩
      · exact ⟨hstar, hlater⟩
      · cases hb
    · rintro ⟨hstar, hlater⟩
      exact ⟨[], [], rfl, .inl hstar, hlater⟩

/-- A symbol that does not act as a star is none. -/
theorem Symbols.StarsAct.single {pattern : List α} {text : List β} (h : sy.StarsAct pattern text)
    {a : α} {b : β} (ha : a ∈ pattern) (hb : b ∈ text) (hmove : sy.move a b ≠ .star) :
    sy.isStar a = false := by
  cases hstar : sy.isStar a with
  | false => rfl
  | true => exact absurd (h a ha b hb hstar) hmove

end

namespace Cursor

variable {sy : Symbols α β} {pattern : Array α} {text : Array β} {c d : Cursor}

/-! ## What lies ahead of a point -/

/-- The pattern from one place on matches the text from another place on. -/
def Ahead (sy : Symbols α β) (pattern : Array α) (text : Array β) (i j : Nat) : Prop :=
  Cuts sy.Stands (pattern.toList.drop i) (text.toList.drop j)

theorem drop_eq_cons {γ : Type} {as : Array γ} {i : Nat} {a : γ} (h : as[i]? = some a) :
    as.toList.drop i = a :: as.toList.drop (i + 1) := by
  rw [List.drop_eq_getElem?_toList_append, Array.getElem?_toList, h]
  rfl

theorem drop_eq_nil {γ : Type} {as : Array γ} {i : Nat} (h : as[i]? = none) :
    as.toList.drop i = [] := by
  rw [List.drop_eq_nil_iff]
  simpa using h

theorem mem_toList {γ : Type} {as : Array γ} {i : Nat} {a : γ} (h : as[i]? = some a) :
    a ∈ as.toList :=
  Array.mem_toList_iff.2 (Array.mem_of_getElem? h)

section Ahead
variable {i j : Nat} {a : α} {b : β}

/-- A star may leave any number of items to the symbols after it. -/
theorem ahead_of_star (ha : pattern[i]? = some a) (hstar : sy.isStar a = true) :
    Ahead sy pattern text i j ↔ ∃ k, j ≤ k ∧ Ahead sy pattern text (i + 1) k := by
  unfold Ahead
  rw [drop_eq_cons ha, cuts_cons]
  constructor
  · rintro ⟨block, rest, hdrop, -, hrest⟩
    have hafter : text.toList.drop (j + block.length) = rest := by
      rw [← List.drop_drop, hdrop, List.drop_left]
    exact ⟨j + block.length, Nat.le_add_right .., hafter ▸ hrest⟩
  · rintro ⟨k, hk, hrest⟩
    refine ⟨(text.toList.drop j).take (k - j), _, ?_, .inl hstar, hrest⟩
    have hdrop : text.toList.drop k = (text.toList.drop j).drop (k - j) := by
      rw [List.drop_drop, Nat.add_sub_cancel' hk]
    rw [hdrop, List.take_append_drop]

/-- A symbol that takes an item leaves the rest to the symbols after it. -/
theorem ahead_of_take (ha : pattern[i]? = some a) (hb : text[j]? = some b)
    (htake : sy.move a b = .take) (h : Ahead sy pattern text (i + 1) (j + 1)) :
    Ahead sy pattern text i j := by
  unfold Ahead at h ⊢
  rw [drop_eq_cons ha, drop_eq_cons hb]
  exact cuts_cons.2 ⟨[b], _, rfl, .inr ⟨b, rfl, htake⟩, h⟩

/-- A symbol that is no star must take the next item. -/
theorem take_of_ahead (ha : pattern[i]? = some a) (hb : text[j]? = some b)
    (hsingle : sy.isStar a = false) (h : Ahead sy pattern text i j) :
    sy.move a b = .take ∧ Ahead sy pattern text (i + 1) (j + 1) := by
  unfold Ahead at h ⊢
  rw [drop_eq_cons ha, drop_eq_cons hb] at h
  obtain ⟨block, rest, htext, hblock, hrest⟩ := cuts_cons.1 h
  rcases hblock with hstar | ⟨first, rfl, htake⟩
  · rw [hsingle] at hstar
    cases hstar
  · obtain ⟨rfl, rfl⟩ := List.cons.inj htext
    exact ⟨htake, hrest⟩

/-- Behind the pattern there must be no items left. -/
theorem not_ahead_of_none (ha : pattern[i]? = none) (hb : text[j]? = some b) :
    ¬Ahead sy pattern text i j := by
  unfold Ahead
  rw [drop_eq_nil ha, drop_eq_cons hb, cuts_nil]
  exact List.cons_ne_nil _ _

/-- Behind the text there must be only stars left. -/
theorem ahead_end (hj : text.size ≤ j) :
    Ahead sy pattern text i j ↔ (pattern.toList.drop i).all sy.isStar = true := by
  have hnone : text.toList.drop j = [] := drop_eq_nil (Array.getElem?_eq_none hj)
  rw [Ahead, hnone, cuts_stands_nil]

end Ahead

/-- A match can still be found: from the cursor, or if the remembered star takes more items than
    it has. -/
def Promising (sy : Symbols α β) (pattern : Array α) (text : Array β) (c : Cursor) : Prop :=
  Ahead sy pattern text c.here.pattern c.here.text ∨
    ∃ q, c.star = some q ∧ ∃ k, q.text < k ∧ Ahead sy pattern text (q.pattern + 1) k

/-- Right after a star everything depends on how many items it takes. -/
theorem promising_after_star {i j : Nat} : Promising sy pattern text ⟨⟨i + 1, j⟩, some ⟨i, j⟩⟩ ↔
    ∃ k, j ≤ k ∧ Ahead sy pattern text (i + 1) k := by
  constructor
  · rintro (hahead | ⟨q, hq, k, hk, hahead⟩)
    · exact ⟨j, Nat.le_refl _, hahead⟩
    · cases hq
      exact ⟨k, Nat.le_of_lt hk, hahead⟩
  · rintro ⟨k, hk, hahead⟩
    rcases Nat.eq_or_lt_of_le hk with rfl | hk
    · exact .inl hahead
    · exact .inr ⟨_, rfl, k, hk, hahead⟩

/-! ## Nothing is made up -/

theorem promising_of_retry (hd : c.retry = some d) (h : d.Promising sy pattern text) :
    c.Promising sy pattern text := by
  obtain ⟨q, hq, rfl⟩ := Option.map_eq_some_iff.1 hd
  obtain ⟨k, hk, hahead⟩ := promising_after_star.1 h
  exact .inr ⟨q, hq, k, hk, hahead⟩

/-- A match that can be found after a step could be found before it. -/
theorem promising_of_step {item : β} (hitem : text[c.here.text]? = some item)
    (hd : c.step sy pattern item = some d) (h : d.Promising sy pattern text) :
    c.Promising sy pattern text := by
  unfold step at hd
  split at hd
  · exact promising_of_retry hd h
  · next symbol hsym =>
    split at hd
    · next hmove =>
      -- What the new star leaves to the symbols after it, the cursor had ahead.
      have hstar := sy.isStar_of_move _ _ hmove
      cases hd
      left
      rw [ahead_of_star hsym hstar]
      exact promising_after_star.1 h
    · next hmove =>
      cases hd
      exact h.imp_left (ahead_of_take hsym hitem hmove)
    · exact promising_of_retry hd h

theorem promising_of_run {hc : c.InBounds sy pattern text} (h : run sy pattern text c hc = true) :
    c.Promising sy pattern text := by
  fun_induction run sy pattern text c hc with
  | case1 => cases h
  | case2 c hc ht d hd ih => exact promising_of_step (Array.getElem?_eq_getElem ht) hd (ih h)
  | case3 c hc ht => exact .inl ((ahead_end (Nat.not_lt.1 ht)).2 h)

/-! ## Nothing is missed -/

/-- Between the remembered star and the cursor there is no other star, and there are as many
    symbols as items. -/
structure Abreast (sy : Symbols α β) (pattern : Array α) (c : Cursor) : Prop where
  level : ∀ q, c.star = some q → c.here.pattern + q.text = q.pattern + 1 + c.here.text
  single : ∀ q, c.star = some q → ∀ i a, q.pattern < i → i < c.here.pattern →
    pattern[i]? = some a → sy.isStar a = false

/-- The symbols between the remembered star and the cursor take one item each. -/
theorem length_of_between (hc : c.InBounds sy pattern text) (habreast : c.Abreast sy pattern)
    {q : Point} (hq : c.star = some q) {n : Nat} (hn : c.here.pattern = q.pattern + 1 + n)
    {items : List β} (h : Cuts sy.Stands ((pattern.toList.drop (q.pattern + 1)).take n) items) :
    items.length = n := by
  have hlength : ((pattern.toList.drop (q.pattern + 1)).take n).length = n := by
    have hbound := hc.pattern_le
    rw [List.length_take, List.length_drop, Array.length_toList]
    omega
  rw [← hlength]
  refine length_of_cuts (fun a ha block hblock => ?_) h
  obtain ⟨i, hi⟩ := List.mem_iff_getElem?.1 ha
  rw [List.getElem?_take] at hi
  split at hi
  · next hin =>
    rw [List.getElem?_drop, Array.getElem?_toList] at hi
    rcases hblock with hstar | ⟨b, rfl, -⟩
    · rw [habreast.single q hq _ a (by omega) (by omega) hi] at hstar
      cases hstar
    · rfl
  · cases hi

/-- If the remembered star takes more items, the rest of the pattern matches that much further
    on. -/
theorem ahead_later (hc : c.InBounds sy pattern text) (habreast : c.Abreast sy pattern) {q : Point}
    (hq : c.star = some q) {k : Nat} (hk : q.text < k)
    (h : Ahead sy pattern text (q.pattern + 1) k) :
    ∃ later, c.here.text < later ∧ Ahead sy pattern text c.here.pattern later := by
  have hlevel := habreast.level q hq
  obtain ⟨hbefore, -, -⟩ := hc.star_ok q hq
  obtain ⟨n, hn⟩ : ∃ n, c.here.pattern = q.pattern + 1 + n := Nat.exists_eq_add_of_le hbefore
  have hsplit : pattern.toList.drop (q.pattern + 1) =
      (pattern.toList.drop (q.pattern + 1)).take n ++ pattern.toList.drop c.here.pattern := by
    rw [hn, ← @List.drop_drop _ n (q.pattern + 1), List.take_append_drop]
  unfold Ahead at h
  rw [hsplit, cuts_append] at h
  obtain ⟨before, after, htext, hmiddle, hafter⟩ := h
  refine ⟨k + n, by omega, ?_⟩
  have hdrop : text.toList.drop (k + n) = after := by
    rw [← List.drop_drop, htext, ← length_of_between hc habreast hq hn hmiddle, List.drop_left]
  rw [Ahead, hdrop]
  exact hafter

/-- What the remembered star offers can also be had from the cursor on. -/
theorem exists_ahead (hc : c.InBounds sy pattern text) (habreast : c.Abreast sy pattern)
    (h : c.Promising sy pattern text) :
    ∃ later, c.here.text ≤ later ∧ Ahead sy pattern text c.here.pattern later := by
  rcases h with hahead | ⟨q, hq, k, hk, hahead⟩
  · exact ⟨_, Nat.le_refl _, hahead⟩
  · obtain ⟨later, hlater, hahead⟩ := ahead_later hc habreast hq hk hahead
    exact ⟨later, Nat.le_of_lt hlater, hahead⟩

theorem start_abreast : start.Abreast sy pattern :=
  ⟨nofun, nofun⟩

/-- Right after the remembered star there is nothing in between. -/
theorem abreast_of_star {q : Point} (h : c.star = some q) (hpattern : c.here.pattern = q.pattern + 1)
    (htext : c.here.text = q.text) : c.Abreast sy pattern := by
  constructor
  · intro q' hq'
    cases h.symm.trans hq'
    omega
  · intro q' hq' i a hlow hhigh
    cases h.symm.trans hq'
    omega

theorem retry_abreast (hd : c.retry = some d) : d.Abreast sy pattern := by
  obtain ⟨q, hq, rfl⟩ := Option.map_eq_some_iff.1 hd
  exact abreast_of_star rfl rfl rfl

theorem step_abreast {item : β} (hacts : sy.StarsAct pattern.toList text.toList)
    (hitem : item ∈ text.toList) (h : c.Abreast sy pattern)
    (hd : c.step sy pattern item = some d) : d.Abreast sy pattern := by
  unfold step at hd
  split at hd
  · exact retry_abreast hd
  · next symbol hsym =>
    split at hd
    · cases hd
      exact abreast_of_star rfl rfl rfl
    · next hmove =>
      have hsingle := hacts.single (mem_toList hsym) hitem (by rw [hmove]; decide)
      cases hd
      constructor
      · intro q hq
        have hlevel := h.level q hq
        show c.here.pattern + 1 + q.text = q.pattern + 1 + (c.here.text + 1)
        omega
      · intro q hq i a hlow hhigh ha
        rcases Nat.lt_succ_iff_lt_or_eq.1 hhigh with hlt | rfl
        · exact h.single q hq i a hlow hlt ha
        · cases hsym.symm.trans ha
          exact hsingle
    · exact retry_abreast hd

/-- Where the cursor is stuck, the remembered star has to take more. -/
theorem retry_of_promising (h : c.Promising sy pattern text)
    (hstuck : ¬Ahead sy pattern text c.here.pattern c.here.text) :
    ∃ d, c.retry = some d ∧ d.Promising sy pattern text := by
  obtain hahead | ⟨q, hq, k, hk, hahead⟩ := h
  · exact absurd hahead hstuck
  · have hretry : c.retry = some ⟨⟨q.pattern + 1, q.text + 1⟩, some ⟨q.pattern, q.text + 1⟩⟩ := by
      rw [retry, hq]
      rfl
    exact ⟨_, hretry, promising_after_star.2 ⟨k, hk, hahead⟩⟩

/-- A match that can be found is still there after a step. -/
theorem step_of_promising {item : β} (hacts : sy.StarsAct pattern.toList text.toList)
    (hitem : text[c.here.text]? = some item) (hc : c.InBounds sy pattern text)
    (habreast : c.Abreast sy pattern) (h : c.Promising sy pattern text) :
    ∃ d, c.step sy pattern item = some d ∧ d.Promising sy pattern text := by
  unfold step
  cases hsym : pattern[c.here.pattern]? with
  | none => exact retry_of_promising h (not_ahead_of_none hsym hitem)
  | some symbol =>
    have hsingle (hmove : sy.move symbol item ≠ .star) : sy.isStar symbol = false :=
      hacts.single (mem_toList hsym) (mem_toList hitem) hmove
    dsimp only
    cases hmove : sy.move symbol item with
    | star =>
      -- What an earlier star offers, this one offers too.
      obtain ⟨later, hlater, hahead⟩ := exists_ahead hc habreast h
      obtain ⟨k, hk, hrest⟩ := (ahead_of_star hsym (sy.isStar_of_move _ _ hmove)).1 hahead
      exact ⟨_, rfl, promising_after_star.2 ⟨k, Nat.le_trans hlater hk, hrest⟩⟩
    | take =>
      refine ⟨_, rfl, h.imp_left fun hahead => ?_⟩
      exact (take_of_ahead hsym hitem (hsingle (by rw [hmove]; decide)) hahead).2
    | refuse =>
      refine retry_of_promising h fun hahead => ?_
      have htake := (take_of_ahead hsym hitem (hsingle (by rw [hmove]; decide)) hahead).1
      rw [hmove] at htake
      cases htake

theorem run_of_promising (hacts : sy.StarsAct pattern.toList text.toList)
    {hc : c.InBounds sy pattern text} (habreast : c.Abreast sy pattern)
    (h : c.Promising sy pattern text) : run sy pattern text c hc = true := by
  fun_induction run sy pattern text c hc with
  | case1 c hc ht hd =>
    obtain ⟨d, hsome, -⟩ := step_of_promising hacts (Array.getElem?_eq_getElem ht) hc habreast h
    cases hd.symm.trans hsome
  | case2 c hc ht d hd ih =>
    have hitem := Array.getElem?_eq_getElem ht
    obtain ⟨d', hsome, hpromising⟩ := step_of_promising hacts hitem hc habreast h
    cases hd.symm.trans hsome
    exact ih (step_abreast hacts (mem_toList hitem) habreast hd) hpromising
  | case3 c hc ht =>
    obtain ⟨later, hlater, hahead⟩ := exists_ahead hc habreast h
    exact (ahead_end (Nat.le_trans (Nat.not_lt.1 ht) hlater)).1 hahead

end Cursor

/-! ## Patterns and texts -/

namespace Symbols
variable {sy : Symbols α β} {pattern : Array α} {text : Array β}

/-- What is accepted can be cut to fit the pattern. -/
theorem cuts_of_matches (h : sy.matches pattern text = true) :
    Cuts sy.Stands pattern.toList text.toList := by
  rcases Cursor.promising_of_run h with hahead | ⟨q, hq, -⟩
  · exact hahead
  · cases hq

/-- What can be cut to fit the pattern is accepted. -/
theorem matches_of_cuts (hacts : sy.StarsAct pattern.toList text.toList)
    (h : Cuts sy.Stands pattern.toList text.toList) : sy.matches pattern text = true :=
  Cursor.run_of_promising hacts Cursor.start_abreast (.inl h)

end Symbols

/-! ## Segments -/

/-- The symbols of a pattern of segments, where anything may say which segments match. -/
def spanning (takes : String → String → Bool) : Symbols String String where
  isStar a := a == anySegments
  move a b :=
    if a = anySegments then .star
    else if takes a b then .take
    else .refuse
  isStar_of_move a b h := by
    split at h
    · simp [*]
    · split at h <;> cases h

theorem segmentSymbols_eq : segmentSymbols = spanning segmentMatches := rfl

/-- What a segment of a pattern may stand for: `**` for any block of segments, any other for one
    segment that it matches. -/
def Spans (takes : String → String → Prop) (a : String) (block : List String) : Prop :=
  if a = anySegments then True else ∃ segment, block = [segment] ∧ takes a segment

instance {takes : String → String → Prop} [∀ a segment, Decidable (takes a segment)] (a : String)
    (block : List String) : Decidable (Spans takes a block) :=
  if ha : a = anySegments then isTrue (by rw [Spans, if_pos ha]; trivial)
  else
    match block with
    | [segment] => decidable_of_iff (takes a segment) (by rw [Spans, if_neg ha]; simp)
    | [] => isFalse (by rw [Spans, if_neg ha]; simp)
    | _ :: _ :: _ => isFalse (by rw [Spans, if_neg ha]; simp)

section
variable {takes : String → String → Bool} {pattern path : List String}

theorem spanning_stands : (spanning takes).Stands = Spans (takes · ·) := by
  funext a block
  apply propext
  unfold Symbols.Stands Spans spanning
  by_cases ha : a = anySegments
  · simp [ha]
  · simp [ha]

theorem spanning_starsAct : (spanning takes).StarsAct pattern path := by
  intro a _ b _ hstar
  exact if_pos (beq_iff_eq.1 hstar)

theorem spanning_matches_iff : (spanning takes).matches pattern.toArray path.toArray = true ↔
    Cuts (Spans (takes · ·)) pattern path := by
  rw [← spanning_stands]
  exact ⟨Symbols.cuts_of_matches, Symbols.matches_of_cuts spanning_starsAct⟩

end

/-- **One remembered `**` is enough.** Whichever segments match each other, a pattern of segments
    is found to match a path just if the path can be cut so that each `**` stands for a block of
    segments, which may be empty, and each other segment for one that it matches. -/
theorem matches_iff_cut (takes : String → String → Bool) (pattern path : List String) :
    ((spanning takes).matches pattern.toArray path.toArray = true ↔
      Cuts (Spans (takes · ·)) pattern path) ∧
    (segmentSymbols.matches pattern.toArray path.toArray = true ↔
      Cuts (Spans (segmentMatches · ·)) pattern path) :=
  ⟨spanning_matches_iff, spanning_matches_iff⟩

end PlatformImage.Access
