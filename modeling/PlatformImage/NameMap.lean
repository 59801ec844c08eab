/-! Values under names, in ascending order of the names.

The order is part of the type, so a map is known by what it holds under each
name (`ext_get?`): two ways of building one give equal maps as soon as they give
the same values. -/
namespace PlatformImage

/-- Entries in strictly ascending order of their names. -/
structure NameMap (β : Type) where
  entries : List (String × β)
  ascending : (entries.map (·.1)).Pairwise (· < ·)

namespace NameMap
variable {β : Type}

/-- Changes the value under a name, in a list in ascending order. -/
def alterList (key : String) (f : Option β → β) : List (String × β) → List (String × β)
  | [] => [(key, f none)]
  | (k, b) :: rest =>
    if key < k then (key, f none) :: (k, b) :: rest
    else if key = k then (k, f (some b)) :: rest
    else (k, b) :: alterList key f rest

theorem mem_keys_alterList {key k : String} {f : Option β → β} {es : List (String × β)} :
    k ∈ (alterList key f es).map (·.1) ↔ k = key ∨ k ∈ es.map (·.1) := by
  induction es with
  | nil => simp [alterList]
  | cons e rest ih =>
    simp only [alterList]
    split
    · simp
    · split
      · next h => subst h; simp
      · simp only [List.map_cons, List.mem_cons, ih]
        constructor
        · rintro (h | h | h) <;> simp [h]
        · rintro (h | h | h) <;> simp [h]

theorem ascending_alterList (key : String) (f : Option β → β) (es : List (String × β))
    (h : (es.map (·.1)).Pairwise (· < ·)) :
    ((alterList key f es).map (·.1)).Pairwise (· < ·) := by
  induction es with
  | nil => simp [alterList]
  | cons e rest ih =>
    obtain ⟨hlt, hrest⟩ := List.pairwise_cons.1 h
    simp only [alterList]
    split
    · next hk =>
      refine List.pairwise_cons.2 ⟨fun k hm => ?_, h⟩
      rcases List.mem_cons.1 hm with rfl | hm
      · exact hk
      · exact String.lt_trans hk (hlt k hm)
    · next hk =>
      split
      · exact h
      · next hne =>
        refine List.pairwise_cons.2 ⟨fun k hm => ?_, ih hrest⟩
        rcases mem_keys_alterList.1 hm with rfl | hm
        · exact Std.lt_of_le_of_ne (String.not_lt.1 hk) (Ne.symm hne)
        · exact hlt k hm

/-- The map of no names. -/
def empty : NameMap β := ⟨[], List.Pairwise.nil⟩

/-- Gives a name the value that `f` makes of the one it has. -/
def alter (m : NameMap β) (key : String) (f : Option β → β) : NameMap β :=
  ⟨alterList key f m.entries, ascending_alterList key f m.entries m.ascending⟩

/-- Gives a name a value, in place of the one it has. -/
def insert (m : NameMap β) (key : String) (b : β) : NameMap β := m.alter key fun _ => b

def get? (m : NameMap β) (key : String) : Option β := m.entries.lookup key

def contains (m : NameMap β) (key : String) : Bool := (m.get? key).isSome

/-- The names, in ascending order. -/
def keys (m : NameMap β) : List String := m.entries.map (·.1)

/-- The values, in the order of their names. -/
def values (m : NameMap β) : List β := m.entries.map (·.2)

def size (m : NameMap β) : Nat := m.entries.length

/-! ## What a map holds -/

theorem lookup_eq_none_of_lt {key : String} {es : List (String × β)}
    (h : ∀ k ∈ es.map (·.1), key < k) : es.lookup key = none := by
  induction es with
  | nil => rfl
  | cons e rest ih =>
    obtain ⟨k, b⟩ := e
    have hne : ¬ key = k := fun he => String.lt_irrefl _ (he ▸ h k (by simp))
    rw [List.lookup_cons, beq_false_of_ne hne]
    exact ih fun k hk => h k (List.mem_cons_of_mem _ hk)

theorem lookup_alterList (key k : String) (f : Option β → β) (es : List (String × β))
    (h : (es.map (·.1)).Pairwise (· < ·)) :
    (alterList key f es).lookup k = if k = key then some (f (es.lookup key)) else es.lookup k := by
  induction es with
  | nil =>
    by_cases hk : k = key <;> simp [alterList, List.lookup_cons, hk, beq_false_of_ne]
  | cons e rest ih =>
    obtain ⟨ke, be⟩ := e
    obtain ⟨hlt, hrest⟩ := List.pairwise_cons.1 h
    simp only [alterList]
    split
    · next hk =>
      have hnone : List.lookup key ((ke, be) :: rest) = none := by
        refine lookup_eq_none_of_lt fun k hm => ?_
        rcases List.mem_cons.1 hm with rfl | hm
        · exact hk
        · exact String.lt_trans hk (hlt k hm)
      rw [List.lookup_cons, hnone]
      by_cases hkk : k = key <;> simp [hkk, beq_false_of_ne]
    · split
      · next hk =>
        subst hk
        by_cases hkk : k = key <;> simp [List.lookup_cons, hkk, beq_false_of_ne]
      · next hk =>
        by_cases hke : k = ke
        · subst hke
          simp [Ne.symm hk]
        · simp [List.lookup_cons, beq_false_of_ne hke, beq_false_of_ne hk, ih hrest]

@[simp] theorem get?_empty (k : String) : (empty : NameMap β).get? k = none := rfl

theorem get?_alter (m : NameMap β) (key k : String) (f : Option β → β) :
    (m.alter key f).get? k = if k = key then some (f (m.get? key)) else m.get? k :=
  lookup_alterList key k f m.entries m.ascending

theorem get?_insert (m : NameMap β) (key k : String) (b : β) :
    (m.insert key b).get? k = if k = key then some b else m.get? k :=
  get?_alter m key k fun _ => b

@[simp] theorem keys_empty : (empty : NameMap β).keys = [] := rfl

@[simp] theorem contains_empty (k : String) : (empty : NameMap β).contains k = false := rfl

theorem contains_alter (m : NameMap β) (key k : String) (f : Option β → β) :
    (m.alter key f).contains k = (k == key || m.contains k) := by
  unfold contains
  rw [get?_alter]
  by_cases h : k = key <;> simp [h, beq_false_of_ne]

@[simp] theorem contains_insert (m : NameMap β) (key k : String) (b : β) :
    (m.insert key b).contains k = (k == key || m.contains k) :=
  contains_alter m key k fun _ => b

theorem mem_keys_alter {m : NameMap β} {key k : String} {f : Option β → β} :
    k ∈ (m.alter key f).keys ↔ k = key ∨ k ∈ m.keys :=
  mem_keys_alterList

theorem mem_entries_iff {m : NameMap β} {k : String} {b : β} :
    (k, b) ∈ m.entries ↔ m.get? k = some b := by
  obtain ⟨es, h⟩ := m
  simp only [get?]
  induction es with
  | nil => simp
  | cons e rest ih =>
    obtain ⟨ke, be⟩ := e
    obtain ⟨hlt, hrest⟩ := List.pairwise_cons.1 h
    have hnot : k = ke → (k, b) ∉ rest := fun hk hm =>
      String.lt_irrefl k (by
        have := hlt k (List.mem_map.2 ⟨_, hm, rfl⟩)
        rwa [← hk] at this)
    rw [List.lookup_cons, List.mem_cons, ih hrest]
    by_cases hk : k = ke
    · have hn : ¬ (rest.lookup k = some b) := fun hl => hnot hk ((ih hrest).2 hl)
      subst hk
      simp only [beq_self_eq_true, Option.some.injEq]
      constructor
      · rintro (he | hl)
        · exact (congrArg Prod.snd he).symm
        · exact absurd hl hn
      · intro he; exact .inl (Prod.ext rfl he.symm)
    · rw [beq_false_of_ne hk]
      constructor
      · rintro (he | hl)
        · exact absurd (congrArg Prod.fst he) hk
        · exact hl
      · exact .inr

theorem mem_keys_iff {m : NameMap β} {k : String} : k ∈ m.keys ↔ ∃ b, m.get? k = some b := by
  simp only [keys, List.mem_map]
  constructor
  · rintro ⟨e, he, rfl⟩; exact ⟨e.2, mem_entries_iff.1 he⟩
  · rintro ⟨b, hb⟩; exact ⟨(k, b), mem_entries_iff.2 hb, rfl⟩

theorem list_eq_of_lookup_eq {es fs : List (String × β)}
    (hes : (es.map (·.1)).Pairwise (· < ·)) (hfs : (fs.map (·.1)).Pairwise (· < ·))
    (h : ∀ k, es.lookup k = fs.lookup k) : es = fs := by
  induction es generalizing fs with
  | nil =>
    cases fs with
    | nil => rfl
    | cons f fs => obtain ⟨k, b⟩ := f; have := h k; simp at this
  | cons e es ih =>
    cases fs with
    | nil => obtain ⟨k, b⟩ := e; have := h k; simp at this
    | cons f fs =>
      obtain ⟨ke, be⟩ := e
      obtain ⟨kf, bf⟩ := f
      obtain ⟨hle, hes'⟩ := List.pairwise_cons.1 hes
      obtain ⟨hlf, hfs'⟩ := List.pairwise_cons.1 hfs
      have below {k k' : String} {b b' : β} {r : List (String × β)} (hk : k < k')
          (hr : ∀ j ∈ r.map (·.1), k' < j)
          (hl : some b = List.lookup k ((k', b') :: r)) : False := by
        rw [lookup_eq_none_of_lt fun j hj => ?_] at hl
        · cases hl
        · rcases List.mem_cons.1 hj with rfl | hj
          · exact hk
          · exact String.lt_trans hk (hr j hj)
      have hk : ke = kf := by
        apply Classical.byContradiction
        intro hne
        rcases Decidable.em (ke < kf) with hlt | hge
        · have := h ke
          rw [List.lookup_cons_self] at this
          exact below hlt hlf this
        · have := (h kf).symm
          rw [List.lookup_cons_self] at this
          exact below (Std.lt_of_le_of_ne (String.not_lt.1 hge) (Ne.symm hne)) hle this
      subst hk
      have hb : be = bf := by simpa using h ke
      subst hb
      congr 1
      refine ih hes' hfs' fun k => ?_
      by_cases hke : k = ke
      · subst hke
        rw [lookup_eq_none_of_lt hle, lookup_eq_none_of_lt hlf]
      · have := h k
        rwa [List.lookup_cons, List.lookup_cons, beq_false_of_ne hke] at this

/-- A map is known by what it holds under each name. -/
theorem ext_get? {m n : NameMap β} (h : ∀ k, m.get? k = n.get? k) : m = n := by
  have := list_eq_of_lookup_eq m.ascending n.ascending h
  cases m; cases n; congr

end NameMap

end PlatformImage
