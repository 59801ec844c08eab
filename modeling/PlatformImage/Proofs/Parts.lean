import Mathlib.Data.List.Forall2
import Mathlib.Data.List.Sort
import PlatformImage.NameMap
/-! Parts of a map.

What a map has under some of its names depends on what it holds under those only (`among_congr`),
and where two maps hold related values, their entries are related one by one (`forall₂_among`).
So a map is put together from what is before a name, what it holds under it, and what is behind it
(`entries_eq_append`), and a change under one name leaves the rest in its place
(`values_of_agree`). -/
namespace PlatformImage

namespace NameMap

variable {β : Type} {m n : NameMap β} {name : String}

/-- The entries are known by what is held under the names, as they are in ascending order. -/
theorem entries_eq {es : List (String × β)} (hes : (es.map (·.1)).Pairwise (· < ·))
    (hmem : ∀ k b, (k, b) ∈ es ↔ m.get? k = some b) : m.entries = es := by
  have hsame : m = ⟨es, hes⟩ := by
    apply ext_get?
    intro k
    apply Option.ext
    intro b
    rw [← mem_entries_iff (m := ⟨es, hes⟩), hmem]
  exact congrArg entries hsame

/-- The part of a map under some of its names. -/
def among (m : NameMap β) (p : String → Bool) : NameMap β where
  entries := m.entries.filter (p ·.1)
  ascending := m.ascending.sublist (List.filter_sublist.map _)

theorem get?_among (m : NameMap β) (p : String → Bool) (k : String) :
    (m.among p).get? k = if p k then m.get? k else none := by
  apply Option.ext
  intro b
  rw [← mem_entries_iff, among, List.mem_filter, mem_entries_iff]
  cases p k <;> simp

/-- Maps that agree under some names have the same part under these. -/
theorem among_congr {p : String → Bool} (h : ∀ k, p k = true → m.get? k = n.get? k) :
    m.among p = n.among p := by
  apply ext_get?
  intro k
  rw [get?_among, get?_among]
  split
  · next hk => exact h k hk
  · rfl

theorem keys_among (m : NameMap β) (p : String → Bool) : (m.among p).keys = m.keys.filter p := by
  unfold keys among
  rw [List.filter_map]
  rfl

theorem mem_among_iff {p : String → Bool} {e : String × β} :
    e ∈ (m.among p).entries ↔ m.get? e.1 = some e.2 ∧ p e.1 = true := by
  rw [among, List.mem_filter]
  exact and_congr_left fun _ => mem_entries_iff

/-- Maps that hold related values under each name have related entries, one by one. -/
theorem forall₂_entries {γ : Type} {R : β → γ → Prop} {n : NameMap γ}
    (h : ∀ k, Option.Rel R (m.get? k) (n.get? k)) :
    List.Forall₂ (fun e e' => e.1 = e'.1 ∧ R e.2 e'.2) m.entries n.entries := by
  have hkeys : m.keys = n.keys := by
    refine m.ascending.eq_of_mem_iff n.ascending ?_
    intro k
    change k ∈ m.keys ↔ k ∈ n.keys
    have hk := h k
    rw [mem_keys_iff, mem_keys_iff]
    generalize m.get? k = x, n.get? k = y at hk
    cases hk <;> simp
  have hnames : List.Forall₂ (fun e e' => e.1 = e'.1) m.entries n.entries := by
    refine List.forall₂_map_left_iff.1 (List.forall₂_map_right_iff.1 ?_)
    rw [List.forall₂_eq_eq_eq]
    exact hkeys
  rw [List.forall₂_iff_zip] at hnames ⊢
  refine ⟨hnames.1, fun {e e'} hmem => ?_⟩
  have hname := hnames.2 hmem
  obtain ⟨he, he'⟩ := List.of_mem_zip hmem
  have hheld := h e.1
  rw [mem_entries_iff.1 he, hname, mem_entries_iff.1 he'] at hheld
  cases hheld with
  | some hrelated => exact ⟨hname, hrelated⟩

/-- Maps that hold related values under some names have related parts under these. -/
theorem forall₂_among {γ : Type} {R : β → γ → Prop} {n : NameMap γ} {p : String → Bool}
    (h : ∀ k, p k = true → Option.Rel R (m.get? k) (n.get? k)) :
    List.Forall₂ (fun e e' => e.1 = e'.1 ∧ R e.2 e'.2) (m.among p).entries (n.among p).entries := by
  apply forall₂_entries
  intro k
  rw [get?_among, get?_among]
  split
  · next hk => exact h k hk
  · exact .none

/-- The part before a name. -/
abbrev before (m : NameMap β) (name : String) : NameMap β := m.among fun k => decide (k < name)

/-- The part behind a name. -/
abbrev behind (m : NameMap β) (name : String) : NameMap β := m.among fun k => decide (name < k)

/-- The entries are those before a name, that of the name, and those behind it. -/
theorem entries_eq_append (m : NameMap β) (name : String) : m.entries =
    (m.before name).entries ++ (m.get? name).toList.map (fun b => (name, b)) ++
      (m.behind name).entries := by
  have hbefore {k : String} (hk : k ∈ (m.before name).entries.map (·.1)) : k < name := by
    obtain ⟨e, he, rfl⟩ := List.mem_map.1 hk
    exact of_decide_eq_true (mem_among_iff.1 he).2
  have hown {k : String} (hk : k ∈ ((m.get? name).toList.map fun b => (name, b)).map (·.1)) :
      k = name := by
    rw [List.map_map] at hk
    obtain ⟨b, -, rfl⟩ := List.mem_map.1 hk
    rfl
  have hbehind {k : String} (hk : k ∈ (m.behind name).entries.map (·.1)) : name < k := by
    obtain ⟨e, he, rfl⟩ := List.mem_map.1 hk
    exact of_decide_eq_true (mem_among_iff.1 he).2
  have hsingle : (((m.get? name).toList.map fun b => (name, b)).map (·.1)).Pairwise (· < ·) := by
    cases m.get? name with
    | none => exact List.Pairwise.nil
    | some b => exact List.pairwise_singleton _ _
  apply entries_eq
  · rw [List.map_append, List.map_append]
    refine List.pairwise_append.2 ⟨List.pairwise_append.2
      ⟨(m.before name).ascending, hsingle, ?_⟩, (m.behind name).ascending, ?_⟩
    · intro j hj k hk
      rw [hown hk]
      exact hbefore hj
    · intro j hj k hk
      rcases List.mem_append.1 hj with hj | hj
      · exact String.lt_trans (hbefore hj) (hbehind hk)
      · rw [hown hj]
        exact hbehind hk
  · intro k b
    rw [List.mem_append, List.mem_append, mem_among_iff, mem_among_iff]
    rw [decide_eq_true_iff, decide_eq_true_iff]
    by_cases hk : k = name
    · subst hk
      simp only [String.lt_irrefl, and_false, false_or, or_false]
      simp
    · have hor : k < name ∨ name < k := by
        by_cases hlt : k < name
        · exact .inl hlt
        · exact .inr (Std.lt_of_le_of_ne (String.not_lt.1 hlt) (Ne.symm hk))
      have hown : (k, b) ∉ (m.get? name).toList.map fun b => (name, b) := by
        intro hmem
        obtain ⟨b', -, heq⟩ := List.mem_map.1 hmem
        exact hk (congrArg Prod.fst heq).symm
      rw [or_iff_left hown, ← and_or_left, and_iff_left hor]

theorem values_eq_append (m : NameMap β) (name : String) : m.values =
    (m.before name).values ++ (m.get? name).toList ++ (m.behind name).values := by
  have hown : ((m.get? name).toList.map fun b => (name, b)).map (·.2) = (m.get? name).toList := by
    rw [List.map_map]
    exact List.map_id' _
  calc m.values
      = ((m.before name).entries ++ (m.get? name).toList.map (fun b => (name, b)) ++
          (m.behind name).entries).map (·.2) := congrArg (List.map Prod.snd) (m.entries_eq_append name)
    _ = (m.before name).values ++ (m.get? name).toList ++ (m.behind name).values := by
        rw [List.map_append, List.map_append, hown]
        rfl

/-- Of two maps that agree but under one name, the values are the same but for those under it. -/
theorem values_of_agree (h : ∀ k, k ≠ name → m.get? k = n.get? k) : ∃ before after,
    m.values = before ++ (m.get? name).toList ++ after ∧
    n.values = before ++ (n.get? name).toList ++ after := by
  have hbefore : m.before name = n.before name := by
    apply among_congr
    intro k hk
    exact h k (String.ne_of_lt (of_decide_eq_true hk))
  have hbehind : m.behind name = n.behind name := by
    apply among_congr
    intro k hk
    exact h k (String.ne_of_lt (of_decide_eq_true hk)).symm
  refine ⟨(n.before name).values, (n.behind name).values, ?_, n.values_eq_append name⟩
  rw [values_eq_append m name, hbefore, hbehind]

end NameMap

end PlatformImage
