import Mathlib.Data.List.Basic
/-! Texts as the bytes of their characters. Where a character begins can be told from its bytes:
no character begins like another one (`utf8EncodeChar_append`), and the first byte of a character
is the later byte of none (`exists_boundary`). A byte that is a character by itself is part of no
other (`eq_of_mem_utf8EncodeChar`). -/
namespace PlatformImage.Text

/-- The bytes of characters. -/
def utf8 (cs : List Char) : List UInt8 := cs.flatMap String.utf8EncodeChar

theorem toUTF8_eq (s : String) : s.toUTF8.data.toList = utf8 s.toList := by
  have hchars : s.toUTF8 = s.toList.utf8Encode := by
    rw [← String.toByteArray_ofList, String.ofList_toList]
    rfl
  rw [hchars, List.utf8Encode, List.data_toByteArray, utf8]

theorem utf8_cons (c : Char) (cs : List Char) :
    utf8 (c :: cs) = String.utf8EncodeChar c ++ utf8 cs := rfl

theorem utf8_append (cs ds : List Char) : utf8 (cs ++ ds) = utf8 cs ++ utf8 ds :=
  List.flatMap_append

theorem utf8_single (c : Char) : utf8 [c] = String.utf8EncodeChar c := by
  simp [utf8]

theorem utf8_eq_nil {cs : List Char} : utf8 cs = [] ↔ cs = [] := by
  cases cs <;> simp [utf8]

/-- No character begins like another one. -/
theorem utf8EncodeChar_append {c d : Char} {r r' : List UInt8}
    (h : String.utf8EncodeChar c ++ r = String.utf8EncodeChar d ++ r') : c = d ∧ r = r' := by
  have hdecode (e : Char) (r : List UInt8) :
      ((String.utf8EncodeChar e ++ r).toByteArray).utf8DecodeChar? 0 = some e := by
    rw [List.toByteArray_append]
    exact ByteArray.utf8DecodeChar?_utf8EncodeChar_append
  have hsame : c = d := by
    have := hdecode c r
    rw [h, hdecode d r'] at this
    exact (Option.some.inj this).symm
  subst hsame
  exact ⟨rfl, List.append_cancel_left h⟩

/-- The first byte of a character tells that it is one, the others that they are not. -/
theorem utf8EncodeChar_eq (c : Char) : ∃ b tail, String.utf8EncodeChar c = b :: tail ∧
    b.IsUTF8FirstByte ∧ ∀ t ∈ tail, ¬t.IsUTF8FirstByte := by
  cases hc : String.utf8EncodeChar c with
  | nil => exact absurd hc (by simp)
  | cons b tail =>
    have hfirst (i : Nat) (hi : i < (b :: tail).length) :
        ((b :: tail)[i]).IsUTF8FirstByte ↔ i = 0 := by
      have := @UInt8.isUTF8FirstByte_getElem_utf8EncodeChar c i (hc ▸ hi)
      simpa only [hc] using this
    refine ⟨b, tail, rfl, (hfirst 0 (by simp)).2 rfl, fun t ht => ?_⟩
    obtain ⟨i, hi, rfl⟩ := List.mem_iff_getElem.1 ht
    intro hcontra
    have := (hfirst (i + 1) (by simpa using hi)).1 hcontra
    omega

/-- A byte that is a character by itself is part of no other. -/
theorem eq_of_mem_utf8EncodeChar {b : UInt8} {c d : Char} (hd : String.utf8EncodeChar d = [b])
    (h : b ∈ String.utf8EncodeChar c) : c = d := by
  obtain ⟨b', tail', hd', hfirst', -⟩ := utf8EncodeChar_eq d
  obtain ⟨first, tail, hc, -, htail⟩ := utf8EncodeChar_eq c
  rw [hd] at hd'
  obtain ⟨rfl, rfl⟩ := List.cons.inj hd'
  rw [hc] at h
  rcases List.mem_cons.1 h with rfl | hmem
  · have : String.utf8EncodeChar c ++ [] = String.utf8EncodeChar d ++ tail := by
      rw [hc, hd, List.append_nil]; rfl
    exact (utf8EncodeChar_append this).1
  · exact absurd hfirst' (htail b hmem)

/-- Where a character begins among the bytes, the text can be cut. -/
theorem exists_boundary {ds : List Char} {front rest : List UInt8} {b : UInt8}
    (h : utf8 ds = front ++ b :: rest) (hb : b.IsUTF8FirstByte) :
    ∃ before after, ds = before ++ after ∧ utf8 before = front ∧ utf8 after = b :: rest := by
  induction ds generalizing front with
  | nil => simp [utf8] at h
  | cons d ds ih =>
    cases front with
    | nil => exact ⟨[], d :: ds, rfl, rfl, h⟩
    | cons x front =>
      obtain ⟨first, tail, hd, -, htail⟩ := utf8EncodeChar_eq d
      rw [utf8_cons, hd] at h
      obtain ⟨rfl, htails⟩ := List.cons.inj h
      rcases List.append_eq_append_iff.1 htails with ⟨more, rfl, hmore⟩ | ⟨more, htail', hmore⟩
      · obtain ⟨before, after, rfl, rfl, hafter⟩ := ih hmore
        exact ⟨d :: before, after, rfl, by rw [utf8_cons, hd]; rfl, hafter⟩
      · cases more with
        | nil =>
          rw [List.append_nil] at htail'
          subst htail'
          exact ⟨[d], ds, rfl, by rw [utf8_cons, hd]; simp [utf8], hmore.symm⟩
        | cons y more =>
          obtain ⟨rfl, -⟩ := List.cons.inj hmore
          exact absurd hb (htail _ (by simp [htail']))

/-- The characters of one byte. -/
def Ascii (d : Char) : Prop := d.toNat < 128

instance (d : Char) : Decidable (Ascii d) := inferInstanceAs (Decidable (_ < _))

theorem utf8Size_eq_one {d : Char} : d.utf8Size = 1 ↔ Ascii d := by
  rw [Char.utf8Size_eq_one_iff, UInt32.le_iff_toNat_le]
  exact Nat.lt_succ_iff.symm

theorem utf8EncodeChar_ascii {d : Char} (hd : Ascii d) :
    String.utf8EncodeChar d = [d.val.toUInt8] :=
  String.utf8EncodeChar_eq_singleton (utf8Size_eq_one.2 hd)

end PlatformImage.Text
