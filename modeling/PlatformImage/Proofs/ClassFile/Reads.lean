import PlatformImage.Proofs.ClassFile.Format
/-! Readers and the format they read. A reader succeeds just on bytes that begin with
a value put into bytes, gives what that value stands for and leaves what follows
(`Reads`). A reader that runs others in turn succeeds if they do (`run_bind_eq_ok`),
so what it reads is what they read, put together. -/
namespace PlatformImage.ClassFile

namespace Reader

variable {α β V : Type} {bs rest : Bytes}

/-- A reader succeeds just on what is put into bytes, and gives its meaning. -/
def Reads (r : Reader α) (put : V → Bytes) (means : V → α → Prop) : Prop :=
  ∀ bs a rest, r.run bs = .ok (a, rest) ↔ ∃ v, bs = put v ++ rest ∧ means v a

theorem run_bind_eq_ok {r : Reader α} {f : α → Reader β} {b : β} :
    (r >>= f).run bs = .ok (b, rest) ↔
      ∃ a mid, r.run bs = .ok (a, mid) ∧ (f a).run mid = .ok (b, rest) := by
  change (r.run bs >>= fun p => (f p.1).run p.2) = _ ↔ _
  cases h : r.run bs with
  | error e =>
    constructor
    · intro h'; cases h'
    · rintro ⟨_, _, h', _⟩; cases h'
  | ok p =>
    constructor
    · exact fun h' => ⟨p.1, p.2, rfl, h'⟩
    · rintro ⟨_, _, h', h''⟩
      cases h'
      exact h''

theorem run_pure_eq_ok {a b : α} :
    (pure a : Reader α).run bs = .ok (b, rest) ↔ a = b ∧ bs = rest := by
  change Except.ok (a, bs) = Except.ok (b, rest) ↔ _
  rw [Except.ok.injEq, Prod.mk.injEq]

theorem run_map_eq_ok {r : Reader α} {f : α → β} {b : β} :
    (f <$> r).run bs = .ok (b, rest) ↔ ∃ a, r.run bs = .ok (a, rest) ∧ f a = b := by
  rw [← bind_pure_comp, run_bind_eq_ok]
  constructor
  · rintro ⟨a, _, ha, h⟩
    obtain ⟨rfl, rfl⟩ := run_pure_eq_ok.1 h
    exact ⟨a, ha, rfl⟩
  · rintro ⟨a, ha, rfl⟩
    exact ⟨a, rest, ha, run_pure_eq_ok.2 ⟨rfl, rfl⟩⟩

theorem run_throw_ne_ok {e : ParseError} {a : α} :
    (throw e : Reader α).run bs ≠ .ok (a, rest) := nofun

theorem run_lift_eq_ok {x : Except ParseError α} {a : α} :
    (liftM x : Reader α).run bs = .ok (a, rest) ↔ x = .ok a ∧ bs = rest := by
  cases x with
  | error e =>
    constructor
    · intro h; cases h
    · rintro ⟨h, _⟩; cases h
  | ok b =>
    change Except.ok (b, bs) = Except.ok (a, rest) ↔ _
    rw [Except.ok.injEq, Except.ok.injEq, Prod.mk.injEq]

theorem run_discard_eq_ok {r : Reader α} {u : Unit} :
    (discard r).run bs = .ok (u, rest) ↔ ∃ a, r.run bs = .ok (a, rest) := by
  change (r >>= fun _ => pure ()).run bs = _ ↔ _
  rw [run_bind_eq_ok]
  constructor
  · rintro ⟨a, _, h, hrest⟩
    obtain ⟨_, rfl⟩ := run_pure_eq_ok.1 hrest
    exact ⟨a, h⟩
  · rintro ⟨a, h⟩
    exact ⟨a, rest, h, run_pure_eq_ok.2 ⟨rfl, rfl⟩⟩

/-! ## Numbers and bytes -/

theorem reads_bytes {n : Nat} : Reads (bytes n) id fun v a => v = a ∧ v.length = n := by
  intro bs a rest
  change bytes n bs = _ ↔ _
  unfold bytes
  constructor
  · intro h
    split at h
    · next r hr =>
      cases h
      obtain ⟨he, hlen⟩ := eq_append_of_splitExact hr
      exact ⟨a, he, rfl, hlen⟩
    · cases h
  · rintro ⟨_, rfl, rfl, rfl⟩
    rw [id, splitExact_append]

theorem run_skip_eq_ok {n : Nat} {u : Unit} :
    (skip n).run bs = .ok (u, rest) ↔ ∃ body, bs = body ++ rest ∧ body.length = n := by
  rw [skip, run_discard_eq_ok]
  constructor
  · rintro ⟨a, h⟩
    obtain ⟨body, rfl, rfl, hlen⟩ := (reads_bytes _ _ _).1 h
    exact ⟨body, rfl, hlen⟩
  · rintro ⟨body, rfl, hlen⟩
    exact ⟨body, (reads_bytes _ _ _).2 ⟨body, rfl, rfl, hlen⟩⟩

theorem putU16_pair (hi lo : UInt8) : putU16 (pair hi lo) = [hi, lo] := by
  have h₁ := hi.toNat_lt
  have h₂ := lo.toNat_lt
  have h : (pair hi lo).toNat = hi.toNat * 256 + lo.toNat := by
    rw [pair, UInt16.toNat_ofNat']
    omega
  rw [putU16, h]
  congr 1
  · apply UInt8.toNat_inj.1
    rw [UInt8.toNat_ofNat']
    omega
  · congr 1
    apply UInt8.toNat_inj.1
    rw [UInt8.toNat_ofNat']
    omega

theorem run_u16_eq_ok {n : UInt16} :
    u16.run bs = .ok (n, rest) ↔ bs = putU16 n ++ rest := by
  constructor
  · intro h
    match bs, h with
    | hi :: lo :: bs, h =>
      cases h
      rw [putU16_pair]
      rfl
  · rintro rfl
    exact u16_put n rest

theorem run_u32_eq_ok {n : UInt32} :
    u32.run bs = .ok (n, rest) ↔ bs = putU32 n ++ rest := by
  constructor
  · intro h
    match bs, h with
    | a :: b :: c :: d :: bs, h =>
      cases h
      have h₁ := a.toNat_lt
      have h₂ := b.toNat_lt
      have h₃ := c.toNat_lt
      have h₄ := d.toNat_lt
      have hn : (UInt32.ofNat (((a.toNat * 256 + b.toNat) * 256 + c.toNat) * 256 + d.toNat)).toNat =
          ((a.toNat * 256 + b.toNat) * 256 + c.toNat) * 256 + d.toNat := by
        rw [UInt32.toNat_ofNat']
        omega
      have hput : putU32
          (UInt32.ofNat (((a.toNat * 256 + b.toNat) * 256 + c.toNat) * 256 + d.toNat)) =
            [a, b, c, d] := by
        rw [putU32, hn]
        simp only [List.cons.injEq, and_true]
        refine ⟨?_, ?_, ?_, ?_⟩ <;> apply UInt8.toNat_inj.1 <;> rw [UInt8.toNat_ofNat'] <;> omega
      rw [hput]
      rfl
  · rintro rfl
    exact u32_put n rest

/-- A length that two bytes can tell is the one they tell. -/
theorem toNat_ofNat_length {n : Nat} (h : n < 65536) : (UInt16.ofNat n).toNat = n := by
  rw [UInt16.toNat_ofNat']
  omega

/-! ## Tables -/

theorem reads_times {r : Reader α} {put : V → Bytes} {means : V → α → Prop}
    (h : Reads r put means) (n : Nat) :
    Reads (times n r) (List.flatMap put) fun vs as =>
      vs.length = n ∧ List.Forall₂ means vs as := by
  induction n with
  | zero =>
    intro bs as rest
    rw [times, run_pure_eq_ok]
    constructor
    · rintro ⟨rfl, rfl⟩
      exact ⟨[], rfl, rfl, .nil⟩
    · rintro ⟨vs, rfl, hlen, hvs⟩
      cases List.length_eq_zero_iff.1 hlen
      cases hvs
      exact ⟨rfl, rfl⟩
  | succ n ih =>
    intro bs as rest
    simp only [times, run_bind_eq_ok, run_pure_eq_ok]
    constructor
    · rintro ⟨a, mid, ha, as, mid', has, rfl, rfl⟩
      obtain ⟨v, rfl, hv⟩ := (h _ _ _).1 ha
      obtain ⟨vs, rfl, rfl, hvs⟩ := (ih _ _ _).1 has
      exact ⟨v :: vs, by rw [List.flatMap_cons, List.append_assoc], rfl, .cons hv hvs⟩
    · rintro ⟨vs, rfl, hlen, hvs⟩
      cases hvs with
      | nil => cases hlen
      | @cons v a vs as hv hvs =>
        refine ⟨a, vs.flatMap put ++ rest, (h _ _ _).2 ⟨v, ?_, hv⟩, as, rest,
          (ih _ _ _).2 ⟨vs, rfl, Nat.succ.inj hlen, hvs⟩, rfl, rfl⟩
        rw [List.flatMap_cons, List.append_assoc]

theorem reads_table {r : Reader α} {put : V → Bytes} {means : V → α → Prop}
    (h : Reads r put means) :
    Reads (table r) (Counted.encode put) fun vs as => List.Forall₂ means vs.entries as := by
  intro bs as rest
  simp only [table, run_bind_eq_ok, run_u16_eq_ok]
  constructor
  · rintro ⟨count, mid, rfl, has⟩
    obtain ⟨vs, rfl, hlen, hvs⟩ := (reads_times h _ _ _ _).1 has
    have hcount : UInt16.ofNat vs.length = count := by rw [hlen, UInt16.ofNat_toNat]
    exact ⟨⟨vs, hlen ▸ count.toNat_lt⟩, by rw [Counted.encode, hcount, List.append_assoc], hvs⟩
  · rintro ⟨vs, rfl, hvs⟩
    refine ⟨UInt16.ofNat vs.entries.length, vs.entries.flatMap put ++ rest, ?_,
      (reads_times h _ _ _ _).2 ⟨vs.entries, rfl, (toNat_ofNat_length vs.fits).symm, hvs⟩⟩
    rw [Counted.encode, List.append_assoc]

end Reader

end PlatformImage.ClassFile
