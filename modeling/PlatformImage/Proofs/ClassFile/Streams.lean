import PlatformImage.Proofs.ClassFile.Reads
import PlatformImage.ClassFile.ModuleDescriptor
/-! Class files that are cut off, and bytes behind them. A reader streams if it decides by the
bytes it takes: it reads the same of any bytes that begin with these, it reports the end if one
of them is missing, and any other error it reports whatever comes later (`Reader.Streams`).

Readers that run one after the other stream if each does (`Streams.bind`). For a look-up in the
pool takes no bytes, and it is made when what it needs has been read. So a class file that is cut
off is never taken for a broken one (`parse_streams`). -/
namespace PlatformImage.ClassFile

variable {α β : Type}

namespace Reader

/-- A reader that decides by the bytes it takes. -/
structure Streams (r : Reader α) : Prop where
  /-- Of fewer bytes than it takes it reports the end, and what follows does not matter. -/
  takes : ∀ bs a rest, r.run bs = .ok (a, rest) → ∃ front, bs = front ++ rest ∧
    (∀ more, r.run (front ++ more) = .ok (a, more)) ∧
    ∀ k < front.length, r.run (front.take k) = .error .unexpectedEnd
  /-- What is wrong with some bytes stays wrong if there are more. -/
  fails : ∀ bs e, r.run bs = .error e → e ≠ .unexpectedEnd →
    ∀ more, r.run (bs ++ more) = .error e

/-! ## Readers put together -/

section
variable {r : Reader α} {f : α → Reader β} {bs mid : Bytes} {a : α} {e : ParseError}

theorem run_bind_of_ok (h : r.run bs = .ok (a, mid)) : (r >>= f).run bs = (f a).run mid := by
  change (r.run bs >>= fun p => (f p.1).run p.2) = _
  rw [h]
  rfl

theorem run_bind_of_error (h : r.run bs = .error e) : (r >>= f).run bs = .error e := by
  change (r.run bs >>= fun p => (f p.1).run p.2) = _
  rw [h]
  rfl

theorem Streams.pure (a : α) : Streams (pure a : Reader α) where
  takes bs b rest h := by
    obtain ⟨rfl, rfl⟩ := run_pure_eq_ok.1 h
    exact ⟨[], rfl, fun _ => rfl, fun _ hk => absurd hk (Nat.not_lt_zero _)⟩
  fails _ _ h := nomatch h

theorem Streams.throw (e : ParseError) : Streams (throw e : Reader α) where
  takes _ _ _ h := absurd h run_throw_ne_ok
  fails bs e' h _ more := by
    cases h
    rfl

/-- What is looked up does not depend on the bytes. -/
theorem Streams.lift (x : Except ParseError α) : Streams (liftM x : Reader α) := by
  cases x with
  | ok a => exact .pure a
  | error e => exact .throw e

theorem Streams.bind (hr : Streams r) (hf : ∀ a, Streams (f a)) : Streams (r >>= f) where
  takes bs b rest h := by
    obtain ⟨a, mid, ha, hb⟩ := run_bind_eq_ok.1 h
    obtain ⟨front, rfl, hfront, hcut⟩ := hr.takes _ _ _ ha
    obtain ⟨later, rfl, hlater, hcutLater⟩ := (hf a).takes _ _ _ hb
    refine ⟨front ++ later, (List.append_assoc ..).symm, fun more => ?_, fun k hk => ?_⟩
    · rw [List.append_assoc, run_bind_of_ok (hfront _), hlater]
    · -- The cut is in what the first reader takes, or in what the second one takes.
      rw [List.take_append]
      by_cases hin : k < front.length
      · have hnone : k - front.length = 0 := by omega
        rw [hnone, List.take_zero, List.append_nil]
        exact run_bind_of_error (hcut k hin)
      · rw [List.take_of_length_le (Nat.not_lt.1 hin), run_bind_of_ok (hfront _)]
        rw [List.length_append] at hk
        exact hcutLater _ (by omega)
  fails bs e h he more := by
    cases hrun : r.run bs with
    | error e' =>
      rw [run_bind_of_error hrun] at h
      cases h
      exact run_bind_of_error (hr.fails _ _ hrun he more)
    | ok p =>
      obtain ⟨a, mid⟩ := p
      rw [run_bind_of_ok hrun] at h
      obtain ⟨front, rfl, hfront, -⟩ := hr.takes _ _ _ hrun
      rw [List.append_assoc, run_bind_of_ok (hfront _)]
      exact (hf a).fails _ _ h he more

theorem Streams.map {g : α → β} (hr : Streams r) : Streams (g <$> r) := by
  rw [← bind_pure_comp]
  exact hr.bind fun a => .pure (g a)

/-- What was read so far may decide how to go on. -/
theorem Streams.ite {p : Prop} [Decidable p] {r r' : Reader α} (hr : Streams r)
    (hr' : Streams r') : Streams (if p then r else r') := by
  split
  · exact hr
  · exact hr'

theorem Streams.discard (hr : Streams r) : Streams (discard r) :=
  hr.bind fun _ => .pure ()

theorem Streams.times (hr : Streams r) (n : Nat) : Streams (times n r) := by
  induction n with
  | zero => exact .pure []
  | succ n ih => exact hr.bind fun a => ih.bind fun as => .pure (a :: as)

end

/-! ## Bytes and numbers -/

/-- A reader that takes a fixed number of bytes. -/
theorem Streams.fixed {r : Reader α} (n : Nat) (value : Bytes → α)
    (hall : ∀ front rest, front.length = n → r.run (front ++ rest) = .ok (value front, rest))
    (hcut : ∀ bs, bs.length < n → r.run bs = .error .unexpectedEnd) : Streams r := by
  have hrun (bs : Bytes) (hn : n ≤ bs.length) :
      r.run bs = .ok (value (bs.take n), bs.drop n) := by
    conv_lhs => rw [← List.take_append_drop n bs]
    exact hall _ _ (List.length_take_of_le hn)
  constructor
  · intro bs a rest h
    by_cases hn : n ≤ bs.length
    · rw [hrun bs hn] at h
      cases h
      have hlength : (bs.take n).length = n := List.length_take_of_le hn
      refine ⟨bs.take n, (List.take_append_drop n bs).symm, fun more => hall _ _ hlength, ?_⟩
      intro k hk
      rw [hlength] at hk
      refine hcut _ (Nat.lt_of_le_of_lt (List.length_take_le ..) hk)
    · rw [hcut bs (Nat.not_le.1 hn)] at h
      cases h
  · intro bs e h he
    by_cases hn : n ≤ bs.length
    · rw [hrun bs hn] at h
      cases h
    · rw [hcut bs (Nat.not_le.1 hn)] at h
      cases h
      exact absurd rfl he

theorem streams_bytes (n : Nat) : Streams (bytes n) := by
  refine .fixed n id ?_ ?_
  · rintro front rest rfl
    exact (reads_bytes _ _ _).2 ⟨front, rfl, rfl, rfl⟩
  · intro bs hn
    change bytes n bs = _
    unfold bytes
    split
    · next hsplit =>
      obtain ⟨rfl, rfl⟩ := eq_append_of_splitExact hsplit
      rw [List.length_append] at hn
      omega
    · rfl

theorem streams_skip (n : Nat) : Streams (skip n) := (streams_bytes n).discard

theorem streams_u8 : Streams u8 := by
  refine .fixed 1 (fun front => front.headD 0) ?_ ?_
  · intro front rest hfront
    match front, hfront with
    | [_], _ => rfl
  · intro bs hn
    match bs, hn with
    | [], _ => rfl

theorem streams_u16 : Streams u16 := by
  refine .fixed 2 (fun front => pair (front.getD 0 0) (front.getD 1 0)) ?_ ?_
  · intro front rest hfront
    match front, hfront with
    | [_, _], _ => rfl
  · intro bs hn
    match bs, hn with
    | [], _ => rfl
    | [_], _ => rfl

theorem streams_u32 : Streams u32 := by
  refine .fixed 4 (fun front => UInt32.ofNat
    ((((front.getD 0 0).toNat * 256 + (front.getD 1 0).toNat) * 256 + (front.getD 2 0).toNat) * 256
      + (front.getD 3 0).toNat)) ?_ ?_
  · intro front rest hfront
    match front, hfront with
    | [_, _, _, _], _ => rfl
  · intro bs hn
    match bs, hn with
    | [], _ | [_], _ | [_, _], _ | [_, _, _], _ => rfl

theorem Streams.table {r : Reader α} (hr : Streams r) : Streams (table r) :=
  .bind streams_u16 fun count => hr.times count.toNat

end Reader

open Reader

/-! ## The constant pool -/

namespace ConstantPool

theorem streams_readText (length : Nat) : Streams (readText length) := by
  refine (streams_bytes length).bind fun bs => ?_
  split
  · exact .pure _
  · exact .throw _

theorem streams_readConstant : Streams readConstant := by
  refine .bind streams_u8 fun tag => ?_
  have hskip (n : Nat) (slots : List Constant) : Streams (do skip n; return slots : Reader _) :=
    (streams_skip n).bind fun _ => .pure slots
  have hname (f : UInt16 → Constant) : Streams (do return [f (← u16)] : Reader _) :=
    .bind streams_u16 fun name => .pure [f name]
  split
  case h_1 =>
    exact .bind streams_u16 fun length => (streams_readText length.toNat).bind fun _ => .pure _
  case h_12 | h_16 | h_17 => exact hname _
  case h_18 => exact .throw _
  all_goals exact hskip _ _

/-- By what is missing: the next constant fills a slot at least. -/
theorem streams_readSlots (missing : Nat) (pool : ConstantPool) :
    Streams (readSlots missing pool) := by
  induction missing using Nat.strongRecOn generalizing pool with
  | ind missing ih =>
    cases missing with
    | zero =>
      unfold readSlots
      exact .pure pool
    | succ missing =>
      unfold readSlots
      exact .bind streams_readConstant fun slots => ih _ (Nat.lt_succ_of_le (Nat.sub_le ..)) _

theorem streams_read : Streams ConstantPool.read :=
  .bind streams_u16 fun count => streams_readSlots (count.toNat - 1) start

end ConstantPool

namespace Reader

variable (pool : ConstantPool)

/-! ## Types -/

theorem streams_header : Streams header := by
  refine .bind streams_u32 fun found => .ite ?_ (.throw (.badMagic found))
  exact .bind streams_u16 fun minor => .bind streams_u16 fun major => .pure _

theorem streams_skipAttributes : Streams skipAttributes :=
  Streams.discard <| .table <|
    .bind streams_u16 fun _ => .bind streams_u32 fun length => streams_skip length.toNat

theorem streams_member : Streams (member pool) :=
  .bind streams_u16 fun _ =>
  .bind streams_u16 fun name => .bind (.lift (pool.text name)) fun _ =>
  .bind streams_u16 fun descriptor => .bind (.lift (pool.text descriptor)) fun _ =>
  .bind streams_skipAttributes fun _ => .pure _

theorem streams_members : Streams (members pool) := (streams_member pool).table

theorem streams_classRef : Streams (classRef pool) :=
  .bind streams_u16 fun index => .lift (pool.className index)

theorem streams_binaryType : Streams binaryType := by
  refine .bind streams_header fun version => .bind ConstantPool.streams_read fun pool =>
    .bind streams_u16 fun flags => .bind streams_u16 fun thisClass =>
    .bind streams_u16 fun superClass => (streams_classRef pool).table.bind fun interfaces =>
    (streams_members pool).bind fun fields => (streams_members pool).bind fun methods =>
    .bind streams_skipAttributes fun _ => ?_
  -- What is left only looks up names.
  split
  · exact .bind (.pure none) fun _ => .bind (.lift _) fun _ => .pure _
  · exact .bind (.map (.lift _)) fun _ => .bind (.lift _) fun _ => .pure _

/-! ## Descriptors of modules -/

/-- Attributes are stepped over until the one that is looked for was read, its body included; only
then its name decides. -/
theorem streams_findModuleAttribute (count : Nat) : Streams (findModuleAttribute pool count) := by
  induction count with
  | zero => exact .throw _
  | succ count ih =>
    refine .bind streams_u16 fun index => .bind streams_u32 fun length =>
      (streams_bytes length.toNat).bind fun body => .bind (.lift (pool.text index)) fun name =>
      .ite (.pure body) ih

theorem streams_moduleDescriptor : Streams moduleDescriptor := by
  -- What follows the check of the flags stands in both of its branches.
  refine .bind streams_header fun _ => .bind ConstantPool.streams_read fun pool =>
    .bind streams_u16 fun flags => .ite (.bind (.throw _) fun _ => ?rest) ?rest
  exact .bind streams_u16 fun _ => .bind streams_u16 fun _ => .bind streams_u16 fun interfaces =>
    (streams_skip (interfaces.toNat * 2)).bind fun _ =>
    (streams_members pool).bind fun _ => (streams_members pool).bind fun _ =>
    .bind streams_u16 fun attributes =>
    (streams_findModuleAttribute pool attributes.toNat).bind fun body =>
    -- The body is read on its own, out of bytes that were taken already.
    .bind (.lift ((moduleAttribute pool).run body)) fun _ => .pure _

end Reader

/-! ## Parsing -/

/-- Parsing that decides by the bytes at the front. -/
def ParsesFront (parse : Bytes → Except ParseError α) : Prop :=
  (∀ bs t, parse bs = .ok t → ∃ n ≤ bs.length,
    (∀ more, parse (bs.take n ++ more) = .ok t) ∧
    ∀ k < n, parse (bs.take k) = .error .unexpectedEnd) ∧
  ∀ bs e, parse bs = .error e → e ≠ .unexpectedEnd → ∀ more, parse (bs ++ more) = .error e

/-- What parsing gives is what the reader gives, without the bytes that it left. -/
theorem Reader.Streams.parsesFront {r : Reader α} (hr : Streams r) :
    ParsesFront fun bs => (r.run bs).map (·.1) := by
  have hok {bs rest : Bytes} {t : α} (h : r.run bs = .ok (t, rest)) :
      (r.run bs).map (·.1) = .ok t := by rw [h]; rfl
  have herror {bs : Bytes} {e : ParseError} (h : r.run bs = .error e) :
      (r.run bs).map (·.1) = .error e := by rw [h]; rfl
  constructor
  · intro bs t h
    cases hrun : r.run bs with
    | error e => cases (herror hrun).symm.trans h
    | ok p =>
      obtain ⟨a, rest⟩ := p
      cases (hok hrun).symm.trans h
      obtain ⟨front, rfl, hfront, hcut⟩ := hr.takes _ _ _ hrun
      refine ⟨front.length, List.length_append ▸ Nat.le_add_right .., ?_, ?_⟩
      · intro more
        rw [List.take_left]
        exact hok (hfront more)
      · intro k hk
        rw [List.take_append_of_le_length (Nat.le_of_lt hk)]
        exact herror (hcut k hk)
  · intro bs e h he more
    cases hrun : r.run bs with
    | ok p => cases (hok hrun).symm.trans h
    | error e' =>
      cases (herror hrun).symm.trans h
      exact herror (hr.fails _ _ hrun he more)

/-- **A class file that is cut off is found to be cut off.** Where bytes are parsed there is a
length from which on nothing matters, and of fewer bytes the end is reported, wherever they are
cut; any other error remains if more bytes come. -/
theorem parse_streams : ParsesFront BinaryType.parse ∧ ParsesFront ModuleDescriptor.parse :=
  ⟨streams_binaryType.parsesFront, streams_moduleDescriptor.parsesFront⟩

/-- The class file of a class `A`. -/
def smallClass : Bytes :=
  [0xCA, 0xFE, 0xBA, 0xBE, 0, 0, 0, 52, 0, 3, 1, 0, 1, 65, 7, 0, 1, 0, 0x21, 0, 2, 0, 0,
    0, 0, 0, 0, 0, 0, 0, 0]

/-- It is a class, wherever the bytes behind it end, and never a module. -/
theorem parse_streams_smallClass :
    (∃ n ≤ smallClass.length, (∀ more, BinaryType.parse (smallClass.take n ++ more) =
        .ok ⟨"A", none, [], 0x21, 52, 0, [], [], none⟩) ∧
      ∀ k < n, BinaryType.parse (smallClass.take k) = .error .unexpectedEnd) ∧
    ∀ more, ModuleDescriptor.parse (smallClass ++ more) = .error .notAModule :=
  ⟨parse_streams.1.1 smallClass _ (by decide +kernel),
    parse_streams.2.2 smallClass .notAModule (by decide +kernel) nofun⟩

end PlatformImage.ClassFile
