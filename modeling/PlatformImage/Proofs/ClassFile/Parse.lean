import PlatformImage.Proofs.ClassFile.Pool
/-! Parsing accepts exactly the format of class files: bytes are parsed to a type if
and only if they begin with a value of the format that describes it
(`parse_eq_ok_iff`). -/
namespace PlatformImage.ClassFile

open Reader

namespace Reader

variable {bs rest : Bytes} {p : Pool}

theorem run_header_eq_ok {v : Version} : header.run bs = .ok (v, rest) ↔
    bs = putU32 magic ++ (putU16 v.minor ++ (putU16 v.major ++ rest)) := by
  rw [header, run_bind_eq_ok]
  constructor
  · rintro ⟨found, mid, hfound, h⟩
    split at h
    · next hmagic =>
      simp only [run_bind_eq_ok, run_u16_eq_ok, run_pure_eq_ok] at h
      obtain ⟨minor, _, rfl, major, _, rfl, rfl, rfl⟩ := h
      rw [run_u32_eq_ok.1 hfound, hmagic]
    · exact absurd h run_throw_ne_ok
  · rintro rfl
    refine ⟨magic, _, run_u32_eq_ok.2 rfl, ?_⟩
    rw [if_pos rfl]
    simp only [run_bind_eq_ok, run_u16_eq_ok, run_pure_eq_ok]
    exact ⟨v.minor, _, rfl, v.major, rest, rfl, rfl, rfl⟩

theorem reads_skipAttribute : Reads skipAttribute Attribute.encode fun _ _ => True := by
  intro bs u rest
  simp only [skipAttribute, run_bind_eq_ok, run_u16_eq_ok, run_u32_eq_ok, run_skip_eq_ok]
  constructor
  · rintro ⟨name, _, rfl, length, _, rfl, body, rfl, hlen⟩
    refine ⟨⟨name, body, hlen ▸ length.toNat_lt⟩, ?_, trivial⟩
    simp only [Attribute.encode, hlen, UInt32.ofNat_toNat, List.append_assoc]
  · rintro ⟨a, rfl, _⟩
    have hlen : (UInt32.ofNat a.body.length).toNat = a.body.length := by
      have := a.fits
      rw [UInt32.toNat_ofNat']
      omega
    refine ⟨a.name, _, ?_, UInt32.ofNat a.body.length, a.body ++ rest, rfl, a.body, rfl, hlen.symm⟩
    simp only [Attribute.encode, List.append_assoc]

theorem reads_skipAttributes :
    Reads skipAttributes (Counted.encode Attribute.encode) fun _ _ => True := by
  intro bs u rest
  rw [skipAttributes, run_discard_eq_ok]
  constructor
  · rintro ⟨us, h⟩
    obtain ⟨as, rfl, _⟩ := (reads_table reads_skipAttribute _ _ _).1 h
    exact ⟨as, rfl, trivial⟩
  · rintro ⟨as, rfl, _⟩
    refine ⟨as.entries.map fun _ => (), (reads_table reads_skipAttribute _ _ _).2 ⟨as, rfl, ?_⟩⟩
    exact List.forall₂_map_right_iff.2 (List.forall₂_same.2 fun _ _ => trivial)

theorem reads_member : Reads (member (.ofItems p.items)) MemberValue.encode
    (MemberValue.Describes p) := by
  intro bs m rest
  simp only [member, run_bind_eq_ok, run_u16_eq_ok, run_lift_eq_ok, run_pure_eq_ok,
    ConstantPool.text_ofItems, reads_skipAttributes _ _ _]
  constructor
  · rintro ⟨flags, _, rfl, name, _, rfl, n, _, ⟨hn, rfl⟩, descriptor, _, rfl, d, _, ⟨hd, rfl⟩,
      _, _, ⟨as, rfl, _⟩, rfl, rfl⟩
    refine ⟨⟨flags, name, descriptor, as⟩, ?_, hn, hd, rfl⟩
    simp only [MemberValue.encode, List.append_assoc]
  · rintro ⟨v, rfl, hv⟩
    refine ⟨v.flags, _, ?_, v.name, _, rfl, m.name, _, ⟨hv.name, rfl⟩, v.descriptor, _, rfl,
      m.descriptor, _, ⟨hv.descriptor, rfl⟩, (), rest, ⟨v.attributes, rfl, trivial⟩, ?_, rfl⟩
    · simp only [MemberValue.encode, List.append_assoc]
    · rw [← hv.flags]

theorem reads_members : Reads (members (.ofItems p.items)) (Counted.encode MemberValue.encode)
    fun vs ms => List.Forall₂ (MemberValue.Describes p) vs.entries ms :=
  reads_table reads_member

theorem reads_classRef : Reads (classRef (.ofItems p.items)) putU16 p.IsClass := by
  intro bs name rest
  simp only [classRef, run_bind_eq_ok, run_u16_eq_ok, run_lift_eq_ok,
    ConstantPool.className_ofItems]
  constructor
  · rintro ⟨index, _, rfl, hname, rfl⟩
    exact ⟨index, rfl, hname⟩
  · rintro ⟨index, rfl, hname⟩
    exact ⟨index, rest, rfl, hname, rfl⟩

/-- The names that are looked up after everything was read. -/
theorem run_names_eq_ok {superClass thisClass : UInt16} {make : Option String → String → BinaryType}
    {t : BinaryType} :
    (if superClass = 0 then do
        let superName ← pure none
        let name ← liftM ((ConstantPool.ofItems p.items).className thisClass)
        pure (make superName name)
      else do
        let superName ← some <$> liftM ((ConstantPool.ofItems p.items).className superClass)
        let name ← liftM ((ConstantPool.ofItems p.items).className thisClass)
        pure (make superName name) : Reader BinaryType).run bs = .ok (t, rest) ↔
      ∃ superName name, (if superClass = 0 then superName = none
          else ∃ found, superName = some found ∧ p.IsClass superClass found) ∧
        p.IsClass thisClass name ∧ t = make superName name ∧ bs = rest := by
  split
  · simp only [run_bind_eq_ok, run_lift_eq_ok, run_pure_eq_ok, ConstantPool.className_ofItems]
    constructor
    · rintro ⟨_, _, ⟨rfl, rfl⟩, name, _, ⟨hname, rfl⟩, rfl, rfl⟩
      exact ⟨none, name, rfl, hname, rfl, rfl⟩
    · rintro ⟨_, name, rfl, hname, rfl, rfl⟩
      exact ⟨none, _, ⟨rfl, rfl⟩, name, _, ⟨hname, rfl⟩, rfl, rfl⟩
  · simp only [run_bind_eq_ok, run_map_eq_ok, run_lift_eq_ok, run_pure_eq_ok,
      ConstantPool.className_ofItems]
    constructor
    · rintro ⟨_, _, ⟨found, ⟨hfound, rfl⟩, rfl⟩, name, _, ⟨hname, rfl⟩, rfl, rfl⟩
      exact ⟨some found, name, ⟨found, rfl, hfound⟩, hname, rfl, rfl⟩
    · rintro ⟨_, name, ⟨found, rfl, hfound⟩, hname, rfl, rfl⟩
      exact ⟨some found, _, ⟨found, ⟨hfound, rfl⟩, rfl⟩, name, _, ⟨hname, rfl⟩, rfl, rfl⟩

theorem reads_binaryType : Reads binaryType ClassValue.encode ClassValue.Describes := by
  intro bs t rest
  simp only [binaryType, run_bind_eq_ok, run_header_eq_ok, run_u16_eq_ok,
    ConstantPool.reads_pool _ _ _, reads_skipAttributes _ _ _]
  constructor
  · rintro ⟨version, _, rfl, _, _, ⟨p, rfl, rfl⟩, flags, _, rfl, thisClass, _, rfl,
      superClass, _, rfl, is, _, his, fs, _, hfs, ms, _, hms, _, _, ⟨as, rfl, _⟩, hnames⟩
    -- The tables were read in this order; the names were looked up in the end.
    obtain ⟨interfaces, rfl, hinterfaces⟩ := (reads_table reads_classRef _ _ _).1 his
    obtain ⟨fields, rfl, hfields⟩ := (reads_members _ _ _).1 hfs
    obtain ⟨methods, rfl, hmethods⟩ := (reads_members _ _ _).1 hms
    obtain ⟨superName, name, hsuper, hname, rfl, rfl⟩ := run_names_eq_ok.1 hnames
    refine ⟨⟨version.minor, version.major, p, flags, thisClass, superClass, interfaces, fields,
      methods, as⟩, ?_, hname, hsuper, hinterfaces, hfields, hmethods, rfl, rfl, rfl, rfl⟩
    simp only [ClassValue.encode, List.append_assoc]
  · rintro ⟨v, rfl, hv⟩
    refine ⟨⟨v.minor, v.major⟩, _, ?_, _, _, ⟨v.pool, rfl, rfl⟩, v.flags, _, rfl, v.thisClass, _,
      rfl, v.superClass, _, rfl, t.interfaces, _,
      (reads_table reads_classRef _ _ _).2 ⟨v.interfaces, rfl, hv.interfaces⟩, t.fields, _,
      (reads_members _ _ _).2 ⟨v.fields, rfl, hv.fields⟩, t.methods, _,
      (reads_members _ _ _).2 ⟨v.methods, rfl, hv.methods⟩, (), rest,
      ⟨v.attributes, rfl, trivial⟩, ?_⟩
    · simp only [ClassValue.encode, List.append_assoc]
    · refine run_names_eq_ok.2 ⟨t.superName, t.name, hv.superName, hv.name, ?_, rfl⟩
      rw [← hv.flags, ← hv.major, ← hv.minor, ← hv.annotations]

end Reader

/-- **Parsing accepts exactly the format.** Bytes are parsed to a type if and only if
    they begin with a value of the format that describes it; what follows is ignored.
    Of a pool put into bytes just those slots resolve in which a constant of the right
    kind begins: these lie from 1 on and before the count, and no second slot of a
    constant is among them. -/
theorem parse_eq_ok_iff :
    (∀ bs t, BinaryType.parse bs = .ok t ↔
      ∃ (v : ClassValue) (rest : Bytes), bs = v.encode ++ rest ∧ v.Describes t) ∧
    ∀ p : Pool,
      (∀ rest, ∃ pool, ConstantPool.read.run (p.encode ++ rest) = .ok (pool, rest) ∧
        ∀ index name, (pool.text index = .ok name ↔ p.IsText index name) ∧
          (pool.className index = .ok name ↔ p.IsClass index name)) ∧
      ∀ slot item, Pool.Holds p.items slot item →
        1 ≤ slot ∧ slot < p.count.toNat ∧
        ∀ second < slot + item.width, slot < second → ∀ other, ¬Pool.Holds p.items second other := by
  refine ⟨fun bs t => ?_, fun p => ⟨fun rest => ?_, fun slot item h => ⟨h.slot_pos, ?_, ?_⟩⟩⟩
  · have hparse : BinaryType.parse bs = .ok t ↔ ∃ rest, binaryType.run bs = .ok (t, rest) := by
      unfold BinaryType.parse
      cases binaryType.run bs with
      | error e => exact ⟨nofun, nofun⟩
      | ok read => exact ⟨fun h => by cases h; exact ⟨read.2, rfl⟩, fun ⟨_, h⟩ => by cases h; rfl⟩
    rw [hparse, exists_comm]
    exact exists_congr fun rest => reads_binaryType bs t rest
  · exact ⟨.ofItems p.items, (ConstantPool.reads_pool _ _ _).2 ⟨p, rfl, rfl⟩, fun index name =>
      ⟨ConstantPool.text_ofItems, ConstantPool.className_ofItems⟩⟩
  · have := h.slot_le p.full
    have := h.slot_pos
    omega
  · intro second hlt hgt other hother
    have := (h.disjoint hother (Nat.le_of_lt hgt) hlt).1
    omega

/-- An attribute that is skipped. -/
def skippedAttribute (name : UInt16) : Attribute := ⟨name, [7, 7], by decide⟩

/-- A constant of two slots. -/
def longConstant : PoolItem := .plain 5 [0, 0, 0, 0, 0, 0, 0, 9] rfl

/-- A class with a field whose name stands behind a long constant. -/
def behindLong : ClassValue where
  minor := 0
  major := 52
  pool :=
    ⟨7, [.utf8 "A" (by decide +kernel), .class 1, longConstant,
      .utf8 "x" (by decide +kernel), .utf8 "J" (by decide +kernel)], by decide +kernel⟩
  flags := 0x0021
  thisClass := 2
  superClass := 0
  interfaces := .empty
  fields := ⟨[⟨0x0001, 5, 6, .empty⟩], by decide⟩
  methods := .empty
  attributes := ⟨[skippedAttribute 1], by decide⟩

theorem parse_behindLong : BinaryType.parse (behindLong.encode ++ [0]) =
    .ok ⟨"A", none, [], 0x0021, 52, 0, [⟨"x", "J", 0x0001⟩], [], none⟩ := by
  have hname : behindLong.pool.IsText 1 "A" := ⟨by decide +kernel, [], _, rfl, rfl⟩
  have hfield : behindLong.pool.IsText 5 "x" :=
    ⟨by decide +kernel, behindLong.pool.items.take 3, _, rfl, rfl⟩
  have hdescriptor : behindLong.pool.IsText 6 "J" :=
    ⟨by decide +kernel, behindLong.pool.items.take 4, _, rfl, rfl⟩
  refine (parse_eq_ok_iff.1 _ _).2 ⟨behindLong, [0], rfl, ?_⟩
  exact
    { name := ⟨1, ⟨behindLong.pool.items.take 1, _, rfl, rfl⟩, hname⟩
      superName := rfl
      interfaces := .nil
      fields := .cons ⟨hfield, hdescriptor, rfl⟩ .nil
      methods := .nil
      flags := rfl
      major := rfl
      minor := rfl
      annotations := rfl }

end PlatformImage.ClassFile
