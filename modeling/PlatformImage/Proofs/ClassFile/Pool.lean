import PlatformImage.Proofs.ClassFile.Reads
/-! Constant pools as they are read: what their slots hold, and which of these resolve.

The slots that a pool is read into are those of its constants, one after the other
(`reads_pool`), so a slot resolves just if a constant of the right kind begins in it
(`text_ofItems`, `className_ofItems`). -/
namespace PlatformImage.ClassFile

open Reader

variable {bs rest : Bytes}

/-! ## Constants -/

namespace PoolItem

/-- A constant in the first of its slots. -/
def constant : PoolItem → Constant
  | utf8 text _ => .utf8 text
  | «class» name => .class name
  | module name => .module name
  | package name => .package name
  | plain _ _ _ => .other

/-- What the slots of a constant hold. -/
def slots (item : PoolItem) : List Constant :=
  item.constant :: List.replicate (item.width - 1) .unusable

theorem length_slots (item : PoolItem) : item.slots.length = item.width := by
  have := item.width_pos
  rw [slots, List.length_cons, List.length_replicate]
  omega

end PoolItem

namespace ConstantPool

theorem run_u8_bind {β : Type} (f : UInt8 → Reader β) (tag : UInt8) :
    (u8 >>= f).run (tag :: bs) = (f tag).run bs := rfl

theorem readConstant_plain {tag : UInt8} {n : Nat} (h : bodySize? tag = some n) :
    readConstant.run (tag :: bs) = (do
      skip n
      return .other :: List.replicate ((if tag = 5 ∨ tag = 6 then 2 else 1) - 1) .unusable :
        Reader (List Constant)).run bs := by
  unfold bodySize? at h
  split at h <;> cases h
  all_goals rfl

theorem readConstant_unknown {tag : UInt8} (h : bodySize? tag = none) (htext : tag ≠ 1)
    (hclass : tag ≠ 7) (hmodule : tag ≠ 19) (hpackage : tag ≠ 20) :
    readConstant.run (tag :: bs) = .error (.unknownConstant tag) := by
  unfold readConstant
  rw [run_u8_bind]
  split
  · exact absurd rfl htext
  all_goals first | cases h | skip
  · exact absurd rfl hclass
  · exact absurd rfl hmodule
  · exact absurd rfl hpackage
  · rfl

theorem reads_text {length : Nat} : Reads (readText length) Text.Utf8.encode
    fun text s => text = s ∧ (Text.Utf8.encode text).length = length := by
  intro bs s rest
  rw [readText, run_bind_eq_ok]
  constructor
  · rintro ⟨_, mid, hbytes, h⟩
    obtain ⟨body, rfl, rfl, hlen⟩ := (reads_bytes _ _ _).1 hbytes
    split at h
    · next s' hs =>
      obtain ⟨rfl, rfl⟩ := run_pure_eq_ok.1 h
      rw [Text.Utf8.decode_eq_ok_iff] at hs
      exact ⟨s', congrArg (· ++ mid) hs, rfl, hs ▸ hlen⟩
    · exact absurd h run_throw_ne_ok
  · rintro ⟨text, rfl, rfl, hlen⟩
    refine ⟨Text.Utf8.encode text, rest, (reads_bytes _ _ _).2 ⟨_, rfl, rfl, hlen⟩, ?_⟩
    rw [Text.Utf8.decode_encode]
    exact run_pure_eq_ok.2 ⟨rfl, rfl⟩

/-- Constants that refer to another slot, by their tags. -/
theorem run_reference_eq_ok {f : UInt16 → Constant} {slots : List Constant} :
    (do return [f (← u16)] : Reader (List Constant)).run bs = .ok (slots, rest) ↔
      ∃ name, bs = putU16 name ++ rest ∧ slots = [f name] := by
  rw [run_bind_eq_ok]
  constructor
  · rintro ⟨name, mid, hname, h⟩
    obtain ⟨rfl, rfl⟩ := run_pure_eq_ok.1 h
    exact ⟨name, run_u16_eq_ok.1 hname, rfl⟩
  · rintro ⟨name, hname, rfl⟩
    exact ⟨name, rest, run_u16_eq_ok.2 hname, run_pure_eq_ok.2 ⟨rfl, rfl⟩⟩

theorem run_utf8_eq_ok {slots : List Constant} :
    (do
      let length ← u16
      let text ← readText length.toNat
      return [.utf8 text] : Reader (List Constant)).run bs = .ok (slots, rest) ↔
      ∃ text, ∃ fits : (Text.Utf8.encode text).length < 65536,
        bs = (PoolItem.utf8 text fits).encode.tail ++ rest ∧ slots = [.utf8 text] := by
  simp only [run_bind_eq_ok, run_u16_eq_ok]
  constructor
  · rintro ⟨length, mid, rfl, s, mid', hs, h⟩
    obtain ⟨rfl, rfl⟩ := run_pure_eq_ok.1 h
    obtain ⟨text, rfl, rfl, hlen⟩ := (reads_text _ _ _).1 hs
    have hcount : UInt16.ofNat (Text.Utf8.encode text).length = length := by
      rw [hlen, UInt16.ofNat_toNat]
    refine ⟨text, hlen ▸ length.toNat_lt, ?_, rfl⟩
    rw [PoolItem.encode, List.tail_cons, hcount, List.append_assoc]
  · rintro ⟨text, fits, rfl, rfl⟩
    refine ⟨UInt16.ofNat (Text.Utf8.encode text).length, Text.Utf8.encode text ++ rest, ?_,
      text, rest, (reads_text _ _ _).2 ⟨text, rfl, rfl, (toNat_ofNat_length fits).symm⟩,
      run_pure_eq_ok.2 ⟨rfl, rfl⟩⟩
    rw [PoolItem.encode, List.tail_cons, List.append_assoc]

theorem reads_constant :
    Reads readConstant PoolItem.encode fun item slots => slots = item.slots := by
  intro bs slots rest
  constructor
  · intro h
    cases bs with
    | nil => cases h
    | cons tag bs =>
      -- The tag says which constant it is.
      by_cases htext : tag = 1
      · subst htext
        obtain ⟨text, fits, rfl, rfl⟩ := run_utf8_eq_ok.1 h
        exact ⟨.utf8 text fits, rfl, rfl⟩
      by_cases hclass : tag = 7
      · subst hclass
        obtain ⟨name, rfl, rfl⟩ := run_reference_eq_ok.1 h
        exact ⟨.class name, rfl, rfl⟩
      by_cases hmodule : tag = 19
      · subst hmodule
        obtain ⟨name, rfl, rfl⟩ := run_reference_eq_ok.1 h
        exact ⟨.module name, rfl, rfl⟩
      by_cases hpackage : tag = 20
      · subst hpackage
        obtain ⟨name, rfl, rfl⟩ := run_reference_eq_ok.1 h
        exact ⟨.package name, rfl, rfl⟩
      -- Under any other tag there is a body of a fixed size, or nothing is read.
      cases hsize : bodySize? tag with
      | some n =>
        rw [readConstant_plain hsize, run_bind_eq_ok] at h
        obtain ⟨_, _, hskip, h⟩ := h
        obtain ⟨body, rfl, rfl⟩ := run_skip_eq_ok.1 hskip
        obtain ⟨rfl, rfl⟩ := run_pure_eq_ok.1 h
        exact ⟨.plain tag body hsize, rfl, rfl⟩
      | none =>
        rw [readConstant_unknown hsize htext hclass hmodule hpackage] at h
        cases h
  · rintro ⟨item, rfl, rfl⟩
    cases item with
    | utf8 text fits => exact run_utf8_eq_ok.2 ⟨text, fits, rfl, rfl⟩
    | «class» name => exact run_reference_eq_ok.2 ⟨name, rfl, rfl⟩
    | module name => exact run_reference_eq_ok.2 ⟨name, rfl, rfl⟩
    | package name => exact run_reference_eq_ok.2 ⟨name, rfl, rfl⟩
    | plain tag body size =>
      rw [PoolItem.encode, List.cons_append, readConstant_plain size, run_bind_eq_ok]
      exact ⟨(), rest, run_skip_eq_ok.2 ⟨body, rfl, rfl⟩, run_pure_eq_ok.2 ⟨rfl, rfl⟩⟩

/-! ## Pools -/

/-- The pool of some constants, behind slot 0. -/
def ofItems (items : List PoolItem) : ConstantPool :=
  ⟨#[.unusable] ++ (items.flatMap PoolItem.slots).toArray⟩

theorem reads_slots (missing : Nat) (before : ConstantPool) :
    Reads (readSlots missing before) (List.flatMap PoolItem.encode) fun items pool =>
      Fills missing items ∧ pool = ⟨before.slots ++ (items.flatMap PoolItem.slots).toArray⟩ := by
  induction missing using Nat.strongRecOn generalizing before with
  | ind missing ih =>
    intro bs pool rest
    cases missing with
    | zero =>
      rw [readSlots, run_pure_eq_ok]
      constructor
      · rintro ⟨rfl, rfl⟩
        exact ⟨[], rfl, fills_zero.2 rfl, by simp⟩
      · rintro ⟨items, rfl, hfills, rfl⟩
        obtain rfl := fills_zero.1 hfills
        simp
    | succ missing =>
      rw [readSlots, run_bind_eq_ok]
      -- A constant may fill more than one slot, so what is left is not one slot less.
      have hlater (item : PoolItem) :
          Reads (readSlots (missing - (item.slots.length - 1)) ⟨before.slots ++ item.slots.toArray⟩)
            (List.flatMap PoolItem.encode) fun items pool => Fills (missing + 1 - item.width) items ∧
              pool = ⟨before.slots ++ ((item :: items).flatMap PoolItem.slots).toArray⟩ := by
        have := item.width_pos
        have hleft : missing - (item.slots.length - 1) = missing + 1 - item.width := by
          rw [item.length_slots]
          omega
        have h := ih (missing + 1 - item.width) (by omega) ⟨before.slots ++ item.slots.toArray⟩
        rw [hleft]
        simpa only [List.flatMap_cons, ← List.append_toArray, Array.append_assoc] using h
      constructor
      · rintro ⟨slots, mid, hitem, h⟩
        obtain ⟨item, rfl, rfl⟩ := (reads_constant _ _ _).1 hitem
        obtain ⟨items, rfl, hfills, hpool⟩ := (hlater item _ _ _).1 h
        exact ⟨item :: items, by rw [List.flatMap_cons, List.append_assoc], hfills, hpool⟩
      · rintro ⟨items, rfl, hfills, hpool⟩
        cases items with
        | nil => cases hfills
        | cons item items =>
          refine ⟨item.slots, items.flatMap PoolItem.encode ++ rest,
            (reads_constant _ _ _).2 ⟨item, ?_, rfl⟩,
            (hlater item _ _ _).2 ⟨items, rfl, hfills, hpool⟩⟩
          rw [List.flatMap_cons, List.append_assoc]

theorem reads_pool : Reads read Pool.encode fun p pool => pool = ofItems p.items := by
  intro bs pool rest
  rw [read, run_bind_eq_ok]
  constructor
  · rintro ⟨count, mid, hcount, h⟩
    obtain ⟨items, rfl, hfull, rfl⟩ := (reads_slots _ _ _ _ _).1 h
    refine ⟨⟨count, items, hfull⟩, ?_, rfl⟩
    rw [run_u16_eq_ok.1 hcount, Pool.encode, List.append_assoc]
  · rintro ⟨p, rfl, rfl⟩
    refine ⟨p.count, p.items.flatMap PoolItem.encode ++ rest, run_u16_eq_ok.2 ?_,
      (reads_slots _ _ _ _ _).2 ⟨p.items, rfl, p.full, rfl⟩⟩
    rw [Pool.encode, List.append_assoc]

/-! ## References -/

/-- What a constant fills its slots with, by the number of the slot among these. -/
theorem getElem?_slots_eq_some {item : PoolItem} {i : Nat} {c : Constant} (hc : c ≠ .unusable) :
    item.slots[i]? = some c ↔ i = 0 ∧ item.constant = c := by
  rw [PoolItem.slots]
  cases i with
  | zero => simp
  | succ i =>
    rw [List.getElem?_cons_succ, List.getElem?_replicate]
    split
    · simp [hc.symm]
    · simp

theorem getElem?_flatMap_slots {items : List PoolItem} {i : Nat} {c : Constant}
    (hc : c ≠ .unusable) : (items.flatMap PoolItem.slots)[i]? = some c ↔
      ∃ item, Pool.Holds items (i + 1) item ∧ item.constant = c := by
  induction items generalizing i with
  | nil =>
    constructor
    · intro h; cases h
    · rintro ⟨_, h, _⟩; exact absurd h Pool.not_holds_nil
  | cons first items ih =>
    -- The slot is among those of the first constant, or lies behind all of them.
    simp only [Pool.holds_cons]
    rw [List.flatMap_cons, List.getElem?_append, first.length_slots]
    split
    · next hlt =>
      rw [getElem?_slots_eq_some hc]
      constructor
      · rintro ⟨rfl, rfl⟩
        exact ⟨first, .inl ⟨rfl, rfl⟩, rfl⟩
      · rintro ⟨item, ⟨hi, rfl⟩ | ⟨slot, hi, h⟩, hitem⟩
        · exact ⟨by omega, hitem⟩
        · have := h.slot_pos
          omega
    · next hge =>
      rw [ih]
      have := first.width_pos
      constructor
      · rintro ⟨item, h, hitem⟩
        exact ⟨item, .inr ⟨_, by omega, h⟩, hitem⟩
      · rintro ⟨item, ⟨hi, _⟩ | ⟨slot, hi, h⟩, hitem⟩
        · omega
        · obtain rfl : slot = i - first.width + 1 := by omega
          exact ⟨item, h, hitem⟩

/-- A slot holds what the constant that begins in it stands for. -/
theorem get_ofItems {items : List PoolItem} {index : UInt16} {c : Constant} (hc : c ≠ .unusable) :
    (ofItems items).get index = .ok c ↔
      ∃ item, Pool.Holds items index.toNat item ∧ item.constant = c := by
  have hget : (ofItems items).get index = .ok c ↔ (ofItems items).slots[index.toNat]? = some c := by
    unfold get
    cases (ofItems items).slots[index.toNat]? <;> simp
  rw [hget, ofItems, List.append_toArray, List.getElem?_toArray]
  cases h : index.toNat with
  | zero =>
    constructor
    · intro h'
      cases h'
      exact absurd rfl hc
    · rintro ⟨item, h', _⟩
      have := h'.slot_pos
      omega
  | succ i =>
    exact getElem?_flatMap_slots hc

theorem text_ofItems {p : Pool} {index : UInt16} {text : String} :
    (ofItems p.items).text index = .ok text ↔ p.IsText index text := by
  have htext : (ofItems p.items).text index = .ok text ↔
      (ofItems p.items).get index = .ok (.utf8 text) := by
    unfold ConstantPool.text
    cases (ofItems p.items).get index with
    | error e => exact ⟨nofun, nofun⟩
    | ok c =>
      cases c with
      | utf8 s => exact ⟨fun h => by cases h; rfl, fun h => by cases h; rfl⟩
      | _ => exact ⟨nofun, nofun⟩
  have hc : Constant.utf8 text ≠ .unusable := nofun
  rw [htext, get_ofItems hc]
  constructor
  · rintro ⟨item, h, hitem⟩
    cases item with
    | utf8 s fits =>
      cases hitem
      exact ⟨fits, h⟩
    | _ => cases hitem
  · rintro ⟨fits, h⟩
    exact ⟨_, h, rfl⟩

/-- A name is found by way of a slot in which a constant with a name begins. -/
theorem nameVia_ofItems {p : Pool} {nameOf : Constant → Option UInt16}
    (hunusable : nameOf .unusable = none) {index : UInt16} {name : String} :
    (ofItems p.items).nameVia nameOf index = .ok name ↔ ∃ item nameIndex,
      Pool.Holds p.items index.toNat item ∧ nameOf item.constant = some nameIndex ∧
        p.IsText nameIndex name := by
  have hname : (ofItems p.items).nameVia nameOf index = .ok name ↔
      ∃ c nameIndex, (ofItems p.items).get index = .ok c ∧ nameOf c = some nameIndex ∧
        (ofItems p.items).text nameIndex = .ok name := by
    unfold nameVia
    cases (ofItems p.items).get index with
    | error e =>
      constructor
      · intro h
        cases h
      · rintro ⟨_, _, hget, -⟩
        cases hget
    | ok c =>
      dsimp only [bind, Except.bind]
      cases hc : nameOf c with
      | none =>
        constructor
        · intro h
          cases h
        · rintro ⟨_, _, hget, hnameOf, -⟩
          cases hget
          rw [hc] at hnameOf
          cases hnameOf
      | some nameIndex =>
        constructor
        · exact fun h => ⟨c, nameIndex, rfl, hc, h⟩
        · rintro ⟨_, _, hget, hnameOf, h⟩
          cases hget
          rw [hc] at hnameOf
          cases hnameOf
          exact h
  have husable {c : Constant} {nameIndex : UInt16} (h : nameOf c = some nameIndex) :
      c ≠ .unusable := by
    rintro rfl
    rw [hunusable] at h
    cases h
  rw [hname]
  constructor
  · rintro ⟨c, nameIndex, hget, hc, htext⟩
    obtain ⟨item, h, rfl⟩ := (get_ofItems (husable hc)).1 hget
    exact ⟨item, nameIndex, h, hc, text_ofItems.1 htext⟩
  · rintro ⟨item, nameIndex, h, hc, htext⟩
    exact ⟨item.constant, nameIndex, (get_ofItems (husable hc)).2 ⟨item, h, rfl⟩, hc,
      text_ofItems.2 htext⟩

theorem className_ofItems {p : Pool} {index : UInt16} {name : String} :
    (ofItems p.items).className index = .ok name ↔ p.IsClass index name := by
  rw [className, nameVia_ofItems rfl]
  constructor
  · rintro ⟨item, nameIndex, h, hname, htext⟩
    cases item with
    | «class» n => exact ⟨nameIndex, Option.some.inj hname ▸ h, htext⟩
    | _ => cases hname
  · rintro ⟨nameIndex, h, htext⟩
    exact ⟨_, nameIndex, h, rfl, htext⟩

end ConstantPool

end PlatformImage.ClassFile
