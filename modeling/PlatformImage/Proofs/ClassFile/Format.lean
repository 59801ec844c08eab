import Mathlib.Data.List.Forall2
import PlatformImage.ClassFile.BinaryType
/-! The format of class files: what stands in one, how that is put into bytes, and
which type it describes.

A value of the format holds what a class file holds, its references as numbers of
slots. It is as lenient as readers of it are: the first count says how many slots
are to be filled, where none to fill may be counted as 0 or as 1, and a constant
of two slots may begin in the last one. -/
namespace PlatformImage.ClassFile

/-- A list whose length can be told in two bytes. -/
structure Counted (α : Type) where
  entries : List α
  fits : entries.length < 65536

def Counted.empty {α : Type} : Counted α := ⟨[], Nat.zero_lt_succ 65535⟩

/-- The bytes of a table: its length, then its entries. -/
def Counted.encode {α : Type} (put : α → Bytes) (t : Counted α) : Bytes :=
  putU16 (UInt16.ofNat t.entries.length) ++ t.entries.flatMap put

/-- How many bytes are behind the tag of a constant that names nothing. -/
def bodySize? : UInt8 → Option Nat
  | 3 | 4 | 9 | 10 | 11 | 12 | 17 | 18 => some 4
  | 5 | 6 => some 8
  | 8 | 16 => some 2
  | 15 => some 3
  | _ => none

/-- A constant as it stands in the pool. -/
inductive PoolItem where
  | utf8 (text : String) (fits : (Text.Utf8.encode text).length < 65536)
  | class (name : UInt16)
  | module (name : UInt16)
  | package (name : UInt16)
  | plain (tag : UInt8) (body : Bytes) (size : bodySize? tag = some body.length)

namespace PoolItem

def encode : PoolItem → Bytes
  | utf8 text _ =>
    1 :: (putU16 (UInt16.ofNat (Text.Utf8.encode text).length) ++ Text.Utf8.encode text)
  | «class» name => 7 :: putU16 name
  | module name => 19 :: putU16 name
  | package name => 20 :: putU16 name
  | plain tag body _ => tag :: body

/-- How many slots a constant takes: two for a long or double. -/
def width : PoolItem → Nat
  | plain tag _ _ => if tag = 5 ∨ tag = 6 then 2 else 1
  | _ => 1

theorem width_pos (item : PoolItem) : 0 < item.width := by
  cases item with
  | plain tag body size =>
    rw [width]
    split
    · exact Nat.two_pos
    · exact Nat.one_pos
  | _ => exact Nat.one_pos

end PoolItem

/-- Constants that fill so many slots: each begins in one of them, the last one
    ends in or just past the last of them. -/
def Fills : Nat → List PoolItem → Prop
  | 0, items => items = []
  | _ + 1, [] => False
  | missing + 1, item :: items => Fills (missing + 1 - item.width) items

theorem fills_zero {items : List PoolItem} : Fills 0 items ↔ items = [] := by
  cases items <;> exact Iff.rfl

instance decidableFills : (missing : Nat) → (items : List PoolItem) → Decidable (Fills missing items)
  | 0, _ => decidable_of_iff' _ (fills_zero.trans List.isEmpty_iff.symm)
  | _ + 1, [] => isFalse id
  | missing + 1, item :: items => decidableFills (missing + 1 - item.width) items

/-- A constant pool as it stands in a class file. Slot 0 is counted but not there. -/
structure Pool where
  count : UInt16
  items : List PoolItem
  full : Fills (count.toNat - 1) items

def Pool.encode (p : Pool) : Bytes := putU16 p.count ++ p.items.flatMap PoolItem.encode

structure Attribute where
  name : UInt16
  body : Bytes
  fits : body.length < 4294967296

def Attribute.encode (a : Attribute) : Bytes :=
  putU16 a.name ++ putU32 (UInt32.ofNat a.body.length) ++ a.body

/-- A field or method, by the slots of its name and descriptor. -/
structure MemberValue where
  flags : UInt16
  name : UInt16
  descriptor : UInt16
  attributes : Counted Attribute

def MemberValue.encode (m : MemberValue) : Bytes :=
  putU16 m.flags ++ putU16 m.name ++ putU16 m.descriptor ++ m.attributes.encode Attribute.encode

/-- All that stands in a class file. -/
structure ClassValue where
  minor : UInt16
  major : UInt16
  pool : Pool
  flags : UInt16
  thisClass : UInt16
  superClass : UInt16
  interfaces : Counted UInt16
  fields : Counted MemberValue
  methods : Counted MemberValue
  attributes : Counted Attribute

def ClassValue.encode (v : ClassValue) : Bytes :=
  putU32 magic ++ putU16 v.minor ++ putU16 v.major ++ v.pool.encode ++
  putU16 v.flags ++ putU16 v.thisClass ++ putU16 v.superClass ++ v.interfaces.encode putU16 ++
  v.fields.encode MemberValue.encode ++ v.methods.encode MemberValue.encode ++
  v.attributes.encode Attribute.encode

/-! ## References -/

namespace Pool

/-- How many slots constants fill. -/
def slotCount : List PoolItem → Nat
  | [] => 0
  | item :: items => item.width + slotCount items

/-- A constant begins in a slot if those before it fill the slots from 1 on. -/
def Holds (items : List PoolItem) (slot : Nat) (item : PoolItem) : Prop :=
  ∃ before after, items = before ++ item :: after ∧ slot = 1 + slotCount before

/-- A slot of a text constant. -/
def IsText (p : Pool) (index : UInt16) (text : String) : Prop :=
  ∃ fits, Holds p.items index.toNat (.utf8 text fits)

/-- A slot of a class constant, by the name of the class. -/
def IsClass (p : Pool) (index : UInt16) (name : String) : Prop :=
  ∃ nameIndex, Holds p.items index.toNat (.class nameIndex) ∧ p.IsText nameIndex name

variable {items : List PoolItem} {item x y : PoolItem} {slot : Nat}

theorem not_holds_nil : ¬Holds [] slot x := by
  rintro ⟨before, after, he, _⟩
  cases before <;> cases he

theorem holds_cons : Holds (item :: items) slot x ↔
    (slot = 1 ∧ x = item) ∨ ∃ rest, slot = item.width + rest ∧ Holds items rest x := by
  constructor
  · rintro ⟨before, after, he, rfl⟩
    cases before with
    | nil =>
      obtain ⟨rfl, rfl⟩ := List.cons.inj he
      exact .inl ⟨rfl, rfl⟩
    | cons b before =>
      obtain ⟨rfl, rfl⟩ := List.cons.inj he
      refine .inr ⟨_, ?_, before, after, rfl, rfl⟩
      rw [slotCount]
      omega
  · rintro (⟨rfl, rfl⟩ | ⟨rest, rfl, before, after, rfl, rfl⟩)
    · exact ⟨[], items, rfl, rfl⟩
    · refine ⟨item :: before, after, rfl, ?_⟩
      rw [slotCount]
      omega

theorem Holds.slot_pos (h : Holds items slot x) : 0 < slot := by
  obtain ⟨_, _, _, rfl⟩ := h
  omega

/-- Two constants that begin before one end begin in one slot: they do not overlap. -/
theorem Holds.disjoint {other : Nat} (hx : Holds items slot x) (hy : Holds items other y)
    (hle : slot ≤ other) (hlt : other < slot + x.width) : other = slot ∧ y = x := by
  induction items generalizing slot other with
  | nil => exact absurd hx not_holds_nil
  | cons item items ih =>
    rcases holds_cons.1 hx with ⟨hs, hxi⟩ | ⟨rest, hs, hx'⟩
    · rcases holds_cons.1 hy with ⟨ho, hyi⟩ | ⟨rest', ho, hy'⟩
      · exact ⟨by rw [ho, hs], by rw [hyi, hxi]⟩
      · have := hy'.slot_pos
        rw [hxi] at hlt
        omega
    · have := hx'.slot_pos
      rcases holds_cons.1 hy with ⟨ho, _⟩ | ⟨rest', ho, hy'⟩
      · have := item.width_pos
        omega
      · obtain ⟨he, hyx⟩ := ih hx' hy' (by omega) (by omega)
        exact ⟨by rw [ho, hs, he], hyx⟩

/-- A constant begins in one of the slots that are to be filled. -/
theorem Holds.slot_le {missing : Nat} (h : Holds items slot x) (hfull : Fills missing items) :
    slot ≤ missing := by
  induction items generalizing slot missing with
  | nil => exact absurd h not_holds_nil
  | cons item items ih =>
    cases missing with
    | zero => cases hfull
    | succ missing =>
      rcases holds_cons.1 h with ⟨hs, _⟩ | ⟨rest, hs, h'⟩
      · omega
      · have := ih h' hfull
        have := h'.slot_pos
        omega

end Pool

/-! ## What a class file describes -/

/-- What a field or method is called and which flags it has. -/
structure MemberValue.Describes (p : Pool) (v : MemberValue) (m : Member) : Prop where
  name : p.IsText v.name m.name
  descriptor : p.IsText v.descriptor m.descriptor
  flags : m.flags = v.flags

/-- The type that a class file describes, with its members in their order. Slot 0
    in the place of the superclass means that there is none. -/
structure ClassValue.Describes (v : ClassValue) (t : BinaryType) : Prop where
  name : v.pool.IsClass v.thisClass t.name
  superName : if v.superClass = 0 then t.superName = none
    else ∃ name, t.superName = some name ∧ v.pool.IsClass v.superClass name
  interfaces : List.Forall₂ v.pool.IsClass v.interfaces.entries t.interfaces
  fields : List.Forall₂ (MemberValue.Describes v.pool) v.fields.entries t.fields
  methods : List.Forall₂ (MemberValue.Describes v.pool) v.methods.entries t.methods
  flags : t.flags = v.flags
  major : t.major = v.major
  minor : t.minor = v.minor
  annotations : t.annotations = none

end PlatformImage.ClassFile
