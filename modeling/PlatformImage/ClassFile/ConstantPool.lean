import PlatformImage.ClassFile.Reader
/-! The constant pool: the numbered slots through which the rest of a class
file names things.

Slots are numbered from 1. A long or double constant takes two slots and only
the first is its own. Names are looked up in two steps, from a constant of the
wanted kind to the text that it refers to. -/
namespace PlatformImage.ClassFile

/-- A constant as far as names need it. -/
inductive Constant where
  | utf8 (text : String)
  | class (name : UInt16)
  | module (name : UInt16)
  | package (name : UInt16)
  /-- A constant that names nothing. -/
  | other
  /-- Slot 0, or the second slot of a long or double. -/
  | unusable
  deriving DecidableEq, Repr

/-- A constant pool: its slots, from slot 0. -/
structure ConstantPool where
  slots : Array Constant
  deriving DecidableEq, Repr

namespace ConstantPool

/-- The pool with slot 0 only. -/
def start : ConstantPool := ⟨#[.unusable]⟩

/-- The text of a constant of `length` bytes. -/
def readText (length : Nat) : Reader String := do
  let bs ← Reader.bytes length
  match Text.Utf8.decode bs with
  | .ok s => return s
  | .error fault => throw (.notUtf8 fault)

/-- The slots of one constant, from its tag on. -/
def readConstant : Reader (List Constant) := do
  let tag ← Reader.u8
  match tag with
  | 1 => do
    let length ← Reader.u16
    let text ← readText length.toNat
    return [.utf8 text]
  | 3 | 4 | 9 | 10 | 11 | 12 | 17 | 18 => do
    Reader.skip 4
    return [.other]
  | 5 | 6 => do
    Reader.skip 8
    return [.other, .unusable]
  | 7 => return [.class (← Reader.u16)]
  | 8 | 16 => do
    Reader.skip 2
    return [.other]
  | 15 => do
    Reader.skip 3
    return [.other]
  | 19 => return [.module (← Reader.u16)]
  | 20 => return [.package (← Reader.u16)]
  | tag => throw (.unknownConstant tag)

/-- Reads constants until `missing` slots are filled; a last constant of two
    slots may fill one more. -/
def readSlots (missing : Nat) (pool : ConstantPool) : Reader ConstantPool :=
  match missing with
  | 0 => pure pool
  | missing + 1 => do
    let slots ← readConstant
    readSlots (missing - (slots.length - 1)) ⟨pool.slots ++ slots.toArray⟩
termination_by missing

/-- Reads the count of slots and the constants. -/
def read : Reader ConstantPool := do
  let count ← Reader.u16
  readSlots (count.toNat - 1) start

/-! ## Names -/

/-- The constant of a slot. -/
def get (pool : ConstantPool) (index : UInt16) : Except ParseError Constant :=
  match pool.slots[index.toNat]? with
  | some c => .ok c
  | none => .error (.badIndex index)

/-- The text of a text constant. -/
def text (pool : ConstantPool) (index : UInt16) : Except ParseError String := do
  match ← pool.get index with
  | .utf8 s => return s
  | _ => throw (.badIndex index)

/-- The text of a text constant, or nothing for slot 0. -/
def text? (pool : ConstantPool) (index : UInt16) : Except ParseError (Option String) :=
  if index = 0 then .ok none else some <$> pool.text index

/-- The text that a constant refers to, if `nameOf` gives it a name. -/
def nameVia (pool : ConstantPool) (nameOf : Constant → Option UInt16) (index : UInt16) :
    Except ParseError String := do
  match nameOf (← pool.get index) with
  | some name => pool.text name
  | none => throw (.badIndex index)

def className (pool : ConstantPool) : UInt16 → Except ParseError String :=
  pool.nameVia fun
    | .class name => some name
    | _ => none

def moduleName (pool : ConstantPool) : UInt16 → Except ParseError String :=
  pool.nameVia fun
    | .module name => some name
    | _ => none

/-- The name of a package, which a class constant may hold too. -/
def packageName (pool : ConstantPool) : UInt16 → Except ParseError String :=
  pool.nameVia fun
    | .package name => some name
    | .class name => some name
    | _ => none

end ConstantPool

end PlatformImage.ClassFile
