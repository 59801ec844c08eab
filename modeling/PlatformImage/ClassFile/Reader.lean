import PlatformImage.ClassFile.Error
/-! Reading big-endian values off the front of a byte string. Each reader gives
a value and the bytes that it left, and has a writer beside it that it undoes. -/
namespace PlatformImage.ClassFile

/-- Reads a value and leaves the rest of the bytes, or fails. -/
abbrev Reader (α : Type) := StateT Bytes (Except ParseError) α

namespace Reader

/-- The first `n` bytes and the rest, if there are so many. -/
def splitExact : Nat → Bytes → Option (Bytes × Bytes)
  | 0, bs => some ([], bs)
  | _ + 1, [] => none
  | n + 1, b :: bs => (splitExact n bs).map fun (front, rest) => (b :: front, rest)

/-- Exactly `n` bytes. -/
def bytes (n : Nat) : Reader Bytes := fun bs =>
  match splitExact n bs with
  | some r => .ok r
  | none => .error .unexpectedEnd

def skip (n : Nat) : Reader Unit := discard (bytes n)

def u8 : Reader UInt8
  | b :: rest => .ok (b, rest)
  | [] => .error .unexpectedEnd

/-- The number of two bytes, the high one first. -/
def pair (hi lo : UInt8) : UInt16 := UInt16.ofNat (hi.toNat * 256 + lo.toNat)

def u16 : Reader UInt16
  | hi :: lo :: rest => .ok (pair hi lo, rest)
  | _ => .error .unexpectedEnd

def u32 : Reader UInt32
  | a :: b :: c :: d :: rest =>
    .ok (UInt32.ofNat (((a.toNat * 256 + b.toNat) * 256 + c.toNat) * 256 + d.toNat), rest)
  | _ => .error .unexpectedEnd

/-- What `r` reads, `n` times over. -/
def times {α : Type} (n : Nat) (r : Reader α) : Reader (List α) :=
  match n with
  | 0 => pure []
  | n + 1 => do
    let a ← r
    let as ← times n r
    return a :: as

/-- A table: a count of two bytes, then so many entries. -/
def table {α : Type} (r : Reader α) : Reader (List α) := do
  let count ← u16
  times count.toNat r

end Reader

/-! ## Writers -/

def putU16 (n : UInt16) : Bytes := [UInt8.ofNat (n.toNat / 256), UInt8.ofNat n.toNat]

def putU32 (n : UInt32) : Bytes :=
  [UInt8.ofNat (n.toNat / 16777216), UInt8.ofNat (n.toNat / 65536), UInt8.ofNat (n.toNat / 256),
    UInt8.ofNat n.toNat]

namespace Reader

theorem u16_put (n : UInt16) (rest : Bytes) : u16 (putU16 n ++ rest) = .ok (n, rest) := by
  have h : pair (UInt8.ofNat (n.toNat / 256)) (UInt8.ofNat n.toNat) = n := by
    apply UInt16.toNat_inj.1
    have := n.toNat_lt
    simp [pair, UInt8.toNat_ofNat']
    omega
  simp only [u16, putU16, List.cons_append, List.nil_append, h]

theorem u32_put (n : UInt32) (rest : Bytes) : u32 (putU32 n ++ rest) = .ok (n, rest) := by
  simp only [putU32, u32, List.cons_append, List.nil_append]
  congr 2
  apply UInt32.toNat_inj.1
  have := n.toNat_lt
  simp [UInt8.toNat_ofNat']
  omega

theorem splitExact_append (front rest : Bytes) :
    splitExact front.length (front ++ rest) = some (front, rest) := by
  induction front with
  | nil => rfl
  | cons b front ih => simp [splitExact, ih]

theorem eq_append_of_splitExact {n : Nat} {bs front rest : Bytes}
    (h : splitExact n bs = some (front, rest)) : bs = front ++ rest ∧ front.length = n := by
  induction n generalizing bs front rest with
  | zero => cases Option.some.inj h; simp
  | succ n ih =>
    cases bs with
    | nil => cases h
    | cons b bs =>
      obtain ⟨⟨f, r⟩, hs, he⟩ := Option.map_eq_some_iff.1 h
      cases he
      obtain ⟨rfl, rfl⟩ := ih hs
      simp

end Reader

end PlatformImage.ClassFile
