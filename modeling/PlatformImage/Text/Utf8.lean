/-! UTF-8: text as bytes, bytes as text, and where bytes cease to be text.

A character begins with a byte that fixes how many follow and which range the
first of those lies in, so the bytes of no character begin those of another.
Bytes that fail are at fault at the first place where no character can be read. -/
namespace PlatformImage

/-- A string of bytes. -/
abbrev Bytes := List UInt8

namespace Text.Utf8

/-- The bytes of a text. -/
def encode (s : String) : Bytes := s.toUTF8.data.toList

/-- What the first byte of a character of several bytes says: its own share of
    the value, how many bytes follow, and the range of the first of them. -/
structure Lead where
  share : Nat
  tails : Nat
  low : UInt8
  high : UInt8

/-- The table of first bytes. The ranges leave out overlong forms, surrogates
    and values above U+10FFFF. -/
def lead? (b : UInt8) : Option Lead :=
  if b < 0xC2 then none
  else if b < 0xE0 then some ⟨b.toNat - 0xC0, 1, 0x80, 0xBF⟩
  else if b = 0xE0 then some ⟨0, 2, 0xA0, 0xBF⟩
  else if b = 0xED then some ⟨0xD, 2, 0x80, 0x9F⟩
  else if b < 0xF0 then some ⟨b.toNat - 0xE0, 2, 0x80, 0xBF⟩
  else if b = 0xF0 then some ⟨0, 3, 0x90, 0xBF⟩
  else if b < 0xF4 then some ⟨b.toNat - 0xF0, 3, 0x80, 0xBF⟩
  else if b = 0xF4 then some ⟨4, 3, 0x80, 0x8F⟩
  else none

/-- Why no character can be read: after so many bytes the next one does not
    fit, or the bytes end too early. -/
inductive Stop where
  | bad (length : Nat)
  | short
  deriving DecidableEq, Repr

/-- Reads `tails` further bytes into `value`; `seen` bytes have been read. -/
def readTails (value seen : Nat) (low high : UInt8) : Nat → Bytes → Except Stop (Nat × Bytes)
  | 0, rest => .ok (value, rest)
  | _ + 1, [] => .error .short
  | tails + 1, b :: rest =>
    if low ≤ b ∧ b ≤ high then
      readTails (value * 64 + b.toNat % 64) (seen + 1) 0x80 0xBF tails rest
    else .error (.bad seen)

/-- Reads one character that begins with the byte `b`. -/
def readChar (b : UInt8) (rest : Bytes) : Except Stop (Char × Bytes) :=
  if b < 0x80 then .ok (Char.ofNat b.toNat, rest)
  else
    match lead? b with
    | none => .error (.bad 1)
    | some l => (readTails l.share 1 l.low l.high l.tails rest).map fun (v, r) => (Char.ofNat v, r)

theorem length_readTails {value seen : Nat} {low high : UInt8} {tails : Nat} {bs r : Bytes}
    {v : Nat} (h : readTails value seen low high tails bs = .ok (v, r)) :
    r.length ≤ bs.length := by
  fun_induction readTails value seen low high tails bs with
  | case1 => cases h; exact Nat.le_refl _
  | case2 => cases h
  | case3 value seen low high tails b rest hb ih => exact Nat.le_succ_of_le (ih h)
  | case4 => cases h

theorem length_readChar {b : UInt8} {rest r : Bytes} {c : Char}
    (h : readChar b rest = .ok (c, r)) : r.length ≤ rest.length := by
  unfold readChar at h
  split at h
  · cases h; exact Nat.le_refl _
  · split at h
    · cases h
    · cases ht : readTails _ _ _ _ _ rest with
      | error e => rw [ht] at h; cases h
      | ok p => rw [ht] at h; cases h; exact length_readTails ht

/-- A place where bytes are not UTF-8: how many bytes before it are, and how
    many belong to the faulty character; no number if the bytes end within it. -/
structure Fault where
  index : Nat
  length : Option Nat
  deriving DecidableEq, Repr

def Fault.message (f : Fault) : String :=
  match f.length with
  | some n => "invalid utf-8 sequence of " ++ toString n ++ " bytes from index " ++ toString f.index
  | none => "incomplete utf-8 byte sequence from index " ++ toString f.index

/-- The first fault, for bytes after the first `index` ones; their end if there
    is none. -/
def faultFrom (index : Nat) (bs : Bytes) : Fault :=
  match bs with
  | [] => ⟨index, none⟩
  | b :: rest =>
    match h : readChar b rest with
    | .ok (_, r) => faultFrom (index + 1 + (rest.length - r.length)) r
    | .error (.bad n) => ⟨index, some n⟩
    | .error .short => ⟨index, none⟩
termination_by bs.length
decreasing_by
  have := length_readChar h
  simp only [List.length_cons]; omega

/-- Reads bytes that must be UTF-8 from end to end. -/
def decode (bs : Bytes) : Except Fault String :=
  match String.fromUTF8? (ByteArray.mk bs.toArray) with
  | some s => .ok s
  | none => .error (faultFrom 0 bs)

/-- The character that stands for bytes that are none. -/
def replacement : Char := Char.ofNat 0xFFFD

/-- Reads any bytes, with one replacement character for each faulty one. -/
def decodeAnyChars (bs : Bytes) : List Char :=
  match bs with
  | [] => []
  | b :: rest =>
    match h : readChar b rest with
    | .ok (c, r) => c :: decodeAnyChars r
    | .error (.bad n) => replacement :: decodeAnyChars (rest.drop (n - 1))
    | .error .short => [replacement]
termination_by bs.length
decreasing_by
  · have := length_readChar h
    simp only [List.length_cons]; omega
  · simp only [List.length_drop, List.length_cons]; omega

/-- Reads any bytes as text. -/
def decodeAny (bs : Bytes) : String := String.ofList (decodeAnyChars bs)

/-- Reading accepts exactly what writing produces. -/
theorem decode_eq_ok_iff {bs : Bytes} {s : String} : decode bs = .ok s ↔ bs = encode s := by
  unfold decode String.fromUTF8?
  constructor
  · intro h
    split at h
    · next t ht =>
      split at ht
      · cases Option.some.inj ht
        cases h
        simp [encode, String.toUTF8, String.fromUTF8]
      · cases ht
    · cases h
  · rintro rfl
    have hb : ByteArray.mk (encode s).toArray = s.toByteArray := by simp [encode, String.toUTF8]
    rw [hb]
    simp [s.isValidUTF8, String.fromUTF8]

@[simp] theorem decode_encode (s : String) : decode (encode s) = .ok s := decode_eq_ok_iff.2 rfl

end Text.Utf8

end PlatformImage
