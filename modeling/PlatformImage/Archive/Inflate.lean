import PlatformImage.Text.Utf8
/-! Reading deflate data: blocks of literal bytes and of copies of what came
before, in canonical prefix codes.

The input is a list of bits, the low bit of each byte first. Reading ends with
the last block, and what follows does not matter. It fails where the bits end
before, or where they are corrupt, whichever comes first. -/
namespace PlatformImage.Archive.Inflate

def bitsOfByte (b : UInt8) : List Bool := (List.range 8).map fun i => b.toNat.testBit i

def bitsOf (bs : Bytes) : List Bool := bs.flatMap bitsOfByte

/-- Why reading stops before the last block ends. -/
inductive Stop where
  | short
  | corrupt
  deriving DecidableEq, Repr

/-- Reads a value off the front of the bits, or stops. -/
abbrev BitReader (α : Type) := StateT (List Bool) (Except Stop) α

def bit : BitReader Bool
  | b :: rest => .ok (b, rest)
  | [] => .error .short

/-- A number of `n` bits, the low one first. -/
def number : Nat → BitReader Nat
  | 0 => pure 0
  | n + 1 => do
    let b ← bit
    let high ← number n
    return b.toNat + 2 * high

/-! ## Codes -/

/-- A canonical code: how many symbols have a code word of each length from 1
    on, and the symbols by length, then in their own order. -/
structure Code where
  counts : List Nat
  symbols : Array Nat

/-- The most bits in a code word. -/
def maxLength : Nat := 15

/-- The code in which symbol `i` has a code word of length `lengths[i]`, or none
    if that is 0. -/
def Code.ofLengths (lengths : List Nat) : Code :=
  let numbered := lengths.zipIdx
  let ofLength := fun n => (numbered.filter fun p => p.1 = n).map (·.2)
  let groups := (List.range maxLength).map fun i => ofLength (i + 1)
  ⟨groups.map List.length, groups.flatten.toArray⟩

/-- The code words that are still free after those of each length, counted in
    words of that length; negative if there are too many. -/
def Code.free (c : Code) : Int := c.counts.foldl (fun (free : Int) (n : Nat) => 2 * free - n) 1

/-- Each sequence of bits has one reading. -/
def Code.isComplete (c : Code) : Bool := c.free == 0

/-- Whether a code may be used in a block: it is complete, or without symbols, or
    has a single symbol, whose code word is one bit. -/
def Code.isUsable (c : Code) : Bool :=
  c.isComplete || c.symbols.isEmpty || (c.symbols.size == 1 && c.counts.head? == some 1)

/-- Reads a code word bit by bit. Among words of each length, those of the code
    come first: `word` counts from the first one, and `index` is the place of
    that one's symbol. Bits that no longer word can begin with are corrupt. -/
def readWord (symbols : Array Nat) : (counts : List Nat) → (word index : Nat) → BitReader Nat
  | [], _, _ => throw .corrupt
  | n :: counts, word, index => do
    let b ← bit
    let word := 2 * word + b.toNat
    if word < n then
      match symbols[index + word]? with
      | some s => return s
      | none => throw .corrupt
    else if counts.all (· == 0) then throw .corrupt
    else readWord symbols counts (word - n) (index + n)

def Code.read (c : Code) : BitReader Nat := readWord c.symbols c.counts 0 0

/-! ## Tables -/

/-- A base value and how many more bits are added to it. -/
structure Range where
  base : Nat
  extra : Nat

/-- The lengths of copies, from symbol 257 on. -/
def lengthRanges : Array Range :=
  #[⟨3, 0⟩, ⟨4, 0⟩, ⟨5, 0⟩, ⟨6, 0⟩, ⟨7, 0⟩, ⟨8, 0⟩, ⟨9, 0⟩, ⟨10, 0⟩, ⟨11, 1⟩, ⟨13, 1⟩, ⟨15, 1⟩,
    ⟨17, 1⟩, ⟨19, 2⟩, ⟨23, 2⟩, ⟨27, 2⟩, ⟨31, 2⟩, ⟨35, 3⟩, ⟨43, 3⟩, ⟨51, 3⟩, ⟨59, 3⟩, ⟨67, 4⟩,
    ⟨83, 4⟩, ⟨99, 4⟩, ⟨115, 4⟩, ⟨131, 5⟩, ⟨163, 5⟩, ⟨195, 5⟩, ⟨227, 5⟩, ⟨258, 0⟩]

/-- The distances of copies. -/
def distanceRanges : Array Range :=
  #[⟨1, 0⟩, ⟨2, 0⟩, ⟨3, 0⟩, ⟨4, 0⟩, ⟨5, 1⟩, ⟨7, 1⟩, ⟨9, 2⟩, ⟨13, 2⟩, ⟨17, 3⟩, ⟨25, 3⟩, ⟨33, 4⟩,
    ⟨49, 4⟩, ⟨65, 5⟩, ⟨97, 5⟩, ⟨129, 6⟩, ⟨193, 6⟩, ⟨257, 7⟩, ⟨385, 7⟩, ⟨513, 8⟩, ⟨769, 8⟩,
    ⟨1025, 9⟩, ⟨1537, 9⟩, ⟨2049, 10⟩, ⟨3073, 10⟩, ⟨4097, 11⟩, ⟨6145, 11⟩, ⟨8193, 12⟩,
    ⟨12289, 12⟩, ⟨16385, 13⟩, ⟨24577, 13⟩]

/-- The order in which the lengths of the code for code lengths are written. -/
def lengthOrder : List Nat := [16, 17, 18, 0, 8, 7, 9, 6, 10, 5, 11, 4, 12, 3, 13, 2, 14, 1, 15]

/-- A value from a table of ranges. -/
def ranged (ranges : Array Range) (symbol : Nat) : BitReader Nat :=
  match ranges[symbol]? with
  | some r => do return r.base + (← number r.extra)
  | none => throw .corrupt

/-- The codes of a block: one for literals and lengths, one for distances. -/
structure Codes where
  literals : Code
  distances : Code

def fixedCodes : Codes :=
  ⟨.ofLengths (List.replicate 144 8 ++ List.replicate 112 9 ++ List.replicate 24 7 ++
      List.replicate 8 8),
    .ofLengths (List.replicate 32 5)⟩

/-- Reads `missing` code lengths, most recent first; a symbol above 15 repeats
    the last length, or a zero, several times. -/
def readLengths (c : Code) (missing : Nat) (done : List Nat) : BitReader (List Nat) :=
  match missing with
  | 0 => pure done.reverse
  | missing + 1 => do
    let symbol ← c.read
    if symbol < 16 then readLengths c missing (symbol :: done)
    else
      let previous? := if symbol = 16 then done.head? else some 0
      match previous? with
      | none => throw .corrupt
      | some previous => do
        let more ← if symbol = 16 then number 2 else if symbol = 17 then number 3 else number 7
        let count := more + (if symbol = 18 then 11 else 3)
        if count ≤ missing + 1 then
          readLengths c (missing - (count - 1)) (List.replicate count previous ++ done)
        else throw .corrupt
termination_by missing

/-- The codes that a block brings with it. -/
def readCodes : BitReader Codes := do
  let literals := 257 + (← number 5)
  let distances := 1 + (← number 5)
  let lengths := 4 + (← number 4)
  if literals > 286 ∨ distances > 30 then throw .corrupt
  let given ← (lengthOrder.take lengths).mapM fun symbol => do return (symbol, ← number 3)
  let c := Code.ofLengths ((List.range 19).map fun symbol => (given.lookup symbol).getD 0)
  if !c.isComplete then throw .corrupt
  let all ← readLengths c (literals + distances) []
  let codes : Codes := ⟨.ofLengths (all.take literals), .ofLengths (all.drop literals)⟩
  if !codes.literals.isUsable || !codes.distances.isUsable then throw .corrupt
  return codes

/-! ## Blocks -/

/-- Where reading stands: the bits ahead and the bytes put out. -/
structure Progress where
  bits : List Bool
  out : Array UInt8

/-- Puts out again what came `distance` bytes before; before the beginning lie
    zeros. -/
def copy (distance : Nat) : Nat → Array UInt8 → Array UInt8
  | 0, out => out
  | n + 1, out =>
    let b := if distance ≤ out.size then out.getD (out.size - distance) 0 else 0
    copy distance n (out.push b)

/-- One step in a coded block: a literal byte, a copy as length and distance, or
    the end of the block. -/
inductive Token where
  | literal (b : UInt8)
  | copy (length distance : Nat)
  | blockEnd

def readToken (c : Codes) : BitReader Token := do
  let symbol ← c.literals.read
  if symbol < 256 then return .literal (UInt8.ofNat symbol)
  else if symbol = 256 then return .blockEnd
  else do
    let length ← ranged lengthRanges (symbol - 257)
    let distance ← ranged distanceRanges (← c.distances.read)
    return .copy length distance

/-- The tokens of a block; at most `n`. -/
def readTokens (c : Codes) : (n : Nat) → Progress → Except Stop Progress
  | 0, _ => .error .short
  | n + 1, p =>
    match (readToken c).run p.bits with
    | .error why => .error why
    | .ok (.literal b, bits) => readTokens c n ⟨bits, p.out.push b⟩
    | .ok (.copy length distance, bits) => readTokens c n ⟨bits, copy distance length p.out⟩
    | .ok (.blockEnd, bits) => .ok ⟨bits, p.out⟩

/-- `n` bytes as they are. -/
def readStored : (n : Nat) → Progress → Except Stop Progress
  | 0, p => .ok p
  | n + 1, p =>
    match (number 8).run p.bits with
    | .error why => .error why
    | .ok (b, bits) => readStored n ⟨bits, p.out.push (UInt8.ofNat b)⟩

/-- The length of a stored block, which is written twice, once inverted. It
    begins with a whole byte. -/
def storedLength : BitReader Nat := do
  let bits ← get
  set (bits.drop (bits.length % 8))
  let length ← number 16
  let inverted ← number 16
  if length + inverted = 0xFFFF then return length else throw .corrupt

/-- The kinds of blocks. -/
inductive Block where
  | stored (length : Nat)
  | coded (codes : Codes)

/-- The head of a block, and whether it is the last one. -/
def readHead : BitReader (Bool × Block) := do
  let last ← bit
  match ← number 2 with
  | 0 => do return (last, .stored (← storedLength))
  | 1 => return (last, .coded fixedCodes)
  | 2 => do return (last, .coded (← readCodes))
  | _ => throw .corrupt

/-- The content of a block. -/
def readBlock (block : Block) (p : Progress) : Except Stop Progress :=
  match block with
  | .stored length => readStored length p
  | .coded codes => readTokens codes p.bits.length p

/-- Blocks up to the last one; at most `n`. -/
def readBlocks : (n : Nat) → Progress → Except Stop Progress
  | 0, _ => .error .short
  | n + 1, p => do
    let ((last, block), bits) ← readHead.run p.bits
    let p ← readBlock block ⟨bits, p.out⟩
    if last then return p else readBlocks n p

/-- The bytes that deflate data stand for. -/
def inflate (bs : Bytes) : Except Stop Bytes :=
  let bits := bitsOf bs
  (readBlocks bits.length ⟨bits, #[]⟩).map fun p => p.out.toList

end PlatformImage.Archive.Inflate
