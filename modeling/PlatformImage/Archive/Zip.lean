import PlatformImage.Archive.Crc32
import PlatformImage.Archive.Inflate
import PlatformImage.FileSystem.Basic
import PlatformImage.Text.CodePage437
/-! Reading zip archives.

The directory of an archive is read when the archive is opened and kept. What it
says of an entry leads to the entry's own header and data, which are read from
the open file each time they are asked for.

The end record is looked for from the end of the data. The place where it is
found, against the size and offset of the directory that it states, tells how
much stands before the archive; all positions are shifted by as much. The
directory at the end decides about names, sizes and methods. -/
namespace PlatformImage.Archive

/-- Why an archive, or an entry of it, cannot be read. -/
inductive ZipError where
  /-- The data end too early. -/
  | unexpectedEnd
  /-- The data are no archive. -/
  | invalid
  /-- The archive or the entry uses what is not supported. -/
  | unsupported
  deriving DecidableEq, Repr

/-- Why the content of an entry cannot be had. -/
inductive ContentError where
  | corruptDeflate
  /-- The deflate data end before their last block does. -/
  | shortDeflate
  | wrongChecksum
  deriving DecidableEq, Repr

/-- How an entry is compressed. -/
inductive Method where
  | stored
  | deflated
  | other
  deriving DecidableEq, Repr

/-- An entry as the directory lists it. -/
structure Entry where
  name : String
  /-- Whether its flags say that it is encrypted. -/
  encrypted : Bool
  /-- Whether its extra fields name a cipher. -/
  hasCipher : Bool
  method : Method
  checksum : UInt32
  compressedSize : Nat
  /-- The size that its content is said to have. -/
  size : Nat
  headerStart : Nat
  deriving DecidableEq, Repr

/-- An archive: the open file it is in, and its entries in the order of the
    directory that the file had when it was opened. -/
structure Zip where
  file : OpenFile
  entries : List Entry

/-! ## Numbers at places, the low byte first -/

abbrev ZipResult := Except ZipError

/-- The `n` bytes from a place on. -/
def slice (data : Array UInt8) (start n : Nat) : ZipResult Bytes :=
  if start + n ≤ data.size then .ok (data.extract start (start + n)).toList
  else .error .unexpectedEnd

/-- The number that bytes write, the low one first. -/
def littleEndian (bs : Bytes) : Nat := bs.foldr (fun b n => b.toNat + 256 * n) 0

def numberAt (data : Array UInt8) (start n : Nat) : ZipResult Nat :=
  (slice data start n).map littleEndian

/-! ## The end record -/

/-- What the end record says. -/
structure EndRecord where
  /-- Where the record is. -/
  start : Nat
  disk : Nat
  directoryDisk : Nat
  entriesHere : Nat
  entries : Nat
  directorySize : Nat
  directoryOffset : Nat
  commentLength : Nat

namespace EndRecord

def signature : Nat := 0x06054b50

/-- The bytes of the record without the comment. -/
def size : Nat := 22

/-- Some field is at its limit, so that a larger record has the value. -/
def isTooSmall (e : EndRecord) : Bool :=
  e.disk == 0xFFFF || e.directoryDisk == 0xFFFF || e.entriesHere == 0xFFFF ||
    e.entries == 0xFFFF || e.directorySize == 0xFFFFFFFF || e.directoryOffset == 0xFFFFFFFF

def read (data : Array UInt8) (start : Nat) : ZipResult EndRecord := do
  let disk ← numberAt data (start + 4) 2
  let directoryDisk ← numberAt data (start + 6) 2
  let entriesHere ← numberAt data (start + 8) 2
  let entries ← numberAt data (start + 10) 2
  let directorySize ← numberAt data (start + 12) 4
  let directoryOffset ← numberAt data (start + 16) 4
  let commentLength ← numberAt data (start + 20) 2
  let _ ← slice data (start + size) commentLength
  return ⟨start, disk, directoryDisk, entriesHere, entries, directorySize, directoryOffset,
    commentLength⟩

/-- The last place up to `start`, at most `tries` places back, that holds the
    signature. -/
def findBack (data : Array UInt8) : (tries start : Nat) → Option Nat
  | 0, _ => none
  | tries + 1, start =>
    match numberAt data start 4 with
    | .ok n =>
      if n = signature then some start
      else if start = 0 then none
      else findBack data tries (start - 1)
    | .error _ => none

/-- The end record of an archive; at most a comment of full length follows. -/
def find (data : Array UInt8) : ZipResult EndRecord :=
  if data.size < size then .error .invalid
  else
    match findBack data (0xFFFF + 1) (data.size - size) with
    | some start => read data start
    | none => .error .invalid

end EndRecord

/-! ## The directory -/

/-- Where the directory is. -/
structure DirectoryPlace where
  /-- What all positions in the archive are shifted by. -/
  shift : Nat
  start : Nat
  entries : Nat

namespace DirectoryPlace

/-- The first place from `start` on, among so many, that holds a number. -/
def findForward (data : Array UInt8) (wanted : Nat) : (tries start : Nat) → Option Nat
  | 0, _ => none
  | tries + 1, start =>
    match numberAt data start 4 with
    | .ok n => if n = wanted then some start else findForward data wanted tries (start + 1)
    | .error _ => none

/-- From the end record alone: the directory ends where the record begins. -/
def ofEndRecord (e : EndRecord) : ZipResult DirectoryPlace :=
  if e.directorySize + e.directoryOffset ≤ e.start then
    let shift := e.start - e.directorySize - e.directoryOffset
    .ok ⟨shift, e.directoryOffset + shift, e.entriesHere⟩
  else .error .invalid

/-- From the larger end record, which is looked for from its stated place on. -/
def ofLargeRecord (data : Array UInt8) (e : EndRecord) (locator : Nat) :
    ZipResult DirectoryPlace := do
  let directoryDisk ← numberAt data (locator + 4) 4
  let stated ← numberAt data (locator + 8) 8
  let _ ← numberAt data (locator + 16) 4
  if !e.isTooSmall && e.disk != directoryDisk then throw .unsupported
  if e.start < 60 then throw .invalid
  match findForward data 0x06064b50 (e.start - 60 + 1 - stated) stated with
  | none => throw .invalid
  | some start => do
    let disk ← numberAt data (start + 16) 4
    let directoryDisk ← numberAt data (start + 20) 4
    let entries ← numberAt data (start + 32) 8
    let offset ← numberAt data (start + 48) 8
    if disk != directoryDisk then throw .unsupported
    let shift := start - stated
    if offset + shift ≥ 0x8000000000000000 then throw .invalid
    return ⟨shift, offset + shift, entries⟩

/-- Where the directory is, by the larger end record if one is pointed to. -/
def find (data : Array UInt8) (e : EndRecord) : ZipResult DirectoryPlace :=
  let back := 20 + EndRecord.size + e.commentLength
  if data.size < back then ofEndRecord e
  else
    match numberAt data (data.size - back) 4 with
    | .error why => .error why
    | .ok n =>
      if n = 0x07064b50 then ofLargeRecord data e (data.size - back) else ofEndRecord e

end DirectoryPlace

/-! ## Entries -/

namespace Entry

/-- What the extra fields of an entry change. -/
structure Draft where
  method : Nat
  uncompressedSize : Nat
  compressedSize : Nat
  headerStart : Nat
  hasCipher : Bool

/-- The value of a field of four bytes that is at its limit. -/
def fieldLimit : Nat := 0xFFFFFFFF

/-- A value of eight bytes in place of one at its limit: the value, and where
    the next one is. -/
def widened (extra : Array UInt8) (place value : Nat) : ZipResult (Nat × Nat) :=
  if value = fieldLimit then do return (← numberAt extra place 8, place + 8)
  else return (value, place)

/-- The extra fields from a place on. Fields that end too early are left out. -/
def readExtra (extra : Array UInt8) : (fields place : Nat) → Draft → ZipResult Draft
  | 0, _, d => .ok d
  | fields + 1, place, d =>
    if place ≥ extra.size then .ok d
    else
      match numberAt extra place 2, numberAt extra (place + 2) 2 with
      | .ok kind, .ok length =>
        let body := place + 4
        if kind = 0x0001 then
          match widened extra body d.uncompressedSize with
          | .error _ => .ok d
          | .ok (uncompressed, p) =>
            let d := { d with uncompressedSize := uncompressed }
            match widened extra p d.compressedSize with
            | .error _ => .ok d
            | .ok (compressed, p) =>
              let d := { d with compressedSize := compressed }
              match widened extra p d.headerStart with
              | .error _ => .ok d
              | .ok (start, p) =>
                readExtra extra fields (max p (body + length)) { d with headerStart := start }
        else if kind = 0x9901 then
          if length ≠ 7 then .error .unsupported
          else
            match numberAt extra body 2, numberAt extra (body + 2) 2, numberAt extra (body + 4) 1,
              numberAt extra (body + 5) 2 with
            | .ok version, .ok vendor, .ok strength, .ok method =>
              if vendor ≠ 0x4541 ∨ version = 0 ∨ 2 < version ∨ strength = 0 ∨ 3 < strength then
                .error .invalid
              else
                readExtra extra fields (body + 14) { d with method := method, hasCipher := true }
            | _, _, _, _ => .ok d
        else readExtra extra fields (body + length) d
      | _, _ => .ok d

def methodOf (n : Nat) : Method :=
  if n = 0 then .stored else if n = 8 then .deflated else .other

/-- The method number of encrypted entries. -/
def cipherMethod : Nat := 99

/-- An entry of the directory, and where the next one is. -/
def read (data : Array UInt8) (shift start : Nat) : ZipResult (Entry × Nat) := do
  if (← numberAt data start 4) ≠ 0x02014b50 then throw .invalid
  let flags ← numberAt data (start + 8) 2
  let method ← numberAt data (start + 10) 2
  let checksum ← numberAt data (start + 16) 4
  let compressedSize ← numberAt data (start + 20) 4
  let uncompressedSize ← numberAt data (start + 24) 4
  let nameLength ← numberAt data (start + 28) 2
  let extraLength ← numberAt data (start + 30) 2
  let commentLength ← numberAt data (start + 32) 2
  let headerStart ← numberAt data (start + 42) 4
  let rawName ← slice data (start + 46) nameLength
  let extra ← slice data (start + 46 + nameLength) extraLength
  let _ ← slice data (start + 46 + nameLength + extraLength) commentLength
  let d ← readExtra extra.toArray (extra.length + 1) 0
    ⟨method, uncompressedSize, compressedSize, headerStart, false⟩
  if d.method = cipherMethod && !d.hasCipher then throw .invalid
  if d.headerStart + shift ≥ 0x10000000000000000 then throw .invalid
  let name := if flags.testBit 11 then Text.Utf8.decodeAny rawName
    else Text.CodePage437.decode rawName
  let entry : Entry := ⟨name, flags.testBit 0, d.hasCipher, methodOf d.method,
    UInt32.ofNat checksum, d.compressedSize, d.uncompressedSize, d.headerStart + shift⟩
  return (entry, start + 46 + nameLength + extraLength + commentLength)

/-- So many entries from a place on. There are no more than bytes. -/
def readAll (data : Array UInt8) (shift : Nat) : (fuel count start : Nat) → ZipResult (List Entry)
  | _, 0, _ => .ok []
  | 0, _ + 1, _ => .error .unexpectedEnd
  | fuel + 1, count + 1, start => do
    let (e, next) ← read data shift start
    return e :: (← readAll data shift fuel count next)

/-- The entries of the archive that bytes hold. -/
def directory (bs : Bytes) : ZipResult (List Entry) := do
  let data := bs.toArray
  let e ← EndRecord.find data
  if !e.isTooSmall && e.disk != e.directoryDisk then throw .unsupported
  let place ← DirectoryPlace.find data e
  readAll data place.shift data.size place.entries place.start

/-- The compressed data of an entry, from behind its local header to their end
    or that of the archive. -/
def rawContent (data : Array UInt8) (e : Entry) : ZipResult Bytes := do
  if (← numberAt data e.headerStart 4) ≠ 0x04034b50 then throw .invalid
  let nameLength ← numberAt data (e.headerStart + 26) 2
  let extraLength ← numberAt data (e.headerStart + 28) 2
  let start := e.headerStart + 30 + nameLength + extraLength
  return (data.extract start (start + e.compressedSize)).toList

/-- An entry of an archive, ready to be read: its data and its method. -/
structure Source where
  raw : Bytes
  method : Method
  checksum : UInt32

/-- Goes to an entry. -/
def goTo (data : Array UInt8) (e : Entry) : ZipResult Source := do
  if e.encrypted then throw .unsupported
  let raw ← e.rawContent data
  if e.method = .other then throw .unsupported
  return ⟨raw, e.method, e.checksum⟩

/-- The bytes that the data of an entry stand for, without regard to the checksum. -/
def Source.bytes (s : Source) : Except ContentError Bytes :=
  match s.method with
  | .deflated =>
    (Inflate.inflate s.raw).mapError fun
      | .short => .shortDeflate
      | .corrupt => .corruptDeflate
  | _ => .ok s.raw

/-- The bytes that the data of an entry stand for. -/
def Source.content (s : Source) : Except ContentError Bytes := do
  let bs ← s.bytes
  if Crc32.checksum bs = s.checksum then return bs else throw .wrongChecksum

/-- The most bytes that room can be asked for at once. -/
def maxRoom : Nat := 0x7FFFFFFFFFFFFFFF

/-- Whether the program ends at an entry that it has gone to. It does if the
    entry has a cipher that its flags do not tell of. And it does if there is no
    room for the content, which is asked for by the size that the directory
    states, before anything is known of the content. -/
def isFatal (e : Entry) : Bool := e.hasCipher || maxRoom < e.size

end Entry

/-- Why the content of an entry is not had from an open archive. -/
inductive EntryError where
  | header (why : ZipError)
  /-- The program has ended at the entry. -/
  | fatal
  | content (why : ContentError)
  deriving DecidableEq, Repr

namespace Entry

/-- The entry of a name; of several the last one. -/
def named? (entries : List Entry) (name : String) : Option Entry :=
  entries.reverse.find? (·.name == name)

/-- The content of an entry, from the bytes of the archive. -/
def content (bs : Bytes) (e : Entry) : Except EntryError Bytes := do
  let source ← (e.goTo bs.toArray).mapError .header
  if e.isFatal then throw .fatal
  source.content.mapError .content

end Entry

namespace Zip

/-- The archive in an open file. -/
def ofFile (fs : FileSystem) (file : OpenFile) : ZipResult Zip :=
  (Entry.directory (fs.held file)).map (⟨file, ·⟩)

/-- The number of entries, those of one name included. -/
def size (z : Zip) : Nat := z.entries.length

/-- The content of an entry, if there is one of that name, as the open file has
    it now. -/
def read (fs : FileSystem) (z : Zip) (name : String) : Except EntryError (Option Bytes) :=
  match Entry.named? z.entries name with
  | none => .ok none
  | some e => (e.content (fs.held z.file)).map some

end Zip

end PlatformImage.Archive
