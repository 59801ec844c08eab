import PlatformImage.Archive.Crc32
/-! Writing zip archives: the entries one after the other, each stored as it is
behind its own header, then the directory, then the end record. -/
namespace PlatformImage.Archive.ZipWriter

/-- A file to be stored under a name. -/
structure Item where
  name : String
  content : Bytes

/-- A number in `n` bytes, the low one first. -/
def littleEndian : (n value : Nat) → Bytes
  | 0, _ => []
  | n + 1, value => UInt8.ofNat value :: littleEndian n (value / 256)

namespace Item

/-- The flag of a name in UTF-8, which one in ASCII does without. -/
def flags (i : Item) : Nat := if i.name.toList.all (·.toNat < 128) then 0 else 2048

/-- The fields that both headers of an entry have: the version needed, flags,
    method, time, checksum, sizes and the lengths of name and extra fields. -/
def fields (i : Item) : Bytes :=
  littleEndian 2 20 ++ littleEndian 2 i.flags ++ littleEndian 2 0 ++ littleEndian 4 0x00210000 ++
    littleEndian 4 (Crc32.checksum i.content).toNat ++ littleEndian 4 i.content.length ++
    littleEndian 4 i.content.length ++ littleEndian 2 (Text.Utf8.encode i.name).length ++
    littleEndian 2 0

/-- The entry itself: its header, its name and its content. -/
def body (i : Item) : Bytes :=
  littleEndian 4 0x04034b50 ++ i.fields ++ Text.Utf8.encode i.name ++ i.content

/-- The directory's header of an entry that begins at `start`. -/
def central (i : Item) (start : Nat) : Bytes :=
  littleEndian 4 0x02014b50 ++ littleEndian 2 20 ++ i.fields ++ littleEndian 8 0 ++
    littleEndian 2 0 ++ littleEndian 4 start ++ Text.Utf8.encode i.name

end Item

/-- The entries and the headers of the directory, from a place on. -/
def bodies : (start : Nat) → List Item → Bytes × Bytes
  | _, [] => ([], [])
  | start, i :: rest =>
    let here := i.body
    let (locals, centrals) := bodies (start + here.length) rest
    (here ++ locals, i.central start ++ centrals)

/-- The archive of the items, in order. -/
def write (items : List Item) : Bytes :=
  let (locals, centrals) := bodies 0 items
  locals ++ centrals ++ littleEndian 4 0x06054b50 ++ littleEndian 4 0 ++
    littleEndian 2 items.length ++ littleEndian 2 items.length ++
    littleEndian 4 centrals.length ++ littleEndian 4 locals.length ++ littleEndian 2 0

end PlatformImage.Archive.ZipWriter
