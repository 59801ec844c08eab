import PlatformImage.Text.Utf8
/-! The CRC-32 checksum: the remainder of the bytes, taken as a polynomial with
the low bit of each byte first, after division by a fixed polynomial. The
register starts at all ones and is inverted at the end. -/
namespace PlatformImage.Archive.Crc32

/-- The fixed polynomial, low bit first. -/
def polynomial : UInt32 := 0xEDB88320

/-- One bit through the register. -/
def shift (r : UInt32) : UInt32 := if r &&& 1 = 1 then (r >>> 1) ^^^ polynomial else r >>> 1

/-- One byte through the register. -/
def feed (r : UInt32) (b : UInt8) : UInt32 :=
  (List.range 8).foldl (fun r _ => shift r) (r ^^^ b.toUInt32)

def checksum (bs : Bytes) : UInt32 := ~~~(bs.foldl feed 0xFFFFFFFF)

end PlatformImage.Archive.Crc32
