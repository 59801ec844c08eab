import PlatformImage.Text.Segments
import PlatformImage.Access.Wildcard
/-! Patterns of type paths, such as `java/lang/*` and `sun/**`.

A pattern is matched segment by segment: `**` stands for any number of
segments. Inside a segment `*` stands for any run of bytes and `?` for one byte
of the UTF-8 form. A pattern that ends in `/` ends in `/**`. -/
namespace PlatformImage.Access

/-- The byte of `*`. -/
def starByte : UInt8 := 42

/-- The byte of `?`. -/
def anyByte : UInt8 := 63

/-- The symbols of a pattern of one segment. A byte that matches itself is not
    read as a wildcard. -/
def byteSymbols : Symbols UInt8 UInt8 where
  isStar a := a == starByte
  move a b :=
    if a = anyByte ∨ a = b then .take
    else if a = starByte then .star
    else .refuse
  isStar_of_move a b h := by
    split at h
    · cases h
    · split at h
      · simp [*]
      · cases h

/-- Whether one segment of a pattern matches one segment of a path. -/
def segmentMatches (pattern segment : String) : Bool :=
  byteSymbols.matches pattern.toUTF8.data segment.toUTF8.data

/-- The segment that spans any number of segments. -/
def anySegments : String := "**"

/-- The symbols of a whole pattern: its segments. -/
def segmentSymbols : Symbols String String where
  isStar a := a == anySegments
  move a b :=
    if a = anySegments then .star
    else if segmentMatches a b then .take
    else .refuse
  isStar_of_move a b h := by
    split at h
    · simp [*]
    · split at h <;> cases h

/-- The segments of a pattern, with `**` for the empty one after a `/` at the
    end. -/
def patternSegments (pattern : String) : List String :=
  let parts := Text.segments pattern
  if pattern.toList.getLast? = some '/' then parts.dropLast ++ [anySegments] else parts

/-- Whether a pattern matches a type path. -/
def pathMatches (pattern path : String) : Bool :=
  segmentSymbols.matches (patternSegments pattern).toArray (Text.segments path).toArray

end PlatformImage.Access
