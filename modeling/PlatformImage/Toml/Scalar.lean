import PlatformImage.Toml.Quoted
import PlatformImage.Toml.Value
/-! Values that hold no others: numbers, dates and times, booleans, strings. -/
namespace PlatformImage.Toml

/-! ## Dates and times -/

/-- A number of exactly `n` digits. -/
def fixedDigits (n : Nat) : Parser Nat := fun cs =>
  let ds := cs.take n
  if ds.length = n ∧ ds.all isDigit then some (ofDigits 10 ds, cs.drop n) else none

/-- A number of two digits within bounds. -/
def twoDigits (low high : Nat) : Parser Nat := fun cs => do
  let (n, r) ← fixedDigits 2 cs
  if low ≤ n ∧ n ≤ high then some (n, r) else none

/-- A given character. -/
def only (c : Char) (cs : List Char) : Option (List Char) :=
  if cs.head? = some c then some cs.tail else none

def isLeapYear (year : Nat) : Bool := year % 4 == 0 && (year % 100 != 0 || year % 400 == 0)

def daysIn (year month : Nat) : Nat :=
  if month = 2 then if isLeapYear year then 29 else 28
  else if month ∈ [4, 6, 9, 11] then 30
  else 31

/-- What follows a date. -/
def date (cs : List Char) : Option (List Char) := do
  let (year, r) ← fixedDigits 4 cs
  let r ← only '-' r
  let (month, r) ← twoDigits 1 12 r
  let r ← only '-' r
  let (_, r) ← twoDigits 1 (daysIn year month) r
  return r

/-- What follows a fraction of a second, if there is one. -/
def secondFraction : List Char → List Char
  | '.' :: c :: r => if isDigit c then r.dropWhile isDigit else '.' :: c :: r
  | cs => cs

/-- What follows a time. -/
def time (cs : List Char) : Option (List Char) := do
  let (_, r) ← twoDigits 0 23 cs
  let r ← only ':' r
  let (_, r) ← twoDigits 0 59 r
  let r ← only ':' r
  let (_, r) ← twoDigits 0 60 r
  return secondFraction r

/-- What follows the offset of a time, if there is one. -/
def offset : List Char → Option (List Char)
  | 'Z' :: r => some r
  | 'z' :: r => some r
  | c :: r =>
    if c = '+' ∨ c = '-' then do
      let (_, r) ← twoDigits 0 23 r
      let r ← only ':' r
      let (_, r) ← twoDigits 0 59 r
      return r
    else some (c :: r)
  | [] => some []

/-- Whether a text begins as a time does, with an hour and a colon. -/
def beginsTime (cs : List Char) : Bool :=
  ((twoDigits 0 23 cs).bind fun (_, r) => only ':' r).isSome

/-- Whether a text begins as a date does, with a year and a hyphen. -/
def beginsDate (cs : List Char) : Bool :=
  ((fixedDigits 4 cs).bind fun (_, r) => only '-' r).isSome

/-- A date, and a time if one follows. -/
def dateAndTime (cs : List Char) : Option (List Char) := do
  let r ← date cs
  match r with
  | c :: t => if c ∈ ['T', 't', ' '] ∧ beginsTime t then (time t).bind offset else some r
  | [] => some []

/-! ## Numbers -/

/-- Digits that may go on, with single underscores between them: their text
    without the underscores. -/
def moreDigits (p : Char → Bool) : Parser (List Char)
  | [] => some ([], [])
  | '_' :: r =>
    match r with
    | c :: r => if p c then (moreDigits p r).map fun (ds, r) => (c :: ds, r) else none
    | [] => none
  | c :: r => if p c then (moreDigits p r).map fun (ds, r) => (c :: ds, r) else some ([], c :: r)

/-- At least one digit, with single underscores between them. -/
def digits (p : Char → Bool) : Parser (List Char)
  | c :: r => if p c then (moreDigits p r).map fun (ds, r) => (c :: ds, r) else none
  | [] => none

/-- The digits of a decimal integer: a lone zero, or no zero in front. -/
def decimalDigits : Parser (List Char)
  | '0' :: r => some (['0'], r)
  | cs => digits isDigit cs

/-- A sign, if there is one: whether it is a minus. -/
def sign : List Char → Bool × List Char
  | '+' :: r => (false, r)
  | '-' :: r => (true, r)
  | cs => (false, cs)

/-- A number as written, in parts. -/
structure Decimal where
  negative : Bool
  whole : List Char
  fraction : List Char
  exponent : Int

/-- The least number that is rounded to infinity: halfway from the greatest
    finite double to the next power of two. -/
def overflowBound : Nat := Nat.pow 2 1024 - Nat.pow 2 970

/-- Whether a number is below the bound. Far from it the count of digits
    decides. -/
def Decimal.isFinite (d : Decimal) : Bool :=
  let m := ofDigits 10 (d.whole ++ d.fraction)
  let e := d.exponent - d.fraction.length
  if m = 0 then true
  else
    let size := (Nat.toDigits 10 m).length + e
    if size > 400 then false
    else if size < 300 then true
    else if e ≥ 0 then m * Nat.pow 10 e.toNat < overflowBound
    else m < overflowBound * Nat.pow 10 (-e).toNat

/-- An exponent, after its letter. -/
def exponent (cs : List Char) : Option (Int × List Char) := do
  let (negative, r) := sign cs
  let (ds, r) ← digits isDigit r
  let n : Int := ofDigits 10 ds
  return (if negative then -n else n, r)

/-- An exponent, if there is one. -/
def exponent? : List Char → Option (Int × List Char)
  | 'e' :: r => exponent r
  | 'E' :: r => exponent r
  | cs => some (0, cs)

/-- The part of a text before what is left of it. -/
def textBefore (cs rest : List Char) : String := String.ofList (cs.take (cs.length - rest.length))

/-- A float, unless it is too large. A negative one may be. -/
def floatValue (cs : List Char) (d : Decimal) (rest : List Char) : Option (Value × List Char) :=
  if d.negative || d.isFinite then some (.float (textBefore cs rest), rest) else none

/-- The number of values that a sign leaves to an integer of 64 bits. -/
def integerBound : Nat := 0x8000000000000000

/-- An integer, if it fits in 64 bits. -/
def integerValue (negative : Bool) (n : Nat) (rest : List Char) : Option (Value × List Char) :=
  if negative then if n ≤ integerBound then some (.integer (-n), rest) else none
  else if n < integerBound then some (.integer n, rest)
  else none

/-- A decimal number: an integer, or a float if a fraction or an exponent
    follows. -/
def decimal (cs : List Char) : Option (Value × List Char) := do
  let (negative, r) := sign cs
  let (whole, r) ← decimalDigits r
  match r with
  | '.' :: r => do
    let (fraction, r) ← digits isDigit r
    let (e, r) ← exponent? r
    floatValue cs ⟨negative, whole, fraction, e⟩ r
  | c :: t =>
    if c = 'e' ∨ c = 'E' then do
      let (e, r) ← exponent t
      floatValue cs ⟨negative, whole, [], e⟩ r
    else integerValue negative (ofDigits 10 whole) r
  | [] => integerValue negative (ofDigits 10 whole) []

/-- An integer in a base, after its mark. -/
def based (base : Nat) (p : Char → Bool) (cs : List Char) : Option (Value × List Char) := do
  let (ds, r) ← digits p cs
  integerValue false (ofDigits base ds) r

/-- A number; infinity and not-a-number may have a sign, marks of a base may not. -/
def number (cs : List Char) : Option (Value × List Char) :=
  match cs with
  | '0' :: 'x' :: r => based 16 isHexDigit r
  | '0' :: 'o' :: r => based 8 (fun c => '0' ≤ c && c ≤ '7') r
  | '0' :: 'b' :: r => based 2 (fun c => c == '0' || c == '1') r
  | _ =>
    match (sign cs).2 with
    | 'i' :: 'n' :: 'f' :: r => some (.float (textBefore cs r), r)
    | 'n' :: 'a' :: 'n' :: r => some (.float (textBefore cs r), r)
    | _ => decimal cs

/-- A value that holds no others. -/
def scalar (cs : List Char) : Option (Value × List Char) :=
  match cs with
  | 't' :: 'r' :: 'u' :: 'e' :: r => some (.boolean true, r)
  | 'f' :: 'a' :: 'l' :: 's' :: 'e' :: r => some (.boolean false, r)
  | c :: _ =>
    if c = '"' ∨ c = '\'' then (string cs).map fun (s, r) => (.string s, r)
    else if beginsDate cs then (dateAndTime cs).map fun r => (.dateTime (textBefore cs r), r)
    else if beginsTime cs then (time cs).map fun r => (.dateTime (textBefore cs r), r)
    else number cs
  | [] => none

end PlatformImage.Toml
