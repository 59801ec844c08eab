import PlatformImage.Text.Utf8
/-! Why bytes are not a class file, or not the descriptor of a module. -/
namespace PlatformImage.ClassFile

inductive ParseError where
  | unexpectedEnd
  | badMagic (found : UInt32)
  | unknownConstant (tag : UInt8)
  | badIndex (index : UInt16)
  | notUtf8 (fault : Text.Utf8.Fault)
  | notAModule
  | noModuleAttribute
  deriving DecidableEq, Repr

/-- A number in hexadecimal, in at least `width` digits. -/
def hexText (width n : Nat) : String :=
  let digits := Nat.toDigits 16 n
  String.ofList (List.replicate (width - digits.length) '0' ++ digits)

def ParseError.message : ParseError → String
  | .unexpectedEnd => "unexpected end of class file"
  | .badMagic found => "invalid class file magic header 0x" ++ hexText 8 found.toNat
  | .unknownConstant tag => "unsupported constant pool tag " ++ toString tag.toNat
  | .badIndex index => "invalid constant pool index " ++ toString index.toNat
  | .notUtf8 fault => "invalid UTF-8 string in constant pool: " ++ fault.message
  | .notAModule => "class file is not a module descriptor"
  | .noModuleAttribute => "module-info missing Module attribute"

end PlatformImage.ClassFile
