import PlatformImage.Text.Segments
import PlatformImage.ClassFile.ConstantPool
/-! A type as its class file describes it: its own name and hierarchy and the
table of its members. Attributes are stepped over unread. -/
namespace PlatformImage.ClassFile

/-- A field or method, with its descriptor in raw form. -/
structure Member where
  name : String
  descriptor : String
  flags : UInt16
  deriving DecidableEq, Repr

/-- Annotations for a type that come from outside of its class file. -/
structure ExternalAnnotations where
  source : String
  typeName : String
  content : Bytes
  deriving DecidableEq, Repr

/-- A type read from its class file. Names are in internal form, with `/`. -/
structure BinaryType where
  name : String
  superName : Option String
  interfaces : List String
  flags : UInt16
  major : UInt16
  minor : UInt16
  fields : List Member
  methods : List Member
  annotations : Option ExternalAnnotations
  deriving DecidableEq, Repr

namespace BinaryType

/-- The flag of an interface. -/
def interfaceFlag : UInt16 := 0x0200

/-- The dotted name. -/
def qualifiedName (t : BinaryType) : String := Text.dotted t.name

/-- The internal name of the package, empty for the default one. -/
def package (t : BinaryType) : String := Text.parentPath t.name

def simpleName (t : BinaryType) : String := Text.lastSegment t.name

def isInterface (t : BinaryType) : Bool := t.flags &&& interfaceFlag != 0

end BinaryType

/-- The number that every class file begins with. -/
def magic : UInt32 := 0xCAFEBABE

/-- The format version of a class file. -/
structure Version where
  minor : UInt16
  major : UInt16
  deriving DecidableEq, Repr

namespace Reader

def header : Reader Version := do
  let found ← u32
  if found = magic then
    let minor ← u16
    let major ← u16
    return ⟨minor, major⟩
  else throw (.badMagic found)

/-- Steps over one attribute. -/
def skipAttribute : Reader Unit := do
  let _ ← u16
  let length ← u32
  skip length.toNat

/-- Steps over a table of attributes. -/
def skipAttributes : Reader Unit := discard (table skipAttribute)

def member (pool : ConstantPool) : Reader Member := do
  let flags ← u16
  let name ← pool.text (← u16)
  let descriptor ← pool.text (← u16)
  skipAttributes
  return ⟨name, descriptor, flags⟩

def members (pool : ConstantPool) : Reader (List Member) := table (member pool)

/-- A reference to a class. -/
def classRef (pool : ConstantPool) : Reader String := do
  pool.className (← u16)

/-- A whole class file. Interfaces and members are named as they are read, the
    superclass and the class itself at the end, the superclass first. -/
def binaryType : Reader BinaryType := do
  let version ← header
  let pool ← ConstantPool.read
  let flags ← u16
  let thisClass ← u16
  let superClass ← u16
  let interfaces ← table (classRef pool)
  let fields ← members pool
  let methods ← members pool
  skipAttributes
  let superName ← if superClass = 0 then pure none else some <$> pool.className superClass
  let name ← pool.className thisClass
  return ⟨name, superName, interfaces, flags, version.major, version.minor, fields, methods, none⟩

end Reader

/-- The type that a class file describes. Bytes after it are not looked at. -/
def BinaryType.parse (bs : Bytes) : Except ParseError BinaryType :=
  (Reader.binaryType.run bs).map (·.1)

end PlatformImage.ClassFile
