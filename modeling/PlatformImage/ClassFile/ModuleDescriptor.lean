import PlatformImage.ClassFile.BinaryType
/-! The descriptor of a module: what it requires, exports, opens, uses and
provides, as the `Module` attribute of its class file says. -/
namespace PlatformImage.ClassFile

/-- A module that another one needs. -/
structure Requirement where
  module : String
  flags : UInt16
  version : Option String
  deriving DecidableEq, Repr

/-- A package exported or opened, to the targets only if there are any. -/
structure PackageExport where
  package : String
  flags : UInt16
  targets : List String
  deriving DecidableEq, Repr

def PackageExport.isQualified (e : PackageExport) : Bool := !e.targets.isEmpty

/-- A service and the types that implement it. -/
structure Provision where
  service : String
  implementations : List String
  deriving DecidableEq, Repr

/-- A module as it declares itself. Packages and types are in dotted form. -/
structure ModuleDescriptor where
  name : String
  flags : UInt16
  version : Option String
  requires : List Requirement
  exports : List PackageExport
  opens : List PackageExport
  uses : List String
  provides : List Provision
  deriving DecidableEq, Repr

namespace ModuleDescriptor

/-- The flag of an open module. -/
def openFlag : UInt16 := 0x0020

/-- The flag of a class file that describes a module. -/
def moduleFlag : UInt16 := 0x8000

def isOpen (d : ModuleDescriptor) : Bool := d.flags &&& openFlag != 0

def requiresModule (d : ModuleDescriptor) (m : String) : Bool :=
  d.requires.any (·.module == m)

/-- Whether a package is exported to every module. -/
def exportsPackage (d : ModuleDescriptor) (package : String) : Bool :=
  d.exports.any fun e => e.package == package && !e.isQualified

/-- Whether a package is exported to a module, with all or by name. -/
def exportsPackageTo (d : ModuleDescriptor) (package m : String) : Bool :=
  d.exports.any fun e => e.package == package && (!e.isQualified || e.targets.contains m)

end ModuleDescriptor

namespace Reader

/-- A reference to a type, in dotted form. -/
def dottedClassRef (pool : ConstantPool) : Reader String := Text.dotted <$> classRef pool

def moduleRef (pool : ConstantPool) : Reader String := do
  pool.moduleName (← u16)

def requirement (pool : ConstantPool) : Reader Requirement := do
  let m ← moduleRef pool
  let flags ← u16
  let version ← pool.text? (← u16)
  return ⟨m, flags, version⟩

def packageExport (pool : ConstantPool) : Reader PackageExport := do
  let package ← pool.packageName (← u16)
  let flags ← u16
  let targets ← table (moduleRef pool)
  return ⟨Text.dotted package, flags, targets⟩

def provision (pool : ConstantPool) : Reader Provision := do
  let service ← dottedClassRef pool
  let implementations ← table (dottedClassRef pool)
  return ⟨service, implementations⟩

/-- The body of a `Module` attribute. -/
def moduleAttribute (pool : ConstantPool) : Reader ModuleDescriptor := do
  let name ← moduleRef pool
  let flags ← u16
  let version ← pool.text? (← u16)
  let requires ← table (requirement pool)
  let exports ← table (packageExport pool)
  let opens ← table (packageExport pool)
  let uses ← table (dottedClassRef pool)
  let provides ← table (provision pool)
  return ⟨name, flags, version, requires, exports, opens, uses, provides⟩

/-- The body of the first of `count` attributes that is named `Module`. -/
def findModuleAttribute (pool : ConstantPool) : Nat → Reader Bytes
  | 0 => throw .noModuleAttribute
  | count + 1 => do
    let index ← u16
    let length ← u32
    let body ← bytes length.toNat
    let name ← pool.text index
    if name = "Module" then return body else findModuleAttribute pool count

/-- The class file of a module, up to its `Module` attribute. The body of that
    is read on its own, and bytes left over in it are not looked at. -/
def moduleDescriptor : Reader ModuleDescriptor := do
  let _ ← header
  let pool ← ConstantPool.read
  let flags ← u16
  if flags &&& ModuleDescriptor.moduleFlag = 0 then throw .notAModule
  let _ ← u16
  let _ ← u16
  let interfaces ← u16
  skip (interfaces.toNat * 2)
  let _ ← members pool
  let _ ← members pool
  let attributes ← u16
  let body ← findModuleAttribute pool attributes.toNat
  let (descriptor, _) ← (moduleAttribute pool).run body
  return descriptor

end Reader

/-- The descriptor that the class file of a module holds. -/
def ModuleDescriptor.parse (bs : Bytes) : Except ParseError ModuleDescriptor :=
  (Reader.moduleDescriptor.run bs).map (·.1)

end PlatformImage.ClassFile
