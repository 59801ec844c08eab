import PlatformImage.NameMap
import PlatformImage.ClassFile.ModuleDescriptor
/-! The descriptors that one scan of an image found, by the names that the
modules declare. Several different descriptors may have one name. -/
namespace PlatformImage.Registry

open ClassFile (ModuleDescriptor)

/-- Descriptors by declared name. -/
abbrev Index := NameMap (List ModuleDescriptor)

namespace Index

/-- Adds a descriptor behind those of its name, unless it is among them. -/
def add (m : Index) (d : ModuleDescriptor) : Index :=
  m.alter d.name fun known =>
    let known := known.getD []
    if known.contains d then known else known ++ [d]

def ofList (ds : List ModuleDescriptor) : Index := ds.foldl add .empty

end Index

/-- What is registered for an image: the path it was published under, a number
    that grows with each publishing (of the first 2^64), and the descriptors. -/
structure Snapshot where
  image : String
  generation : Nat
  modules : Index

namespace Snapshot

def contains (s : Snapshot) (name : String) : Bool := s.modules.contains name

/-- The descriptors of a name, in the order they were found. -/
def descriptors (s : Snapshot) (name : String) : List ModuleDescriptor :=
  (s.modules.get? name).getD []

/-- The first descriptor of a name. -/
def get? (s : Snapshot) (name : String) : Option ModuleDescriptor :=
  (s.descriptors name).find? fun d => d.name == name

/-- The names, in ascending order. -/
def names (s : Snapshot) : List String := s.modules.keys

def size (s : Snapshot) : Nat := s.modules.size

def isEmpty (s : Snapshot) : Bool := s.size == 0

end Snapshot

end PlatformImage.Registry
