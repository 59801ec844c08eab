import PlatformImage.FileSystem.Path
import PlatformImage.Registry.Snapshot
/-! The register of the modules of images: for each image the snapshot that was
published last. Images are told apart by the components of their paths. -/
namespace PlatformImage

structure Registry where
  /-- The snapshots, under the components of their paths. -/
  snapshots : List (List String × Registry.Snapshot)
  /-- How often something was published. The program counts in 64 bits, so this is
      its count until something was published 2^64 times. -/
  generations : Nat

namespace Registry

def empty : Registry := ⟨[], 0⟩

/-- The snapshot of an image. -/
def snapshot? (r : Registry) (image : String) : Option Snapshot :=
  r.snapshots.lookup (Path.components image)

def isPopulated (r : Registry) (image : String) : Bool := (r.snapshot? image).isSome

def imageCount (r : Registry) : Nat := r.snapshots.length

/-- The snapshot that publishing descriptors would give. -/
def nextSnapshot (r : Registry) (image : String) (ds : List ClassFile.ModuleDescriptor) :
    Snapshot :=
  ⟨image, r.generations + 1, .ofList ds⟩

/-- Publishes the descriptors of an image, in place of those published before. -/
def publish (r : Registry) (image : String) (ds : List ClassFile.ModuleDescriptor) : Registry :=
  let key := Path.components image
  ⟨(key, r.nextSnapshot image ds) :: r.snapshots.filter fun s => s.1 ≠ key, r.generations + 1⟩

end Registry

end PlatformImage
