import PlatformImage.Proofs.ClassFile.Descriptor
import PlatformImage.Proofs.ClassFile.Streams
import PlatformImage.Proofs.Filters
import PlatformImage.Proofs.Readable
import PlatformImage.Proofs.SameAnswers
import PlatformImage.Session.Run
import PlatformImage.Proofs.AsNew
import PlatformImage.Proofs.Publications
import PlatformImage.Proofs.Patterns
import PlatformImage.Proofs.LastWriter
import PlatformImage.Proofs.Views
import PlatformImage.Proofs.Reports
import PlatformImage.Proofs.Inside
import PlatformImage.Proofs.PackageNames
import PlatformImage.Proofs.Attachments
import PlatformImage.Proofs.Detection
import PlatformImage.Proofs.Snapshots
import PlatformImage.Proofs.Inventory
import PlatformImage.Proofs.Contributions
import PlatformImage.Proofs.Archives
import PlatformImage.Proofs.ClassFile.Exports
import PlatformImage.Proofs.Pruning
import PlatformImage.Proofs.Turns
