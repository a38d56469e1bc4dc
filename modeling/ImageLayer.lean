import ImageLayer.Text.Case
import ImageLayer.Digest.Sha1
import ImageLayer.Digest.Content
import ImageLayer.Digest.Crc32
import ImageLayer.Image.Metadata
import ImageLayer.Image.Configuration
import ImageLayer.Package.InstalledDatabase
import ImageLayer.Package.Url
import ImageLayer.Package.Version
import ImageLayer.Elf.Soname
import ImageLayer.Pass.Accounts
import ImageLayer.Pass.Paths
import ImageLayer.Pass.OsRelease
import ImageLayer.Pass.Supervision
import ImageLayer.Pass.Applets
import ImageLayer.Pass.SharedObjects
import ImageLayer.Pass.Devices
import ImageLayer.Pass.Ownership
import ImageLayer.Sbom.Format
import ImageLayer.Archive.Member
import ImageLayer.Archive.Gzip
import ImageLayer.Archive.HashingSink
import ImageLayer.Host.Load
import ImageLayer.Host.IndexFile
import ImageLayer.Main
import ImageLayer.Build.Layer
import ImageLayer.CommandLine.Outcome
import ImageLayer.Proofs.Tree.Location
import ImageLayer.Proofs.Tree.Resolve
import ImageLayer.Proofs.Tree.Change
import ImageLayer.Proofs.Tree.Sound
import ImageLayer.Proofs.Tree.Loading
import ImageLayer.Proofs.Tree.Parents
import ImageLayer.Proofs.Tree.LinkOrder
import ImageLayer.Proofs.Tree.Names
import ImageLayer.Proofs.Host.Order
import ImageLayer.Proofs.Host.Loaded
import ImageLayer.Proofs.Host.DeviceNumber
import ImageLayer.Proofs.Tree.Inode
import ImageLayer.Proofs.Tree.Agreement
import ImageLayer.Proofs.Pass.Recorded
import ImageLayer.Proofs.Archive.Number
import ImageLayer.Proofs.Archive.Block
import ImageLayer.Proofs.Archive.Name
import ImageLayer.Proofs.Archive.Lossless
import ImageLayer.Proofs.Build.Steps
import ImageLayer.Proofs.Build.Composition
import ImageLayer.Proofs.Tree.Growth
import ImageLayer.Proofs.Tree.Effects
import ImageLayer.Proofs.Tree.Frame
import ImageLayer.Proofs.Pass.Additions
import ImageLayer.Proofs.Build.Operations
import ImageLayer.Proofs.Build.History
import ImageLayer.Proofs.Sbom.Identifier
import ImageLayer.Proofs.Sbom.Distinct
import ImageLayer.Proofs.Sbom.Graph
import ImageLayer.Proofs.Tree.Course
import ImageLayer.Proofs.Tree.Directories
import ImageLayer.Proofs.Text.Percent
import ImageLayer.Proofs.Package.Url
import ImageLayer.Proofs.Sbom.References
import ImageLayer.Proofs.Build.Provenance
import ImageLayer.Proofs.Elf.Soname
import ImageLayer.Proofs.Tree.Writing
import ImageLayer.Proofs.Tree.Children
import ImageLayer.Proofs.Pass.Subtree
import ImageLayer.Proofs.Tree.Detour
import ImageLayer.Proofs.Pass.Sonames
import ImageLayer.Proofs.Text.Numeral
import ImageLayer.Proofs.Text.Lines
import ImageLayer.Proofs.Package.DatabaseGrammar
import ImageLayer.Proofs.Package.DatabaseRecords
import ImageLayer.Proofs.Tree.Extension
import ImageLayer.Proofs.Pass.AccountFile
import ImageLayer.Proofs.Pass.Homes
import ImageLayer.Proofs.Pass.Accounts
import ImageLayer.Proofs.Package.Version
import ImageLayer.Proofs.Package.Tags
import ImageLayer.Proofs.Package.UrlParts
import ImageLayer.Proofs.Pass.OsRelease
import ImageLayer.Proofs.Sbom.Alphabet
import ImageLayer.Proofs.Archive.HashingSink
import ImageLayer.Proofs.Pass.Supervision
import ImageLayer.Proofs.Tree.Endless
