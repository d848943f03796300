import BundlePackaging.Generation
import BundlePackaging.Policy.Document
import BundlePackaging.Proofs.Canonical
import BundlePackaging.Proofs.Points
import BundlePackaging.Proofs.Reading
import BundlePackaging.Proofs.TargetingUnion
import BundlePackaging.Proofs.Uniting
import BundlePackaging.Proofs.KeyText
import BundlePackaging.Proofs.CacheHistory
import BundlePackaging.Proofs.SegmentOrder
import BundlePackaging.Proofs.Transparency
import BundlePackaging.Proofs.Distribution
import BundlePackaging.Proofs.Scheduling
import BundlePackaging.Proofs.Injection
import BundlePackaging.Proofs.PackageContent
import BundlePackaging.Proofs.EmittedPaths
import BundlePackaging.Proofs.DirectorySuffix
import BundlePackaging.Proofs.ChosenVariants
import BundlePackaging.Proofs.Pinning
import BundlePackaging.Proofs.Sharding
import BundlePackaging.Proofs.ShardCoverage
import BundlePackaging.Proofs.ShardRejection
import BundlePackaging.Proofs.MergeFaults
import BundlePackaging.Proofs.Failure
import BundlePackaging.Proofs.PackageCode
import BundlePackaging.Proofs.ModulePartition
import BundlePackaging.Proofs.CacheProtocol
import BundlePackaging.Proofs.MergedShape
import BundlePackaging.Proofs.MergeOutcome
import BundlePackaging.Proofs.DeclaredOrder
import BundlePackaging.Proofs.PackageList
import BundlePackaging.Proofs.CacheCounters
import BundlePackaging.Proofs.CacheOrigin
import BundlePackaging.Proofs.Placements
import BundlePackaging.Proofs.DocumentKeys
import BundlePackaging.Proofs.FinishedTwice
import BundlePackaging.Proofs.PackageCompression
import BundlePackaging.Proofs.HandleHistory
import BundlePackaging.Proofs.RelativePaths
