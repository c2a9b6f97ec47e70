import CloneScan.Cache.Connection
import CloneScan.Cache.DiskStore
import CloneScan.Cache.MemoryStore
import CloneScan.Cache.SharedStore
import CloneScan.Fingerprint.NumberHash
import CloneScan.Scan
import CloneScan.Tokenize
import CloneScan.Proofs.Grouping
import CloneScan.Proofs.Growth
import CloneScan.Proofs.GrownBlock
import CloneScan.Proofs.Containment
import CloneScan.Proofs.DuplicateBlock
import CloneScan.Proofs.DuplicateCluster
import CloneScan.Proofs.CacheTransparency
import CloneScan.Proofs.ClusterContainment
import CloneScan.Proofs.ClusterCopies
import CloneScan.Proofs.ClusterThresholds
import CloneScan.Proofs.SuppressedCopies
import CloneScan.Proofs.ReportOrder
import CloneScan.Proofs.EditDistance
import CloneScan.Proofs.ForestRoots
import CloneScan.Proofs.ConstantGroups
import CloneScan.Proofs.DetectedViolations
import CloneScan.Proofs.FileNumbering
import CloneScan.Proofs.HashIndependence
import CloneScan.Proofs.FileOrder
import CloneScan.Proofs.FilterMemory
import CloneScan.Proofs.LanguageSeparation
import CloneScan.Proofs.StoreEquivalence
import CloneScan.Proofs.DiskDurability
import CloneScan.Proofs.SharedTraffic
import CloneScan.Proofs.ScanReports
import CloneScan.Proofs.CacheClearing
import CloneScan.Proofs.PathSpelling
import CloneScan.Proofs.FileTurns
import CloneScan.Proofs.WarmCache
import CloneScan.Proofs.RecordRoundTrip
import CloneScan.Proofs.ReferenceGrowth
import CloneScan.Proofs.BlankMarkup
import CloneScan.Proofs.LinePlaces
import CloneScan.Proofs.TokenLines
import CloneScan.Proofs.SuppressedLines
import CloneScan.Proofs.DirectiveStarts
import CloneScan.Proofs.MarkedLines
import CloneScan.Proofs.Pruning
import CloneScan.Proofs.LeafTokens
import CloneScan.Proofs.PrimaryOccurrence
import CloneScan.Proofs.TypedDocument
import CloneScan.Proofs.AcceptedConfig
import CloneScan.Proofs.NameComponents
import CloneScan.Proofs.DirectHash
import CloneScan.Proofs.ConstantReports
import CloneScan.Proofs.CallSpans
import CloneScan.Proofs.StoredIndex
