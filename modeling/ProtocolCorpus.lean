import ProtocolCorpus.Main
import ProtocolCorpus.Proofs.Resolution
import ProtocolCorpus.Proofs.CacheKey
import ProtocolCorpus.Proofs.Interleaving
import ProtocolCorpus.Proofs.WarmCache
import ProtocolCorpus.Proofs.MessagePack
import ProtocolCorpus.Proofs.SerializedTable
import ProtocolCorpus.Proofs.Namespaces
import ProtocolCorpus.Proofs.Symbols
import ProtocolCorpus.Proofs.Yaml.RoundTrip
import ProtocolCorpus.Proofs.Arrangement
import ProtocolCorpus.Proofs.CacheMap
import ProtocolCorpus.Proofs.EnumReferences
import ProtocolCorpus.Proofs.AliasSupply
import ProtocolCorpus.Proofs.Lines
import ProtocolCorpus.Proofs.BagRuns
import ProtocolCorpus.Proofs.FilteredReports
import ProtocolCorpus.Proofs.Batches
import ProtocolCorpus.Proofs.ElementSpans
import ProtocolCorpus.Proofs.Revalidation
import ProtocolCorpus.Proofs.NearestManifest
import ProtocolCorpus.Proofs.RingTail
import ProtocolCorpus.Proofs.PhaseTotals
import ProtocolCorpus.Proofs.Carets
import ProtocolCorpus.Proofs.ShortLines
import ProtocolCorpus.Proofs.CanonicalNames
import ProtocolCorpus.Proofs.CommonSegments
import ProtocolCorpus.Proofs.LineEnds
import ProtocolCorpus.Proofs.EntryValues
