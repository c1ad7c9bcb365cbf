import PromScrape.Library.Utf8
import PromScrape.Library.Float64
import PromScrape.Library.ProtoWire
import PromScrape.Library.Word64
import PromScrape.Library.Interning
import PromScrape.Library.Regex
import PromScrape.Library.Transition
import PromScrape.Library.Fallible
import PromScrape.Library.SortedSearch
import PromScrape.Library.Scan
import PromScrape.Library.Numerals
import PromScrape.Library.FloatText
import PromScrape.Library.Rounding
import PromScrape.Library.FloatLayout
import PromScrape.Library.FloatReading
import PromScrape.Library.Keyed
import PromScrape.Library.Slots
import PromScrape.Library.Watch
import PromScrape.Library.Reconcile
import PromScrape.Library.Signalled
import PromScrape.Library.Retry
import PromScrape.Library.Mailbox
import PromScrape.Library.Http
import PromScrape.Library.Snappy
import PromScrape.Library.MergeRuns
import PromScrape.Library.SortedMap
import PromScrape.Library.Multimap
import PromScrape.Implementation.Model
import PromScrape.Implementation.EncodeV2
import PromScrape.Implementation.Relabel
import PromScrape.Implementation.Duration
import PromScrape.Implementation.Config
import PromScrape.Implementation.Size
import PromScrape.Implementation.RemoteWrite
import PromScrape.Implementation.Hash
import PromScrape.Implementation.Parser
import PromScrape.Implementation.Protobuf
import PromScrape.Implementation.Scrape
import PromScrape.Implementation.Flush
import PromScrape.Implementation.Targets
import PromScrape.Implementation.Kubernetes
import PromScrape.Implementation.PodTargets
import PromScrape.Implementation.Telemetry
import PromScrape.Implementation.Delivery
import PromScrape.Implementation.Web
import PromScrape.Implementation.Timers
import PromScrape.Implementation.TrackedSeries
import PromScrape.Implementation.Auth
import PromScrape.Implementation.Lifecycle
import PromScrape.Implementation.Discovery
import PromScrape.Implementation.KubernetesRun
import PromScrape.Implementation.JobDiscovery
import PromScrape.Implementation.Process
import PromScrape.Spec.Prompb
import PromScrape.Spec.WriteV2
import PromScrape.Spec.Relabel
import PromScrape.Spec.Exposition
import PromScrape.Spec.Discovery
import PromScrape.Spec.NativeHistogram
import PromScrape.Spec.Duration
import PromScrape.Spec.Size
import PromScrape.Spec.Kubernetes
import PromScrape.Spec.ParserAccess
import PromScrape.Spec.Delivery
import PromScrape.Spec.Process
import PromScrape.Proofs.Varint
import PromScrape.Proofs.Hash
import PromScrape.Proofs.PrompbCodec
import PromScrape.Proofs.EncodeV1
import PromScrape.Proofs.EncodeV2
import PromScrape.Proofs.Relabel
import PromScrape.Proofs.RelabelSafety
import PromScrape.Proofs.RemoteWrite
import PromScrape.Proofs.LineReader
import PromScrape.Proofs.ParserReader
import PromScrape.Proofs.Parser
import PromScrape.Proofs.ParserBody
import PromScrape.Proofs.ParserAccess
import PromScrape.Proofs.ParserLines
import PromScrape.Proofs.ParserSafety
import PromScrape.Proofs.ParserRoundTrip
import PromScrape.Proofs.LineParts
import PromScrape.Spec.Staleness
import PromScrape.Proofs.ProtobufSeries
import PromScrape.Proofs.SeriesIdentity
import PromScrape.Proofs.Staleness
import PromScrape.Proofs.FinalLabels
import PromScrape.Proofs.LiveMarkers
import PromScrape.Proofs.RelabelEffect
import PromScrape.Proofs.LabelNames
import PromScrape.Proofs.MergeLabels
import PromScrape.Proofs.LabelOrder
import PromScrape.Proofs.ProtobufLabels
import PromScrape.Proofs.SentLabels
import PromScrape.Proofs.Targets
import PromScrape.Proofs.TargetIdentity
import PromScrape.Proofs.SyntheticLabels
import PromScrape.Proofs.Timers
import PromScrape.Proofs.Duration
import PromScrape.Proofs.Size
import PromScrape.Proofs.Kubernetes
import PromScrape.Proofs.TrackedSeries
import PromScrape.Proofs.Lifecycle
import PromScrape.Proofs.Discovery
import PromScrape.Proofs.KubernetesRun
import PromScrape.Proofs.JobDiscovery
import PromScrape.Proofs.Process
import PromScrape.Proofs.Web
import PromScrape.Proofs.MergeBuckets
import PromScrape.Proofs.NativeHistogram
import PromScrape.Proofs.SchemaReduction
import PromScrape.Proofs.HistogramCounts
import PromScrape.Proofs.TargetParams
import PromScrape.Proofs.ClassicBuckets
import PromScrape.Proofs.FormatFloat
import PromScrape.Proofs.SelfExposition
import PromScrape.Proofs.Pipeline
import PromScrape.Proofs.EmptyLabels
import PromScrape.Proofs.GroupDefaults
import PromScrape.Proofs.Delivery
import PromScrape.Proofs.ReceivedSeries
import PromScrape.Proofs.DeliveryCounters
