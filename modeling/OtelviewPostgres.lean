import OtelviewPostgres.Relational.KeyedTable
import OtelviewPostgres.Relational.IdentityTable
import OtelviewPostgres.Relational.BatchDelete
import OtelviewPostgres.Relational.Transaction
import OtelviewPostgres.Relational.Like
import OtelviewPostgres.Relational.LooseScan
import OtelviewPostgres.Relational.Runs
import OtelviewPostgres.Relational.Join
import OtelviewPostgres.Relational.Jsonb
import OtelviewPostgres.Relational.JsonbText
import OtelviewPostgres.Proofs.SpanIngest
import OtelviewPostgres.Model.Retention
import OtelviewPostgres.Proofs.Sweep
import OtelviewPostgres.Proofs.Codecs
import OtelviewPostgres.Proofs.StoreInvariant
import OtelviewPostgres.Proofs.SpanInvariant
import OtelviewPostgres.Proofs.RecordIngest
import OtelviewPostgres.Proofs.Streams
import OtelviewPostgres.Proofs.LogReadback
import OtelviewPostgres.Proofs.MetricReadback
import OtelviewPostgres.Proofs.AtomicWrites
import OtelviewPostgres.Proofs.FaultIsolation
import OtelviewPostgres.Proofs.HexText
import OtelviewPostgres.Proofs.ConcurrentWrites
import OtelviewPostgres.Model.Search
import OtelviewPostgres.Model.LogSearch
import OtelviewPostgres.Model.TraceRead
import OtelviewPostgres.Proofs.SpanSearch
import OtelviewPostgres.Proofs.Timestamps
import OtelviewPostgres.Proofs.TraceCorrelation
import OtelviewPostgres.Proofs.LogTextSearch
import OtelviewPostgres.Proofs.TraceReading
import OtelviewPostgres.Proofs.TraceSearches
import OtelviewPostgres.Model.MetricSearch
import OtelviewPostgres.Model.Listings
import OtelviewPostgres.Model.Server
import OtelviewPostgres.Relational.Stride
import OtelviewPostgres.Proofs.SeriesIdentity
import OtelviewPostgres.Proofs.Downsample
import OtelviewPostgres.Proofs.MetricSampling
import OtelviewPostgres.Proofs.MetricBudget
import OtelviewPostgres.Proofs.MetricSelection
import OtelviewPostgres.Proofs.NewestPoint
import OtelviewPostgres.Model.RetentionConfig
import OtelviewPostgres.Proofs.Listings
import OtelviewPostgres.Model.ListingRace
import OtelviewPostgres.Proofs.ListingRace
import OtelviewPostgres.Proofs.ListedNames
import OtelviewPostgres.Model.Statements
import OtelviewPostgres.Proofs.BindLimit
import OtelviewPostgres.Proofs.RetentionText
import OtelviewPostgres.Proofs.TraceSummaries
import OtelviewPostgres.Proofs.ErrorCount
import OtelviewPostgres.Model.Dependencies
import OtelviewPostgres.Proofs.Dependencies
import OtelviewPostgres.Proofs.FailureCauses
import OtelviewPostgres.Model.History
import OtelviewPostgres.Proofs.History
import OtelviewPostgres.Channels.Pipe
import OtelviewPostgres.Model.ReadRace
import OtelviewPostgres.Model.RetentionRace
import OtelviewPostgres.Model.Streaming
import OtelviewPostgres.Proofs.AttributeSearch
import OtelviewPostgres.Proofs.ExportOrder
import OtelviewPostgres.Proofs.ReadRace
import OtelviewPostgres.Proofs.RetentionAlone
import OtelviewPostgres.Proofs.RetentionProgress
import OtelviewPostgres.Model.OverlappingDeletes
import OtelviewPostgres.Model.Schema
import OtelviewPostgres.Model.Startup
import OtelviewPostgres.Proofs.Migrations
import OtelviewPostgres.Proofs.OverlappingDeletes
import OtelviewPostgres.Proofs.PartialSuccess
import OtelviewPostgres.Proofs.Startup
import OtelviewPostgres.Proofs.FoundBounds
import OtelviewPostgres.Proofs.Windows
import OtelviewPostgres.Proofs.LogSearch
import OtelviewPostgres.Proofs.MetricStreaming
