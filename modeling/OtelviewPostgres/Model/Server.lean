import OtelviewPostgres.Model.Listings
import OtelviewPostgres.Model.LogSearch
import OtelviewPostgres.Model.TraceRead

/-!
# The handlers of the server

What each call of the storage API answers: a status, a response, or a stream whose items are
messages or statuses. A stream is the list of the items that a client which reads all of it
receives.
-/

namespace OtelviewPostgres

open Relational

inductive StatusCode where
  | invalidArgument
  | internal
deriving DecidableEq

structure Status where
  code : StatusCode
  message : String
deriving DecidableEq

def invalidArgument (message : String) : Status := { code := .invalidArgument, message }

/-- The error is logged, and the client is not told. -/
def internal (_ : Error) : Status := { code := .internal, message := "storage request failed" }

/-- `str::contains` -/
def mentions (message word : String) : Bool := decide (word.toList <:+: message.toList)

def invalidOrInternal (error : Error) : Status :=
  let message := error.display
  if mentions message "timestamp" || mentions message "duration" || mentions message "trace_id" ||
      mentions message "metric_name" then
    invalidArgument message
  else internal error

def requireQuery {α : Type} (query : Option α) : Except Status α :=
  match query with
  | some query => .ok query
  | none => .error (invalidArgument "query is required")

abbrev Stream (α : Type) := List (Except Status α)

def decodePayload {α : Type} (codec : Codec α) (bytes : Bytes) : Except Error α :=
  match codec.decode bytes with
  | some a => .ok a
  | none => .error (.message "failed to decode Protobuf message")

/-- Payloads per streamed chunk. -/
def chunkSize : ℕ := 256

def streamChunks {α : Type} (payloads : List Bytes) (merge : List Bytes → Except Error α) : Stream α :=
  (chunks chunkSize payloads).map fun chunk => (merge chunk).mapError internal

section Handlers

variable (env : Externals)

def mergeLogs (payloads : List Bytes) : Except Error LogsData := do
  let resourceLogs ← payloads.foldlM (fun resourceLogs payload => do
    return resourceLogs ++ (← decodePayload env.logs payload).resourceLogs) []
  return { resourceLogs }

def mergeMetrics (payloads : List Bytes) : Except Error MetricsData := do
  let resourceMetrics ← payloads.foldlM (fun resourceMetrics payload => do
    return resourceMetrics ++ (← decodePayload env.metrics payload).resourceMetrics) []
  return { resourceMetrics }

structure ExportTracePartialSuccess where
  rejectedSpans : Int64
  errorMessage : String

def TraceService.export (server : Server SpanRow) (data : TracesData) (t : SpansTable) :
    Except Status (Option ExportTracePartialSuccess) × SpansTable :=
  match write env server data t with
  | (.error e, t') => (.error (internal e), t')
  | (.ok (rejected, errors), t') =>
    (.ok (if 0 < rejected then
      some { rejectedSpans := .ofNat rejected, errorMessage := "; ".intercalate errors } else none), t')

def LogsService.export (server : Server LogRow) (data : LogsData) (t : LogsTable) : Except Status Unit × LogsTable :=
  match writeLogs env server data t with
  | (.error e, t') => (.error (internal e), t')
  | (.ok _, t') => (.ok (), t')

def MetricsService.export (server : Server MetricRow) (data : MetricsData) (t : MetricsTable) :
    Except Status Unit × MetricsTable :=
  match writeMetrics env server data t with
  | (.error e, t') => (.error (internal e), t')
  | (.ok _, t') => (.ok (), t')

def validateTraceIds (ids : List Bytes) : Except Status Unit :=
  if ids.any fun id => id.length ≠ 16 then .error (invalidArgument "trace_id must contain exactly 16 bytes")
  else .ok ()

/-- What the database and the server's hash maps decide about one search for traces. -/
structure TraceSearch where
  findFault : Option Error := none
  spansFault : Option Error := none
  groups : OrderBy TraceGroup TraceGroup.NotOlder
  spans : OrderBy SpanRow TraceOrder
  traces : AnyOrder (List StoredSpan)
  services : Bytes → AnyOrder ServiceSummary

variable (maxSearchDepth : ℕ)

def streamIds (search : TraceSearch) (ids : List Bytes) (t : SpansTable) : Except Status (Stream TracesData) := do
  let spans ← (spansForIds search.spansFault search.spans ids t).mapError internal
  return spans.map fun span => (decodePayload env.traces span.payload).mapError internal

def TraceReader.getTraces (search : TraceSearch) (ids : List Bytes) (t : SpansTable) :
    Except Status (Stream TracesData) := do
  validateTraceIds ids
  streamIds env search ids t

def TraceReader.getServices {c : Collation} (fault : Option Error)
    (order : OrderBy SpanRow (ColumnLe c.lt SpanRow.service)) (t : SpansTable) : Except Status (List String) :=
  (services fault order t).mapError internal

def TraceReader.getOperations {c : Collation} (fault : Option Error)
    (order : OrderBy SpanRow (ColumnLe c.lt SpanRow.operation)) (service kind : String) (t : SpansTable) :
    Except Status (List Operation) :=
  if service.isEmpty then .error (invalidArgument "service is required")
  else (operations fault order service kind t).mapError internal

/-- The ids that a search finds. -/
def searchIds (search : TraceSearch) (query : Option TraceQueryParameters) (t : SpansTable) :
    Except Status (List FoundTraceId) := do
  let query ← requireQuery query
  (findIds env maxSearchDepth search.findFault search.groups query t).mapError invalidOrInternal

def TraceReader.findTraces (search : TraceSearch) (query : Option TraceQueryParameters) (t : SpansTable) :
    Except Status (Stream TracesData) := do
  let ids ← searchIds env maxSearchDepth search query t
  streamIds env search (ids.map FoundTraceId.traceId) t

def TraceReader.findTraceIDs (search : TraceSearch) (query : Option TraceQueryParameters) (t : SpansTable) :
    Except Status (List FoundTraceId) :=
  searchIds env maxSearchDepth search query t

def TraceReader.findTraceSummaries (search : TraceSearch) (query : Option TraceQueryParameters) (t : SpansTable) :
    Except Status (Stream (List TraceSummary)) := do
  let ids ← searchIds env maxSearchDepth search query t
  let spans ← (spansForIds search.spansFault search.spans (ids.map FoundTraceId.traceId) t).mapError internal
  return [.ok (summaries search.traces search.services spans)]

def LogReader.getServices {c : Collation} (fault : Option Error)
    (order : OrderBy (Stored LogRow) (ColumnLe c.lt fun r => r.row.service)) (t : LogsTable) :
    Except Status (List String) :=
  (logServices fault order t).mapError internal

def LogReader.findLogs (fold : Char → Char) (queryFault rowFault : Option Error)
    (order : OrderBy (Stored LogRow) NewerLog) (query : Option LogQueryParameters) (t : LogsTable) :
    Except (Failure Status) (Stream LogsData) := do
  let query ← (requireQuery query).mapError .error
  let payloads ← (OtelviewPostgres.findLogs env fold maxSearchDepth queryFault rowFault order query t).mapError
    (Failure.map invalidOrInternal)
  return streamChunks payloads (mergeLogs env)

def MetricReader.getServices {c : Collation} (fault : Option Error)
    (order : OrderBy StoredPoint (ColumnLe c.lt fun p => p.row.service)) (t : MetricsTable) :
    Except Status (List String) :=
  (metricServices fault order t).mapError internal

def MetricReader.listMetrics {c : Collation} (fault : Option Error)
    (order : OrderBy StoredPoint (ColumnLe c.lt fun p => p.row.name)) (lookups : ℕ → MetricLookup c)
    (completion : AnyOrder (String × ℕ)) (t : MetricsTable) : Except Status (List MetricInfo) :=
  (OtelviewPostgres.listMetrics fault order lookups completion t (fun _ => t) fun _ => t).mapError internal

def MetricReader.findMetrics (fault : Option Error) (window order : OrderBy StoredPoint NotLater)
    (query : Option MetricQueryParameters) (t : MetricsTable) : Except Status (Stream MetricsData) := do
  let query ← requireQuery query
  let payloads ← (OtelviewPostgres.findMetrics env fault window order query t).mapError invalidOrInternal
  return streamChunks payloads (mergeMetrics env)

def MetricReader.findMetricsByRow (queryFault rowFault : Option Error) (window order : OrderBy StoredPoint NotLater)
    (query : Option MetricQueryParameters) (t : MetricsTable) : Except Status (Stream MetricsData) := do
  let query ← requireQuery query
  let payloads ← (OtelviewPostgres.findMetricsByRow env queryFault rowFault window order query t).mapError
    invalidOrInternal
  return streamChunks payloads (mergeMetrics env)

end Handlers

end OtelviewPostgres
