import OtelviewPostgres.Model.Server

/-!
# What the statements bind

The parameters of the statements that the writers, `Store::find_ids` and
`Store::spans_for_ids` build, and which of these statements a request leads to.
-/

namespace OtelviewPostgres

open Relational

/-- The database takes no statement with more parameters. -/
def maxBinds : ℕ := 65535

def LogRow.values (r : LogRow) : List SqlValue :=
  [.bigint r.time, .bigint r.observed, .integer r.severityNumber, .text r.severityText, .text r.service,
    .bytes r.traceId, .bytes r.spanId, .text r.body, .json r.attributes, .json r.resourceAttributes, .bytes r.payload]

def MetricRow.values (r : MetricRow) : List SqlValue :=
  [.text r.name, .text r.description, .text r.unit, .text r.metricType, .text r.service, .bigint r.time,
    .double r.value, .bigint r.count, .json r.attributes, .json r.resourceAttributes, .bytes r.payload]

section Writers

variable (env : Externals)

/-- A writer builds no statement before it has built all rows. -/
def writeStatements (data : TracesData) : List (List SqlValue) :=
  match collectSpans env data with
  | .error _ => []
  | .ok batch => (spanChunks batch).map fun chunk => chunk.flatMap SpanRow.values

def writeLogsStatements (data : LogsData) : List (List SqlValue) :=
  match collectLogs env data with
  | .error _ => []
  | .ok rows => (recordChunks rows).map fun chunk => chunk.flatMap LogRow.values

def writeMetricsStatements (data : MetricsData) : List (List SqlValue) :=
  match collectMetrics env data with
  | .error _ => []
  | .ok rows => (recordChunks rows).map fun chunk => chunk.flatMap MetricRow.values

end Writers

def SpanCondition.values : SpanCondition → List SqlValue
  | serviceName s => [.text s]
  | operationName s => [.text s]
  | startTimeMin n => [.bigint n]
  | startTimeMax n => [.bigint n]
  | durationMin n => [.bigint n]
  | durationMax n => [.bigint n]
  -- The needle is cloned for each of the three columns.
  | hasAttribute needle => [.json needle, .json needle, .json needle]

/-- The conditions, and after them the `LIMIT`. -/
def findIdsStatements (maxSearchDepth : ℕ) (query : TraceQueryParameters) : List (List SqlValue) :=
  match applyQuery query with
  | .error _ => []
  | .ok conditions =>
    [conditions.flatMap SpanCondition.values ++ [.bigint (searchDepth maxSearchDepth query.searchDepth)]]

/-- `trace_id IN (..)`, with one parameter for each id. -/
def spansForIdsStatements (traceIds : List Bytes) : List (List SqlValue) :=
  if traceIds.isEmpty then [] else [traceIds.map .bytes]

/-- A request that leads to one of these statements. -/
inductive Request where
  | exportTraces (data : TracesData)
  | exportLogs (data : LogsData)
  | exportMetrics (data : MetricsData)
  | getTraces (ids : List Bytes)
  | findTraces (query : Option TraceQueryParameters)
  | findTraceIDs (query : Option TraceQueryParameters)
  | findTraceSummaries (query : Option TraceQueryParameters)

section Requests

variable (env : Externals) (maxSearchDepth : ℕ) (search : TraceSearch) (t : SpansTable)

/-- The request is not refused for what it says. -/
def Request.Accepted : Request → Prop
  | exportTraces data => ∃ batch, collectSpans env data = .ok batch
  | exportLogs data => ∃ rows, collectLogs env data = .ok rows
  | exportMetrics data => ∃ rows, collectMetrics env data = .ok rows
  | getTraces ids => validateTraceIds ids = .ok ()
  | findTraces query | findTraceIDs query | findTraceSummaries query =>
    ∃ parameters conditions, query = some parameters ∧ applyQuery parameters = .ok conditions

/-- The statements of a search for ids. -/
def searchIdsStatements (query : Option TraceQueryParameters) : List (List SqlValue) :=
  match query with
  | none => []
  | some parameters => findIdsStatements maxSearchDepth parameters

/-- The statement that reads the spans of the traces a search has found. -/
def foundSpansStatements (query : Option TraceQueryParameters) : List (List SqlValue) :=
  match searchIds env maxSearchDepth search query t with
  | .error _ => []
  | .ok ids => spansForIdsStatements (ids.map FoundTraceId.traceId)

def Request.statements : Request → List (List SqlValue)
  | exportTraces data => writeStatements env data
  | exportLogs data => writeLogsStatements env data
  | exportMetrics data => writeMetricsStatements env data
  | getTraces ids =>
    match validateTraceIds ids with
    | .error _ => []
    | .ok () => spansForIdsStatements ids
  | findTraceIDs query => searchIdsStatements maxSearchDepth query
  | findTraces query | findTraceSummaries query =>
    searchIdsStatements maxSearchDepth query ++ foundSpansStatements env maxSearchDepth search t query

end Requests

end OtelviewPostgres
