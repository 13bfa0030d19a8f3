import OtelviewPostgres.Model.Rust

/-!
# OTLP messages

The messages a client exports, field for field, and the search values of the trace
query API. An `AnyValue` whose oneof is not set is `unset`.
-/

namespace OtelviewPostgres

structure KeyValueOf (α : Type) where
  key : String
  value : Option α

inductive AnyValue where
  | unset
  | stringValue (v : String)
  | stringValueStrindex (v : Int32)
  | boolValue (v : Bool)
  | intValue (v : Int64)
  | doubleValue (v : F64)
  | bytesValue (v : Bytes)
  | arrayValue (values : List AnyValue)
  | kvlistValue (values : List (KeyValueOf AnyValue))

abbrev KeyValue := KeyValueOf AnyValue

/-- Induction over values, with the entries of a list of keys and values reached through
the values that are present. -/
@[elab_as_elim]
theorem AnyValue.induct {motive : AnyValue → Prop} (unset : motive unset)
    (stringValue : ∀ v, motive (stringValue v)) (stringValueStrindex : ∀ v, motive (stringValueStrindex v))
    (boolValue : ∀ v, motive (boolValue v)) (intValue : ∀ v, motive (intValue v))
    (doubleValue : ∀ v, motive (doubleValue v)) (bytesValue : ∀ v, motive (bytesValue v))
    (arrayValue : ∀ vs, (∀ v ∈ vs, motive v) → motive (arrayValue vs))
    (kvlistValue : ∀ kvs : List KeyValue, (∀ kv ∈ kvs, ∀ v ∈ kv.value, motive v) → motive (kvlistValue kvs))
    (v : AnyValue) : motive v := by
  refine @AnyValue.rec motive (fun vs => ∀ v ∈ vs, motive v) (fun kvs => ∀ kv ∈ kvs, ∀ v ∈ kv.value, motive v)
    (fun kv => ∀ v ∈ kv.value, motive v) (fun o => ∀ v ∈ o, motive v) unset stringValue stringValueStrindex
    boolValue intValue doubleValue bytesValue arrayValue kvlistValue ?_ ?_ ?_ ?_ ?_ ?_ ?_ v
  · simp
  · intro v vs hv hvs w hw
    rcases List.mem_cons.mp hw with rfl | hw
    · exact hv
    · exact hvs w hw
  · simp
  · intro kv kvs hkv hkvs l hl
    rcases List.mem_cons.mp hl with rfl | hl
    · exact hkv
    · exact hkvs l hl
  · exact fun _ _ hv => hv
  · simp
  · intro v hv w hw
    obtain rfl := Option.some.inj hw
    exact hv

structure EntityRef where
  schemaUrl : String
  type : String
  idKeys : List String
  descriptionKeys : List String

structure Resource where
  attributes : List KeyValue
  droppedAttributesCount : UInt32 := 0
  entityRefs : List EntityRef := []

structure InstrumentationScope where
  name : String := ""
  version : String := ""
  attributes : List KeyValue := []
  droppedAttributesCount : UInt32 := 0

structure SpanEvent where
  timeUnixNano : UInt64
  name : String
  attributes : List KeyValue
  droppedAttributesCount : UInt32

structure SpanLink where
  traceId : Bytes
  spanId : Bytes
  traceState : String
  attributes : List KeyValue
  droppedAttributesCount : UInt32
  flags : UInt32

structure SpanStatus where
  message : String
  code : Int32

structure Span where
  traceId : Bytes
  spanId : Bytes
  traceState : String := ""
  parentSpanId : Bytes := []
  flags : UInt32 := 0
  name : String := ""
  kind : Int32 := 0
  startTimeUnixNano : UInt64 := 0
  endTimeUnixNano : UInt64 := 0
  attributes : List KeyValue := []
  droppedAttributesCount : UInt32 := 0
  events : List SpanEvent := []
  droppedEventsCount : UInt32 := 0
  links : List SpanLink := []
  droppedLinksCount : UInt32 := 0
  status : Option SpanStatus := none

structure ScopeSpans where
  scope : Option InstrumentationScope := none
  spans : List Span
  schemaUrl : String := ""

structure ResourceSpans where
  resource : Option Resource := none
  scopeSpans : List ScopeSpans
  schemaUrl : String := ""

structure TracesData where
  resourceSpans : List ResourceSpans

structure LogRecord where
  timeUnixNano : UInt64 := 0
  observedTimeUnixNano : UInt64 := 0
  severityNumber : Int32 := 0
  severityText : String := ""
  body : Option AnyValue := none
  attributes : List KeyValue := []
  droppedAttributesCount : UInt32 := 0
  flags : UInt32 := 0
  traceId : Bytes := []
  spanId : Bytes := []
  eventName : String := ""

structure ScopeLogs where
  scope : Option InstrumentationScope := none
  logRecords : List LogRecord
  schemaUrl : String := ""

structure ResourceLogs where
  resource : Option Resource := none
  scopeLogs : List ScopeLogs
  schemaUrl : String := ""

structure LogsData where
  resourceLogs : List ResourceLogs

inductive NumberValue where
  | asDouble (d : F64)
  | asInt (i : Int64)

structure Exemplar where
  filteredAttributes : List KeyValue
  timeUnixNano : UInt64
  value : Option NumberValue
  spanId : Bytes
  traceId : Bytes

structure NumberDataPoint where
  attributes : List KeyValue := []
  startTimeUnixNano : UInt64 := 0
  timeUnixNano : UInt64 := 0
  value : Option NumberValue := none
  exemplars : List Exemplar := []
  flags : UInt32 := 0

structure HistogramDataPoint where
  attributes : List KeyValue := []
  startTimeUnixNano : UInt64 := 0
  timeUnixNano : UInt64 := 0
  count : UInt64 := 0
  sum : Option F64 := none
  bucketCounts : List UInt64 := []
  explicitBounds : List F64 := []
  exemplars : List Exemplar := []
  flags : UInt32 := 0
  min : Option F64 := none
  max : Option F64 := none

structure Buckets where
  offset : Int32
  bucketCounts : List UInt64

structure ExponentialHistogramDataPoint where
  attributes : List KeyValue := []
  startTimeUnixNano : UInt64 := 0
  timeUnixNano : UInt64 := 0
  count : UInt64 := 0
  sum : Option F64 := none
  scale : Int32 := 0
  zeroCount : UInt64 := 0
  positive : Option Buckets := none
  negative : Option Buckets := none
  flags : UInt32 := 0
  exemplars : List Exemplar := []
  min : Option F64 := none
  max : Option F64 := none
  zeroThreshold : F64 := .zero

structure ValueAtQuantile where
  quantile : F64
  value : F64

structure SummaryDataPoint where
  attributes : List KeyValue := []
  startTimeUnixNano : UInt64 := 0
  timeUnixNano : UInt64 := 0
  count : UInt64 := 0
  sum : F64 := .zero
  quantileValues : List ValueAtQuantile := []
  flags : UInt32 := 0

structure Gauge where
  dataPoints : List NumberDataPoint

structure Sum where
  dataPoints : List NumberDataPoint
  aggregationTemporality : Int32 := 0
  isMonotonic : Bool := false

structure Histogram where
  dataPoints : List HistogramDataPoint
  aggregationTemporality : Int32 := 0

structure ExponentialHistogram where
  dataPoints : List ExponentialHistogramDataPoint
  aggregationTemporality : Int32 := 0

structure Summary where
  dataPoints : List SummaryDataPoint

inductive MetricData where
  | gauge (g : Gauge)
  | sum (s : Sum)
  | histogram (h : Histogram)
  | exponentialHistogram (h : ExponentialHistogram)
  | summary (s : Summary)

structure Metric where
  name : String := ""
  description : String := ""
  unit : String := ""
  metadata : List KeyValue := []
  data : Option MetricData := none

structure ScopeMetrics where
  scope : Option InstrumentationScope := none
  metrics : List Metric
  schemaUrl : String := ""

structure ResourceMetrics where
  resource : Option Resource := none
  scopeMetrics : List ScopeMetrics
  schemaUrl : String := ""

structure MetricsData where
  resourceMetrics : List ResourceMetrics

/-- The `AnyValue` of the trace query API, a type of its own without string-table indices. -/
inductive QueryValue where
  | unset
  | stringValue (v : String)
  | boolValue (v : Bool)
  | intValue (v : Int64)
  | doubleValue (v : F64)
  | arrayValue (values : List QueryValue)
  | kvlistValue (values : List (KeyValueOf QueryValue))
  | bytesValue (v : Bytes)

structure TraceQueryParameters where
  serviceName : String := ""
  operationName : String := ""
  attributes : List (KeyValueOf QueryValue) := []
  startTimeMin : Option Timestamp := none
  startTimeMax : Option Timestamp := none
  durationMin : Option Duration := none
  durationMax : Option Duration := none
  searchDepth : Int32 := 0

structure LogQueryParameters where
  serviceName : String := ""
  minSeverity : Int32 := 0
  search : String := ""
  traceId : String := ""
  timeMin : Option Timestamp := none
  timeMax : Option Timestamp := none
  searchDepth : Int32 := 0

structure MetricQueryParameters where
  metricName : String := ""
  serviceName : String := ""
  timeMin : Option Timestamp := none
  timeMax : Option Timestamp := none
  maxPoints : Int32 := 0

end OtelviewPostgres
