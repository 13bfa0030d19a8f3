import OtelviewPostgres.Model.Records

/-!
# Writing metrics

A metric is split into its data points, each of which becomes a row of the
`metric_points` table of its own, and `Store::write_metrics` appends these rows.
-/

namespace OtelviewPostgres

open Relational

/-- One data point with a copy of its metric that has no other. -/
structure FlatPoint where
  metric : Metric
  time : UInt64
  value : F64
  count : UInt64
  attributes : Json

structure MetricRow where
  name : String
  description : String
  unit : String
  metricType : String
  service : String
  time : Int
  value : F64
  count : Int
  attributes : Json
  resourceAttributes : Json
  payload : Bytes

abbrev MetricsTable := IdentityTable MetricRow

def numberValue : Option NumberValue → F64
  | some (.asDouble d) => d
  | some (.asInt i) => .ofInt64 i
  | none => .zero

def flattenMetric (metric : Metric) : List FlatPoint :=
  let withData (data : MetricData) : Metric := { metric with data := some data }
  match metric.data with
  | some (.gauge g) => g.dataPoints.map fun dp => {
      metric := withData (.gauge { dataPoints := [dp] })
      time := dp.timeUnixNano
      value := numberValue dp.value
      count := 0
      attributes := attributesToJson dp.attributes }
  | some (.sum s) => s.dataPoints.map fun dp => {
      metric := withData (.sum { s with dataPoints := [dp] })
      time := dp.timeUnixNano
      value := numberValue dp.value
      count := 0
      attributes := attributesToJson dp.attributes }
  | some (.histogram h) => h.dataPoints.map fun dp => {
      metric := withData (.histogram { h with dataPoints := [dp] })
      time := dp.timeUnixNano
      value := dp.sum.getD .zero
      count := dp.count
      attributes := attributesToJson dp.attributes }
  | some (.exponentialHistogram h) => h.dataPoints.map fun dp => {
      metric := withData (.exponentialHistogram { h with dataPoints := [dp] })
      time := dp.timeUnixNano
      value := dp.sum.getD .zero
      count := dp.count
      attributes := attributesToJson dp.attributes }
  | some (.summary s) => s.dataPoints.map fun dp => {
      metric := withData (.summary { dataPoints := [dp] })
      time := dp.timeUnixNano
      value := dp.sum
      count := dp.count
      attributes := attributesToJson dp.attributes }
  | none => []

def metricTypeStr (metric : Metric) : Option String :=
  metric.data.map fun
    | .gauge _ => "gauge"
    | .sum _ => "sum"
    | .histogram _ => "histogram"
    | .exponentialHistogram _ => "exponential_histogram"
    | .summary _ => "summary"

def metricSingletonPayload (resource : ResourceMetrics) (scope : ScopeMetrics) (metric : Metric) :
    MetricsData where
  resourceMetrics := [{
    resource := resource.resource
    scopeMetrics := [{ scope := scope.scope, metrics := [metric], schemaUrl := scope.schemaUrl }]
    schemaUrl := resource.schemaUrl }]

section Writer

variable (env : Externals)

def metricRow (resourceMetrics : ResourceMetrics) (scopeMetrics : ScopeMetrics) (point : FlatPoint)
    (service : String) (resourceAttrs : Json) : Except Error MetricRow := do
  let time ← u64ToI64 point.time "metric timestamp"
  let count ← u64ToI64 point.count "metric count"
  let metricType ← match metricTypeStr point.metric with
    | some s => pure s
    | none => throw (.message ("metric " ++ point.metric.name ++ " has no data"))
  return {
    name := point.metric.name
    description := point.metric.description
    unit := point.metric.unit
    metricType := metricType
    service := service
    time := time
    value := point.value
    count := count
    attributes := point.attributes
    resourceAttributes := resourceAttrs
    payload := env.metrics.encodeToVec (metricSingletonPayload resourceMetrics scopeMetrics point.metric) }

def collectPoint (resourceMetrics : ResourceMetrics) (scopeMetrics : ScopeMetrics) (service : String)
    (resourceAttrs : Json) (rows : List MetricRow) (point : FlatPoint) : Except Error (List MetricRow) := do
  let row ← metricRow env resourceMetrics scopeMetrics point service resourceAttrs
  return rows ++ [row]

def collectMetric (resourceMetrics : ResourceMetrics) (scopeMetrics : ScopeMetrics) (service : String)
    (resourceAttrs : Json) (rows : List MetricRow) (metric : Metric) : Except Error (List MetricRow) :=
  (flattenMetric metric).foldlM (collectPoint env resourceMetrics scopeMetrics service resourceAttrs) rows

def collectScopeMetrics (resourceMetrics : ResourceMetrics) (service : String) (resourceAttrs : Json)
    (rows : List MetricRow) (scopeMetrics : ScopeMetrics) : Except Error (List MetricRow) :=
  scopeMetrics.metrics.foldlM (collectMetric env resourceMetrics scopeMetrics service resourceAttrs) rows

def collectResourceMetrics (rows : List MetricRow) (resourceMetrics : ResourceMetrics) :
    Except Error (List MetricRow) :=
  resourceMetrics.scopeMetrics.foldlM (collectScopeMetrics env resourceMetrics
    (serviceName (resourceAttributes resourceMetrics.resource))
    (resourceAttributes resourceMetrics.resource)) rows

def collectMetrics (data : MetricsData) : Except Error (List MetricRow) :=
  data.resourceMetrics.foldlM (collectResourceMetrics env) []

def writeMetrics (server : Server MetricRow) (data : MetricsData) (t : MetricsTable) :
    Except Error ℕ × MetricsTable :=
  writeRecords server (collectMetrics env data) t

end Writer

end OtelviewPostgres
