import OtelviewPostgres.Proofs.Codecs
import OtelviewPostgres.Proofs.MetricSelection
import OtelviewPostgres.Proofs.StoreInvariant
import OtelviewPostgres.Proofs.Streams

/-!
# Metrics come back point by point

A metric of any kind is split into its data points, each under a copy of its descriptor and
wrapper. The stored payloads, taken apart, are the points of the export, and a search that
thins out no series streams each point it matches once, in order of time.
-/

namespace OtelviewPostgres

open Relational

inductive MetricKind where
  | gauge
  | sum
  | histogram
  | exponentialHistogram
  | summary

def MetricKind.text : MetricKind → String
  | gauge => "gauge"
  | sum => "sum"
  | histogram => "histogram"
  | exponentialHistogram => "exponential_histogram"
  | summary => "summary"

inductive DataPoint where
  | number (p : NumberDataPoint)
  | histogram (p : HistogramDataPoint)
  | exponentialHistogram (p : ExponentialHistogramDataPoint)
  | summary (p : SummaryDataPoint)

def DataPoint.time : DataPoint → UInt64
  | number p => p.timeUnixNano
  | histogram p => p.timeUnixNano
  | exponentialHistogram p => p.timeUnixNano
  | summary p => p.timeUnixNano

/-- A data point with everything its metric says about it. -/
structure MetricEntry where
  name : String
  description : String
  unit : String
  metadata : List KeyValue
  kind : MetricKind
  aggregationTemporality : Option Int32
  isMonotonic : Option Bool
  point : DataPoint

def Metric.entry (metric : Metric) (kind : MetricKind) (aggregationTemporality : Option Int32)
    (isMonotonic : Option Bool) (point : DataPoint) : MetricEntry where
  name := metric.name
  description := metric.description
  unit := metric.unit
  metadata := metric.metadata
  kind := kind
  aggregationTemporality := aggregationTemporality
  isMonotonic := isMonotonic
  point := point

def Metric.entries (metric : Metric) : List MetricEntry :=
  match metric.data with
  | some (.gauge g) => g.dataPoints.map fun p => metric.entry .gauge none none (.number p)
  | some (.sum s) => s.dataPoints.map fun p =>
      metric.entry .sum (some s.aggregationTemporality) (some s.isMonotonic) (.number p)
  | some (.histogram h) => h.dataPoints.map fun p =>
      metric.entry .histogram (some h.aggregationTemporality) none (.histogram p)
  | some (.exponentialHistogram h) => h.dataPoints.map fun p =>
      metric.entry .exponentialHistogram (some h.aggregationTemporality) none (.exponentialHistogram p)
  | some (.summary s) => s.dataPoints.map fun p => metric.entry .summary none none (.summary p)
  | none => []

def scopeEntries (resourceMetrics : ResourceMetrics) (scopeMetrics : ScopeMetrics) (metric : Metric) :
    List (InContext MetricEntry) :=
  metric.entries.map fun entry =>
    { resource := resourceMetrics.resource, resourceSchemaUrl := resourceMetrics.schemaUrl
      scope := scopeMetrics.scope, scopeSchemaUrl := scopeMetrics.schemaUrl, item := entry }

/-- The data points of an export in order, each with all that is said about it. -/
def metricEntries (data : MetricsData) : List (InContext MetricEntry) :=
  data.resourceMetrics.flatMap fun rm => rm.scopeMetrics.flatMap fun sm => sm.metrics.flatMap (scopeEntries rm sm)

variable {env : Externals}

/-- A row whose payload is the entry, and whose columns say so. -/
structure MetricRow.Holds (env : Externals) (row : MetricRow) (entry : InContext MetricEntry) : Prop where
  payload : ∃ data, env.metrics.decode row.payload = some data ∧ metricEntries data = [entry]
  metricType : row.metricType = entry.item.kind.text
  time : row.time = entry.item.point.time.toNat

/-- A point in a metric of its own, beside what it was in its metric. -/
structure FlatPoint.Carries (point : FlatPoint) (entry : MetricEntry) : Prop where
  entries : point.metric.entries = [entry]
  metricType : metricTypeStr point.metric = some entry.kind.text
  time : point.time = entry.point.time

lemma flattenMetric_carries (metric : Metric) :
    List.Forall₂ FlatPoint.Carries (flattenMetric metric) metric.entries := by
  obtain ⟨name, description, unit, metadata, data⟩ := metric
  match data with
  | none => exact .nil
  | some (.gauge g) => exact forall₂_map_same (fun _ => ⟨rfl, rfl, rfl⟩) g.dataPoints
  | some (.sum s) => exact forall₂_map_same (fun _ => ⟨rfl, rfl, rfl⟩) s.dataPoints
  | some (.histogram h) => exact forall₂_map_same (fun _ => ⟨rfl, rfl, rfl⟩) h.dataPoints
  | some (.exponentialHistogram h) => exact forall₂_map_same (fun _ => ⟨rfl, rfl, rfl⟩) h.dataPoints
  | some (.summary s) => exact forall₂_map_same (fun _ => ⟨rfl, rfl, rfl⟩) s.dataPoints

/-- An entry and a point in the same context. -/
structure PointCarries (x : InContext FlatPoint) (entry : InContext MetricEntry) : Prop where
  resource : x.resource = entry.resource
  resourceSchemaUrl : x.resourceSchemaUrl = entry.resourceSchemaUrl
  scope : x.scope = entry.scope
  scopeSchemaUrl : x.scopeSchemaUrl = entry.scopeSchemaUrl
  item : x.item.Carries entry.item

lemma pointItems_carries (data : MetricsData) :
    List.Forall₂ PointCarries (pointItems data) (metricEntries data) := by
  apply forall₂_flatMap_same fun rm => ?_
  apply forall₂_flatMap_same fun sm => ?_
  apply forall₂_flatMap_same fun metric => ?_
  rw [scopeEntries, List.forall₂_map_left_iff, List.forall₂_map_right_iff]
  exact (flattenMetric_carries metric).imp fun _ _ h => ⟨rfl, rfl, rfl, rfl, h⟩

lemma pointItemRow_holds (henv : env.metrics.Lossless) {x : InContext FlatPoint} {entry : InContext MetricEntry}
    (hx : PointCarries x entry) {row : MetricRow} (h : pointItemRow env x = .ok row) : row.Holds env entry := by
  obtain ⟨time, htime, h⟩ := bind_eq_ok.mp h
  obtain ⟨count, -, h⟩ := bind_eq_ok.mp h
  rw [hx.item.metricType] at h
  obtain rfl := Except.ok.inj h
  refine ⟨⟨_, henv _, ?_⟩, rfl, ?_⟩
  · obtain ⟨resource, resourceSchemaUrl, scope, scopeSchemaUrl, item⟩ := entry
    obtain ⟨rfl, rfl, rfl, rfl, hitem⟩ := hx
    simp only [metricEntries, metricSingletonPayload, List.flatMap_singleton, scopeEntries, hitem.entries,
      List.map_singleton]
  · rw [← hx.item.time]
    exact (u64ToI64_eq_ok htime).1

lemma writeMetrics_holds (henv : env.metrics.Lossless) {server : Server MetricRow} {data : MetricsData}
    {t : MetricsTable} {n : ℕ} (h : (writeMetrics env server data t).1 = .ok n) :
    n = (metricEntries data).length ∧ ∃ rows,
      IdentityTable.contents (writeMetrics env server data t).2 = IdentityTable.contents t ++ rows ∧
        List.Forall₂ (MetricRow.Holds env) rows (metricEntries data) := by
  obtain ⟨rows, hrows, rfl, htable, -⟩ := writeMetrics_eq_ok h
  have hholds : List.Forall₂ (MetricRow.Holds env) rows (metricEntries data) := by
    have hrow : ∀ x entry row, PointCarries x entry → pointItemRow env x = .ok row → MetricRow.Holds env row entry :=
      fun _ _ _ hx h => pointItemRow_holds henv hx h
    have hentries := forall₂_trans hrow (pointItems_carries data) (mapM_eq_ok_iff.mp hrows)
    exact hentries.flip
  refine ⟨hholds.length_eq, rows, ?_, hholds⟩
  rw [htable, IdentityTable.contents_insertAll]

lemma u64ToI64_eq_error {value : UInt64} {name : String} {e : Error} (h : u64ToI64 value name = .error e) :
    e = .message (name ++ " exceeds PostgreSQL BIGINT") := by
  unfold u64ToI64 at h
  split at h
  · cases h
  · exact (Except.error.inj h).symm

lemma pointItemRow_eq_error {x : InContext FlatPoint} (hdata : (metricTypeStr x.item.metric).isSome) {e : Error}
    (h : pointItemRow env x = .error e) :
    e = .message "metric timestamp exceeds PostgreSQL BIGINT" ∨
      e = .message "metric count exceeds PostgreSQL BIGINT" := by
  obtain ⟨metricType, hmetricType⟩ := Option.isSome_iff_exists.mp hdata
  unfold pointItemRow metricRow at h
  rw [hmetricType] at h
  rcases bind_eq_error.mp h with htime | ⟨time, -, h⟩
  · exact .inl (u64ToI64_eq_error htime)
  · rcases bind_eq_error.mp h with hcount | ⟨count, -, h⟩
    · exact .inr (u64ToI64_eq_error hcount)
    · cases h

lemma ne_has_no_data {text : String} (hlast : text.toList.getLast? = some 'T') (name : String) :
    text ≠ "metric " ++ name ++ " has no data" := by
  rintro rfl
  rw [String.toList_append, List.getLast?_append] at hlast
  cases hlast

/-- No data point is without its data. -/
lemma collectMetrics_has_data (data : MetricsData) (name : String) :
    collectMetrics env data ≠ .error (.message ("metric " ++ name ++ " has no data")) := by
  rw [collectMetrics_eq_mapM]
  intro h
  obtain ⟨x, hx, herror⟩ := exists_of_mapM_eq_error h
  have hdata : (metricTypeStr x.item.metric).isSome := by
    obtain ⟨i, hi, rfl⟩ := List.getElem_of_mem hx
    obtain ⟨hlen, hget⟩ := List.forall₂_iff_get.mp (pointItems_carries data)
    exact Option.isSome_of_eq_some (hget i hi (hlen ▸ hi)).item.metricType
  rcases pointItemRow_eq_error hdata herror with heq | heq
  · exact ne_has_no_data (by decide) name (Error.message.inj heq).symm
  · exact ne_has_no_data (by decide) name (Error.message.inj heq).symm

lemma holds_of_reachable (henv : env.metrics.Lossless) {s : Store} (hs : s.Reachable env) :
    ∀ p ∈ s.metricPoints.rows, ∃ entry, p.row.Holds env entry := by
  have hitems : RowProperty.OfItems { point := fun row => ∃ entry, row.Holds env entry } env := by
    refine ⟨fun _ _ => trivial, fun _ => trivial, fun {data} x hx row h => ?_⟩
    obtain ⟨i, hi, rfl⟩ := List.getElem_of_mem hx
    obtain ⟨hlen, hget⟩ := List.forall₂_iff_get.mp (pointItems_carries data)
    exact ⟨_, pointItemRow_holds henv (hget i hi (hlen ▸ hi)) h⟩
  exact (hitems.ofStore hs).metricPoints

section Find

variable {window order : OrderBy StoredPoint NotLater} {query : MetricQueryParameters}
  {conditions : MetricConditions} {t : MetricsTable}

variable (window order) in
/-- Where no series is above its budget, all points come back. -/
lemma findPoints_of_fit (hconditions : metricConditions query = .ok conditions)
    (hfit : ∀ p ∈ conditions.points t,
      (partitionOf env.floatDigits (conditions.points t) p).length ≤ requestedPoints query)
    (hcap : (conditions.points t).length ≤ maxMetricRows) :
    findPoints env none window order query t = .ok (order.sort (conditions.points t)) := by
  have hsampled := sampledPoints_of_fit window hfit
  have hrows : (order.sort (conditions.points t)).Nodup :=
    ((order.sort_perm _).nodup_iff).mpr (conditions.nodup_points t).of_map
  rw [findPoints_eq order hconditions (by rwa [hsampled]), hsampled,
    selected_of_fit (order.sort_perm (conditions.points t)) hrows hfit]

lemma findMetrics_stream {payloads : List Bytes} (h : findMetrics env none window order query t = .ok payloads) :
    MetricReader.findMetrics env none window order (some query) t = .ok (streamChunks payloads (mergeMetrics env)) := by
  change ((findMetrics env none window order query t).mapError invalidOrInternal >>=
    fun payloads => pure (streamChunks payloads (mergeMetrics env))) = _
  rw [h]
  rfl

/-- What a payload is taken apart into. -/
def payloadEntries (env : Externals) (payload : Bytes) : List (InContext MetricEntry) :=
  ((env.metrics.decode payload).map metricEntries).getD []

lemma MetricRow.Holds.payloadEntries {row : MetricRow} {entry : InContext MetricEntry} (h : row.Holds env entry) :
    (env.metrics.decode row.payload).isSome ∧ payloadEntries env row.payload = [entry] := by
  obtain ⟨data, hdecode, hentries⟩ := h.payload
  rw [OtelviewPostgres.payloadEntries, hdecode]
  exact ⟨rfl, hentries⟩

lemma exists_mergeMetrics {group : List Bytes} (h : ∀ payload ∈ group, (env.metrics.decode payload).isSome) :
    ∃ message, mergeMetrics env group = .ok message ∧ metricEntries message = group.flatMap (payloadEntries env) := by
  obtain ⟨out, hout, hentries⟩ := exists_merged (f := MetricsData.resourceMetrics) h []
  refine ⟨{ resourceMetrics := out }, ?_, ?_⟩
  · rw [mergeMetrics, hout]
    rfl
  · exact hentries _

/-- The points of a search are streamed, each once and in its place. -/
lemma findMetrics_of_points (henv : env.metrics.Lossless) {s : Store} (hs : s.Reachable env) {points : List StoredPoint}
    (hpoints : ∀ p ∈ points, p ∈ s.metricPoints.rows)
    (hfind : findPoints env none window order query s.metricPoints = .ok points) :
    ∃ entries messages, List.Forall₂ (fun p entry => MetricRow.Holds env p.row entry) points entries ∧
      MetricReader.findMetrics env none window order (some query) s.metricPoints = .ok (messages.map .ok) ∧
      StreamsItems metricEntries entries messages := by
  have hholds : ∀ p ∈ points, ∃ entry, MetricRow.Holds env p.row entry := fun p hp =>
    holds_of_reachable henv hs p (hpoints p hp)
  obtain ⟨entries, hentries⟩ := exists_forall₂ hholds
  have hdecode : ∀ payload ∈ points.map fun p => p.row.payload,
      (env.metrics.decode payload).isSome ∧ (payloadEntries env payload).length = 1 := by
    intro payload hpayload
    obtain ⟨p, hp, rfl⟩ := List.mem_map.mp hpayload
    obtain ⟨entry, hentry⟩ := hholds p hp
    obtain ⟨hsome, heq⟩ := hentry.payloadEntries
    rw [heq]
    exact ⟨hsome, rfl⟩
  obtain ⟨messages, hmessages, hstream⟩ := streamChunks_eq metricEntries (payloadEntries env)
    (fun group hgroup => exists_mergeMetrics fun payload hpayload => (hdecode payload (hgroup hpayload)).1)
    fun payload hpayload => (hdecode payload hpayload).2
  have hflat : (points.map fun p => p.row.payload).flatMap (payloadEntries env) = entries := by
    apply flatMap_eq_of_forall₂
    rw [List.forall₂_map_left_iff]
    exact hentries.imp fun _ _ h => h.payloadEntries.2
  rw [hflat] at hstream
  refine ⟨entries, messages, hentries, ?_, hstream⟩
  rw [findMetrics_stream (findMetrics_eq hfind), hmessages]

/-- A search that thins out no series streams its points, each once and in order of time. -/
lemma findMetrics_of_fit (henv : env.metrics.Lossless) {s : Store} (hs : s.Reachable env)
    (hconditions : metricConditions query = .ok conditions)
    (hfit : ∀ p ∈ conditions.points s.metricPoints,
      (partitionOf env.floatDigits (conditions.points s.metricPoints) p).length ≤ requestedPoints query)
    (hcap : (conditions.points s.metricPoints).length ≤ maxMetricRows) :
    ∃ points entries messages, points.Perm (conditions.points s.metricPoints) ∧ points.Pairwise NotLater ∧
      List.Forall₂ (fun p entry => MetricRow.Holds env p.row entry) points entries ∧
      MetricReader.findMetrics env none window order (some query) s.metricPoints = .ok (messages.map .ok) ∧
      StreamsItems metricEntries entries messages := by
  have hrows : ∀ p ∈ order.sort (conditions.points s.metricPoints), p ∈ s.metricPoints.rows := fun p hp =>
    (List.mem_filter.mp ((order.mem_sort _ p).mp hp)).1
  obtain ⟨entries, messages, hentries, hfind, hstream⟩ :=
    findMetrics_of_points henv hs hrows (findPoints_of_fit window order hconditions hfit hcap)
  exact ⟨_, entries, messages, order.sort_perm _, order.pairwise_sort _, hentries, hfind, hstream⟩

end Find

/-- An export is stored point by point without loss and never for want of data, and a search
that thins out no series streams each point it matches once, in order of time. -/
theorem metrics_read_back (env : Externals) (henv : env.metrics.Lossless) :
    (∀ (server : Server MetricRow) (data : MetricsData) (t : MetricsTable) (n : ℕ),
      (writeMetrics env server data t).1 = .ok n →
        n = (metricEntries data).length ∧ ∃ rows,
          IdentityTable.contents (writeMetrics env server data t).2 = IdentityTable.contents t ++ rows ∧
            List.Forall₂ (MetricRow.Holds env) rows (metricEntries data)) ∧
    (∀ (data : MetricsData) (name : String),
      collectMetrics env data ≠ .error (.message ("metric " ++ name ++ " has no data"))) ∧
    ∀ s : Store, s.Reachable env → ∀ (window order : OrderBy StoredPoint NotLater) (query : MetricQueryParameters)
      (conditions : MetricConditions), metricConditions query = .ok conditions →
        (∀ p, p ∈ conditions.points s.metricPoints ↔ p ∈ s.metricPoints.rows ∧ query.Matches p.row) ∧
        ((∀ p ∈ conditions.points s.metricPoints,
            (partitionOf env.floatDigits (conditions.points s.metricPoints) p).length ≤ requestedPoints query) →
          (conditions.points s.metricPoints).length ≤ maxMetricRows →
            ∃ points entries messages, points.Perm (conditions.points s.metricPoints) ∧ points.Pairwise NotLater ∧
              List.Forall₂ (fun p entry => MetricRow.Holds env p.row entry) points entries ∧
              MetricReader.findMetrics env none window order (some query) s.metricPoints = .ok (messages.map .ok) ∧
              StreamsItems metricEntries entries messages) := by
  refine ⟨fun server data t n h => writeMetrics_holds henv h, collectMetrics_has_data, ?_⟩
  intro s hs window order query conditions hconditions
  exact ⟨mem_points_iff query s.metricPoints hconditions, findMetrics_of_fit henv hs hconditions⟩

noncomputable def countingMetrics : Externals := { Externals.inert with metrics := .counting MetricsData }

def metricOf (name : String) (data : MetricData) : Metric := { name, data := some data }

def fiveKinds : MetricsData where
  resourceMetrics := [{ scopeMetrics := [{ metrics := [
    metricOf "a" (.gauge { dataPoints := [{ timeUnixNano := 1 }] }),
    metricOf "b" (.sum { dataPoints := [{ timeUnixNano := 3 }, { timeUnixNano := 2 }], aggregationTemporality := 2 }),
    metricOf "c" (.histogram { dataPoints := [{ timeUnixNano := 4 }] }),
    metricOf "d" (.exponentialHistogram { dataPoints := [{ timeUnixNano := 5 }] }),
    metricOf "e" (.summary { dataPoints := [{ timeUnixNano := 6 }] })] }] }]

/-- The store after one export. -/
noncomputable def afterFiveKinds : Store := { metricPoints := (writeMetrics countingMetrics {} fiveKinds ∅).2 }

theorem five_kinds_read_back :
    (∃ rows, IdentityTable.contents afterFiveKinds.metricPoints = rows ∧
      List.Forall₂ (MetricRow.Holds countingMetrics) rows (metricEntries fiveKinds)) ∧
    ∃ (points : List StoredPoint) (entries : List (InContext MetricEntry)) (messages : List MetricsData),
      List.Forall₂ (fun p entry => MetricRow.Holds countingMetrics p.row entry) points entries ∧
      MetricReader.findMetrics countingMetrics none (.stable NotLater) (.stable NotLater) (some { metricName := "b" })
        afterFiveKinds.metricPoints = .ok (messages.map .ok) ∧
      StreamsItems metricEntries entries messages := by
  obtain ⟨hwrite, -, hfind⟩ := metrics_read_back countingMetrics (Codec.lossless_counting MetricsData)
  obtain ⟨-, rows, hrows, hholds⟩ := hwrite {} fiveKinds ∅ 6 rfl
  obtain ⟨-, hfit⟩ := hfind afterFiveKinds (.writeMetrics {} fiveKinds .empty) (.stable NotLater) (.stable NotLater)
    { metricName := "b" } { metricName := "b", serviceName := none, timeMin := none, timeMax := none } rfl
  obtain ⟨points, entries, messages, -, -, hentries, hstream, hitems⟩ := hfit (by decide) (by decide)
  exact ⟨⟨rows, hrows, hholds⟩, points, entries, messages, hentries, hstream, hitems⟩

end OtelviewPostgres
