import OtelviewPostgres.Proofs.ListingRace
import OtelviewPostgres.Proofs.MetricReadback
import OtelviewPostgres.Proofs.NewestPoint
import OtelviewPostgres.Proofs.TraceSearches

/-!
# Asking for what is listed

Every name that a listing returns can be asked for, except the empty one: a search reads an
empty service or operation as no filter, and the calls that need a name refuse it.
-/

namespace OtelviewPostgres

open Relational

section Names

variable (env : Externals) {c : Collation} {t : SpansTable} (service operation : String)

/-- The conditions of a search for a service and an operation. -/
def nameConditions : List SpanCondition :=
  (if service.isEmpty then [] else [.serviceName service]) ++
    if operation.isEmpty then [] else [.operationName operation]

lemma applyQuery_names (depth : Int32) :
    applyQuery { serviceName := service, operationName := operation, searchDepth := depth } =
      .ok (nameConditions service operation) := by
  have happly : applyQuery { serviceName := service, operationName := operation, searchDepth := depth } =
      .ok (nameConditions service operation ++ [] ++ [] ++ [] ++ [] ++ []) := rfl
  rw [happly]
  simp only [List.append_nil]

/-- An empty name holds of every row. -/
lemma nameConditions_hold_iff (row : SpanRow) :
    (∀ condition ∈ nameConditions service operation, condition.holds env row = true) ↔
      (service ≠ "" → row.service = service) ∧ (operation ≠ "" → row.operation = operation) := by
  rw [nameConditions, List.forall_mem_append]
  apply and_congr
  · by_cases h : service = ""
    · simp [h]
    · simp [h, SpanCondition.holds]
  · by_cases h : operation = ""
    · simp [h]
    · simp [h, SpanCondition.holds]

lemma searchDepth_pos (maxSearchDepth : ℕ) (requested : Int32) : 0 < searchDepth maxSearchDepth requested := by
  unfold searchDepth
  have hrequested : 0 < if requested ≤ 0 then 20 else requested.toInt.toNat := by
    split
    · decide
    · rename_i hpos
      have hlt : 0 < requested.toInt := by
        rw [Int32.le_iff_toInt_le] at hpos
        exact not_le.mp hpos
      omega
  exact lt_min_iff.mpr ⟨hrequested, lt_max_of_lt_right Nat.one_pos⟩

lemma listedTraces_ne_nil {groups : OrderBy TraceGroup TraceGroup.NotOlder} {limit : ℕ}
    {conditions : List SpanCondition} {row : SpanRow} (hlimit : 0 < limit) (hrow : row ∈ t.rows)
    (hall : ∀ condition ∈ conditions, condition.holds env row = true) :
    listedTraces env groups limit conditions t ≠ [] := by
  obtain ⟨g, hg, -⟩ := mem_matchingTraces hrow hall
  obtain ⟨g', hg'⟩ := groups.exists_mem_take_sort hg hlimit
  exact List.ne_nil_of_mem (List.mem_map_of_mem hg')

variable {service}

lemma exists_row_of_mem_services {order : OrderBy SpanRow (ColumnLe c.lt SpanRow.service)} {listed : List String}
    (h : TraceReader.getServices none order t = .ok listed) (hservice : service ∈ listed) :
    ∃ row ∈ t.rows, row.service = service := by
  rw [TraceReader.getServices, mapError_eq_ok, services, distinctIndexed, distinctValues_eq] at h
  obtain rfl := Except.ok.inj h
  exact (mem_selectDistinct t.rows service).mp hservice

/-- The operations of a service are those of its rows. -/
lemma getOperations_eq (order : OrderBy SpanRow (ColumnLe c.lt SpanRow.operation)) (hne : service ≠ "")
    (hservice : ∃ row ∈ t.rows, row.service = service) :
    ∃ listed, TraceReader.getOperations none order service "" t = .ok listed ∧ listed ≠ [] ∧
      ∀ operation ∈ listed, ∃ row ∈ t.rows, row.service = service ∧ row.operation = operation.name := by
  obtain ⟨row, hrow, heq⟩ := hservice
  obtain ⟨walk, -, hwalk, hlisted⟩ := operations_eq order service "" t
  refine ⟨walk.map fun row => { name := row.operation, spanKind := row.kind }, ?_, ?_, ?_⟩
  · rw [TraceReader.getOperations, if_neg (by simpa using hne), hlisted]
    rfl
  · have hmem : row ∈ operationRows service "" t := mem_operationRows.mpr ⟨hrow, heq, fun h => absurd rfl h⟩
    obtain ⟨row', hrow', -⟩ := hwalk.complete row hmem (by rintro _ ⟨⟩)
    rw [Ne, List.map_eq_nil_iff]
    exact List.ne_nil_of_mem hrow'
  · intro operation hoperation
    obtain ⟨row', hrow', rfl⟩ := List.mem_map.mp hoperation
    obtain ⟨hstored, hservice, -⟩ := mem_operationRows.mp (hwalk.mem row' hrow').1
    exact ⟨row', hstored, hservice, rfl⟩

variable {operation} (maxSearchDepth : ℕ)

/-- A search for the service and the operation of a row finds traces, all of which have such rows. -/
lemma findTraceIDs_names {search : TraceSearch} (hsearch : search.Answered) (depth : Int32)
    (hrow : ∃ row ∈ t.rows, row.service = service ∧ row.operation = operation) :
    ∃ found, TraceReader.findTraceIDs env maxSearchDepth search
        (some { serviceName := service, operationName := operation, searchDepth := depth }) t = .ok found ∧
      found ≠ [] ∧ ∀ trace ∈ found, ∃ row ∈ t.rows, row.traceId = trace.traceId ∧
        (service ≠ "" → row.service = service) ∧ (operation ≠ "" → row.operation = operation) := by
  obtain ⟨found, hfound, hids⟩ :=
    searchIds_eq env maxSearchDepth t hsearch.findFault (applyQuery_names service operation depth)
  refine ⟨found, hfound, ?_, fun trace htrace => ?_⟩
  · obtain ⟨row, hrow, hservice, hoperation⟩ := hrow
    have hhold := (nameConditions_hold_iff env service operation row).mpr ⟨fun _ => hservice, fun _ => hoperation⟩
    rintro rfl
    exact listedTraces_ne_nil env (searchDepth_pos maxSearchDepth depth) hrow hhold hids.symm
  · have hlisted := List.mem_map_of_mem (f := FoundTraceId.traceId) htrace
    rw [hids] at hlisted
    obtain ⟨row, hrow, hid, hhold⟩ := exists_of_mem_listedTraces hlisted
    exact ⟨row, hrow, hid, (nameConditions_hold_iff env service operation row).mp hhold⟩

end Names

section Metrics

variable {env : Externals} {c : Collation} {t : MetricsTable} {name : String}

lemma exists_point_of_mem_listMetrics {order : OrderBy StoredPoint (ColumnLe c.lt fun p => p.row.name)}
    {lookups : ℕ → MetricLookup c} {completion : AnyOrder (String × ℕ)} {infos : List MetricInfo} {info : MetricInfo}
    (h : MetricReader.listMetrics none order lookups completion t = .ok infos) (hinfo : info ∈ infos) :
    ∃ p ∈ t.rows, p.row.name = info.name := by
  have hlisted : listMetrics none order lookups completion t (fun _ => t) (fun _ => t) = .ok infos :=
    mapError_eq_ok.mp h
  have hname : info.name ∈ selectDistinct c.lt (fun p : StoredPoint => p.row.name) t.rows := by
    rw [← map_name_of_listMetrics order lookups t hlisted]
    exact List.mem_map_of_mem hinfo
  exact (mem_selectDistinct t.rows info.name).mp hname

/-- A search for the name of a stored point streams some points. -/
lemma findMetrics_name (henv : env.metrics.Lossless) {s : Store} (hs : s.Reachable env)
    (window order : OrderBy StoredPoint NotLater) (maxPoints : Int32) (hne : name ≠ "")
    (hpoint : ∃ p ∈ s.metricPoints.rows, p.row.name = name) :
    ∃ entries messages, MetricReader.findMetrics env none window order (some { metricName := name, maxPoints })
        s.metricPoints = .ok (messages.map .ok) ∧ StreamsItems metricEntries entries messages ∧ entries ≠ [] := by
  obtain ⟨p, hp, rfl⟩ := hpoint
  have hconditions : metricConditions { metricName := p.row.name, maxPoints } =
      .ok { metricName := p.row.name, serviceName := none, timeMin := none, timeMax := none } := by
    rw [metricConditions, if_neg (by simpa using hne)]
    rfl
  have hmem : p ∈ MetricConditions.points
      { metricName := p.row.name, serviceName := none, timeMin := none, timeMax := none } s.metricPoints :=
    List.mem_filter.mpr ⟨hp, by simp [MetricConditions.holds]⟩
  obtain ⟨q, hq⟩ := exists_found_point env window order { metricName := p.row.name, maxPoints } hmem
  obtain ⟨entries, messages, hentries, hfind, hstream⟩ := findMetrics_of_points henv hs
    (fun q hq => (List.mem_filter.mp (mem_points_of_mem_metricRows ((selectByGroup_sublist _ _).subset hq))).1)
    (findPoints_eq_selected env window order s.metricPoints hconditions)
  refine ⟨entries, messages, hfind, hstream, ?_⟩
  rw [← List.length_pos_iff_ne_nil, ← hentries.length_eq, List.length_pos_iff_ne_nil]
  exact List.ne_nil_of_mem hq

end Metrics

/-- A listed service that is not empty has operations, and a search for the service and one of
them finds traces, all of which have a span of the service with the operation, if that is not
empty. A search for a listed metric whose name is not empty returns points. -/
theorem listed_names_found (env : Externals) (henv : env.metrics.Lossless) {s : Store} (hs : s.Reachable env)
    (c : Collation) (maxSearchDepth : ℕ) :
    (∀ (serviceOrder : OrderBy SpanRow (ColumnLe c.lt SpanRow.service)) (listed : List String),
      TraceReader.getServices none serviceOrder s.spans = .ok listed → ∀ service ∈ listed, service ≠ "" →
        ∀ operationOrder : OrderBy SpanRow (ColumnLe c.lt SpanRow.operation), ∃ operations,
          TraceReader.getOperations none operationOrder service "" s.spans = .ok operations ∧ operations ≠ [] ∧
          ∀ operation ∈ operations, ∀ (search : TraceSearch) (depth : Int32), search.Answered → ∃ found,
            TraceReader.findTraceIDs env maxSearchDepth search
              (some { serviceName := service, operationName := operation.name, searchDepth := depth }) s.spans =
                .ok found ∧
            found ≠ [] ∧ ∀ trace ∈ found, ∃ row ∈ s.spans.rows, row.traceId = trace.traceId ∧
              row.service = service ∧ (operation.name ≠ "" → row.operation = operation.name)) ∧
    ∀ (nameOrder : OrderBy StoredPoint (ColumnLe c.lt fun p => p.row.name)) (lookups : ℕ → MetricLookup c)
      (completion : AnyOrder (String × ℕ)) (infos : List MetricInfo),
      MetricReader.listMetrics none nameOrder lookups completion s.metricPoints = .ok infos →
        ∀ info ∈ infos, info.name ≠ "" → ∀ (window order : OrderBy StoredPoint NotLater) (maxPoints : Int32),
          ∃ entries messages,
            MetricReader.findMetrics env none window order (some { metricName := info.name, maxPoints })
              s.metricPoints = .ok (messages.map .ok) ∧
            StreamsItems metricEntries entries messages ∧ entries ≠ [] := by
  refine ⟨?_, ?_⟩
  · intro serviceOrder listed hlisted service hservice hne operationOrder
    obtain ⟨operations, hoperations, hnil, hrows⟩ :=
      getOperations_eq operationOrder hne (exists_row_of_mem_services hlisted hservice)
    refine ⟨operations, hoperations, hnil, fun operation hoperation search depth hsearch => ?_⟩
    obtain ⟨found, hfound, hfoundnil, htraces⟩ :=
      findTraceIDs_names env maxSearchDepth hsearch depth (hrows operation hoperation)
    refine ⟨found, hfound, hfoundnil, fun trace htrace => ?_⟩
    obtain ⟨row, hrow, hid, hrowservice, hrowoperation⟩ := htraces trace htrace
    exact ⟨row, hrow, hid, hrowservice hne, hrowoperation⟩
  · intro nameOrder lookups completion infos hinfos info hinfo hne window order maxPoints
    exact findMetrics_name henv hs window order maxPoints hne (exists_point_of_mem_listMetrics hinfos hinfo)

noncomputable def namedStore : Store where
  spans := (write countingMetrics {} (exportOf [spanOf 1 "a" 5]) ∅).2
  metricPoints := (writeMetrics countingMetrics {} fiveKinds ∅).2

theorem listed_names_found_named :
    (∃ operations, TraceReader.getOperations none (.stable (ColumnLe Collation.codePoints.lt SpanRow.operation))
        "unknown_service" "" namedStore.spans = .ok operations ∧ operations ≠ []) ∧
      ∃ entries messages, MetricReader.findMetrics countingMetrics none (.stable NotLater) (.stable NotLater)
          (some { metricName := "b" }) namedStore.metricPoints = .ok (messages.map .ok) ∧
        StreamsItems metricEntries entries messages ∧ entries ≠ [] := by
  obtain ⟨hservices, hmetrics⟩ := listed_names_found countingMetrics (Codec.lossless_counting MetricsData)
    (.writeMetrics {} fiveKinds (.write {} (exportOf [spanOf 1 "a" 5]) .empty) : namedStore.Reachable countingMetrics)
    .codePoints 20
  obtain ⟨operations, hoperations, hnil, -⟩ := hservices (.stable _) ["unknown_service"] rfl "unknown_service"
    List.mem_cons_self (by decide) (.stable _)
  refine ⟨⟨operations, hoperations, hnil⟩, ?_⟩
  exact hmetrics (.stable _) (fun _ => .first) .unchanged _ rfl _ (List.mem_cons_of_mem _ List.mem_cons_self)
    (by decide) (.stable NotLater) (.stable NotLater) 0

/-- Spans of a service without a name, and of an operation without a name. -/
def unnamedSpans : TracesData where
  resourceSpans := [
    { resource := some { attributes := [⟨"service.name", some (.stringValue "")⟩] }
      scopeSpans := [{ spans := [spanOf 1 "a" 5] }] },
    { scopeSpans := [{ spans := [spanOf 2 "" 5, spanOf 3 "c" 6] }] }]

def unnamedMetric : MetricsData where
  resourceMetrics := [{ scopeMetrics := [{
    metrics := [metricOf "" (.gauge { dataPoints := [{ timeUnixNano := 1 }] })] }] }]

def unnamedStore : Store where
  spans := (write .inert {} unnamedSpans ∅).2
  metricPoints := (writeMetrics .inert {} unnamedMetric ∅).2

/-- The empty names are accepted and listed. An empty service or metric is refused, and a search for an
empty operation finds traces without it. -/
theorem unnamed_not_found :
    (write .inert {} unnamedSpans ∅).1 = .ok (0, []) ∧ (writeMetrics .inert {} unnamedMetric ∅).1 = .ok 1 ∧
    TraceReader.getServices none (.stable (ColumnLe Collation.codePoints.lt SpanRow.service)) unnamedStore.spans =
      .ok ["", "unknown_service"] ∧
    TraceReader.getOperations none (.stable (ColumnLe Collation.codePoints.lt SpanRow.operation)) "" ""
      unnamedStore.spans = .error (invalidArgument "service is required") ∧
    (∃ operations found, TraceReader.getOperations none
        (.stable (ColumnLe Collation.codePoints.lt SpanRow.operation)) "unknown_service" "" unnamedStore.spans =
          .ok operations ∧
      operations.map Operation.name = ["", "c"] ∧
      TraceReader.findTraceIDs .inert 20 .stable (some { serviceName := "unknown_service", operationName := "" })
        unnamedStore.spans = .ok found ∧
      found.map FoundTraceId.traceId = [.replicate 16 3, .replicate 16 2] ∧
      ∀ row ∈ unnamedStore.spans.rows, row.traceId = .replicate 16 3 → row.operation = "c") ∧
    (∃ infos, MetricReader.listMetrics none
        (.stable (ColumnLe Collation.codePoints.lt fun p : StoredPoint => p.row.name)) (fun _ => .first) .unchanged
        unnamedStore.metricPoints = .ok infos ∧ infos.map MetricInfo.name = [""]) ∧
    MetricReader.findMetrics .inert none (.stable NotLater) (.stable NotLater) (some { metricName := "" })
      unnamedStore.metricPoints = .error (invalidArgument "metric_name is required") := by
  refine ⟨rfl, rfl, rfl, rfl, ⟨_, _, rfl, rfl, rfl, rfl, by decide⟩, ⟨_, rfl, rfl⟩, rfl⟩

end OtelviewPostgres
