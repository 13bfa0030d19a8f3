import OtelviewPostgres.Model.Search
import OtelviewPostgres.Proofs.SpanIngest

/-!
# Finding a span by its own data

The search encodes attribute values on its own, for a value type of its own. On values of
the same shape both encoders give the same JSON, so a row satisfies every condition that is
true of its span, and the trace is listed unless the search depth cuts it off.
-/

namespace OtelviewPostgres

open Relational

mutual

/-- The search value of the same shape, where there is one: string-table indices have none. -/
def AnyValue.toQuery : AnyValue → Option QueryValue
  | .unset => some .unset
  | .stringValue v => some (.stringValue v)
  | .stringValueStrindex _ => none
  | .boolValue v => some (.boolValue v)
  | .intValue v => some (.intValue v)
  | .doubleValue v => some (.doubleValue v)
  | .bytesValue v => some (.bytesValue v)
  | .arrayValue values => (elemsToQuery values).map .arrayValue
  | .kvlistValue values => (entriesToQuery values).map .kvlistValue
termination_by structural v => v

def AnyValue.elemsToQuery : List AnyValue → Option (List QueryValue)
  | [] => some []
  | v :: vs => (toQuery v).bind fun w => (elemsToQuery vs).map (w :: ·)
termination_by structural v => v

def AnyValue.entriesToQuery : List KeyValue → Option (List (KeyValueOf QueryValue))
  | [] => some []
  | kv :: kvs => (entryToQuery kv).bind fun kw => (entriesToQuery kvs).map (kw :: ·)
termination_by structural v => v

def AnyValue.entryToQuery : KeyValue → Option (KeyValueOf QueryValue)
  | ⟨key, value⟩ => (optionToQuery value).map fun w => ⟨key, w⟩
termination_by structural v => v

/-- A missing value stays missing. -/
def AnyValue.optionToQuery : Option AnyValue → Option (Option QueryValue)
  | none => some none
  | some v => (toQuery v).map some
termination_by structural v => v

end

section Encoders

open AnyValue

lemma queryOptionToJson_eq {o : Option AnyValue} {p : Option QueryValue}
    (ih : ∀ v ∈ o, ∀ w, toQuery v = some w → queryValueToJson w = otelValueToJson v)
    (h : optionToQuery o = some p) : queryOptionToJson p = otelOptionToJson o := by
  cases o with
  | none =>
    cases h
    rfl
  | some v =>
    obtain ⟨w, hw, rfl⟩ := Option.map_eq_some_iff.mp h
    exact ih v rfl w hw

lemma queryValuesToJson_eq {vs : List AnyValue} {ws : List QueryValue}
    (ih : ∀ v ∈ vs, ∀ w, toQuery v = some w → queryValueToJson w = otelValueToJson v)
    (h : elemsToQuery vs = some ws) : queryValuesToJson ws = otelValuesToJson vs := by
  induction vs generalizing ws with
  | nil =>
    cases h
    rfl
  | cons v vs ihs =>
    obtain ⟨w, hw, h⟩ := Option.bind_eq_some_iff.mp h
    obtain ⟨ws', hws, rfl⟩ := Option.map_eq_some_iff.mp h
    rw [List.forall_mem_cons] at ih
    rw [queryValuesToJson, otelValuesToJson, ih.1 w hw, ihs ih.2 hws]

lemma queryEntriesToJson_eq {kvs : List KeyValue} {kws : List (KeyValueOf QueryValue)}
    (ih : ∀ kv ∈ kvs, ∀ v ∈ kv.value, ∀ w, toQuery v = some w → queryValueToJson w = otelValueToJson v)
    (h : entriesToQuery kvs = some kws) : queryEntriesToJson kws = otelEntriesToJson kvs := by
  induction kvs generalizing kws with
  | nil =>
    cases h
    rfl
  | cons kv kvs ihs =>
    obtain ⟨kw, hkw, h⟩ := Option.bind_eq_some_iff.mp h
    obtain ⟨kws', hkws, rfl⟩ := Option.map_eq_some_iff.mp h
    obtain ⟨key, value⟩ := kv
    obtain ⟨w, hw, rfl⟩ := Option.map_eq_some_iff.mp hkw
    rw [List.forall_mem_cons] at ih
    rw [queryEntriesToJson, otelEntriesToJson, ihs ih.2 hkws, queryEntryToJson, otelEntryToJson,
      queryOptionToJson_eq ih.1 hw]

/-- What is asked for is encoded as what was exported. -/
theorem queryValueToJson_eq (v : AnyValue) :
    ∀ w, toQuery v = some w → queryValueToJson w = otelValueToJson v := by
  induction v using AnyValue.induct with
  | stringValueStrindex v =>
    intro w h
    cases h
  | arrayValue vs ih =>
    intro w h
    obtain ⟨ws, hws, rfl⟩ := Option.map_eq_some_iff.mp h
    rw [queryValueToJson, otelValueToJson, queryValuesToJson_eq ih hws]
  | kvlistValue kvs ih =>
    intro w h
    obtain ⟨kws, hkws, rfl⟩ := Option.map_eq_some_iff.mp h
    rw [queryValueToJson, otelValueToJson, queryEntriesToJson_eq ih hkws]
  | _ =>
    intro w h
    cases h
    rfl

end Encoders

/-- The attribute is the effective one of its key in the list, with a value of the same shape. -/
def AttributeOf (attributes : List KeyValue) (kv : KeyValueOf QueryValue) : Prop :=
  ∃ kv', effectiveAttribute attributes kv.key = some kv' ∧ AnyValue.optionToQuery kv'.value = some kv.value

/-- Every condition that the query gives is true of the span. Its bounds lie in the
nanosecond range. -/
structure TraceQueryParameters.TrueOf (query : TraceQueryParameters) (x : InContext Span) : Prop where
  serviceName : query.serviceName = "" ∨ query.serviceName = resourceService x.resource
  operationName : query.operationName = "" ∨ query.operationName = x.item.name
  startTimeMin : ∀ ts ∈ query.startTimeMin, ∃ n, timestampToNanos ts = .ok n ∧ n ≤ x.item.startTimeUnixNano.toNat
  startTimeMax : ∀ ts ∈ query.startTimeMax, ∃ n, timestampToNanos ts = .ok n ∧ x.item.startTimeUnixNano.toNat < n
  durationMin : ∀ d ∈ query.durationMin, ∃ n, durationToNanos d = .ok n ∧
    (n = 0 ∨ n ≤ (x.item.endTimeUnixNano.toNat : Int) - x.item.startTimeUnixNano.toNat)
  durationMax : ∀ d ∈ query.durationMax, ∃ n, durationToNanos d = .ok n ∧
    (n = 0 ∨ (x.item.endTimeUnixNano.toNat : Int) - x.item.startTimeUnixNano.toNat ≤ n)
  attributes : ∀ kv ∈ query.attributes, AttributeOf x.item.attributes kv ∨
    AttributeOf ((x.resource.map Resource.attributes).getD []) kv ∨
    AttributeOf ((x.scope.map InstrumentationScope.attributes).getD []) kv

section Conditions

variable {env : Externals} {x : InContext Span} {row : SpanRow} {query : TraceQueryParameters}

lemma searched_columns_eq (h : spanItemRow env x = .ok row) :
    row.service = resourceService x.resource ∧ row.operation = x.item.name ∧
      row.duration = (x.item.endTimeUnixNano.toNat : Int) - x.item.startTimeUnixNano.toNat ∧
      row.spanAttributes = attributesToJson x.item.attributes ∧
      row.resourceAttributes = resourceAttributes x.resource ∧ row.scopeAttributes = scopeAttributes x.scope := by
  obtain ⟨hstart, hend, -, -, -⟩ := spanItemRow_eq_ok env h
  unfold spanItemRow spanRow at h
  rw [u64ToI64_of_lt _ hstart, u64ToI64_of_lt _ hend] at h
  cases h
  exact ⟨serviceName_resourceAttributes x.resource, rfl, saturatingSub_times hend hstart, rfl, rfl, rfl⟩

lemma containedIn_of_attributeOf {attributes : List KeyValue} {kv : KeyValueOf QueryValue}
    (h : AttributeOf attributes kv) :
    Json.containedIn env (.object [(kv.key, queryOptionToJson kv.value)]) (attributesToJson attributes) = true := by
  obtain ⟨kv', hkv', hvalue⟩ := h
  have hjson : queryOptionToJson kv.value = otelOptionToJson kv'.value :=
    queryOptionToJson_eq (fun v _ => queryValueToJson_eq v) hvalue
  have hget : (attributesToJson attributes).get kv.key = some (queryOptionToJson kv.value) := by
    rw [mapGet_attributesToJson, hkv', hjson]
    rfl
  exact contains_of_get env.floatDigits hget

lemma timeBound_eq_ok (condition : Int → SpanCondition) {ts : Option Timestamp} {P : Int → Prop}
    (h : ∀ ts' ∈ ts, ∃ n, timestampToNanos ts' = .ok n ∧ P n) :
    ∃ conditions, timeBound ts condition = .ok conditions ∧ ∀ c ∈ conditions, ∃ n, c = condition n ∧ P n := by
  cases ts with
  | none => exact ⟨[], rfl, by simp⟩
  | some ts =>
    obtain ⟨n, hn, hP⟩ := h ts rfl
    refine ⟨[condition n], ?_, ?_⟩
    · rw [timeBound, hn]
      rfl
    · intro c hc
      exact ⟨n, List.mem_singleton.mp hc, hP⟩

lemma durationBound_eq_ok {d : Option Duration} {P : Int → Prop}
    (h : ∀ d' ∈ d, ∃ n, durationToNanos d' = .ok n ∧ (n = 0 ∨ P n)) :
    ∃ bound, durationBound d = .ok bound ∧ ∀ n ∈ bound, P n := by
  cases d with
  | none => exact ⟨none, rfl, by simp⟩
  | some d =>
    obtain ⟨n, hn, hP⟩ := h d rfl
    refine ⟨if n = 0 then none else some n, ?_, ?_⟩
    · rw [durationBound, hn]
      rfl
    · intro m hm
      by_cases h0 : n = 0
      · simp [h0] at hm
      · rw [if_neg h0] at hm
        obtain rfl := Option.some.inj hm
        exact hP.resolve_left h0

/-- The row of a span satisfies every conjunct of a query that is true of the span. -/
theorem applyQuery_holds (h : spanItemRow env x = .ok row) (hquery : query.TrueOf x) :
    ∃ conditions, applyQuery query = .ok conditions ∧ ∀ c ∈ conditions, c.holds env row = true := by
  obtain ⟨-, -, hstart, hend, -⟩ := spanItemRow_eq_ok env h
  obtain ⟨hservice, hoperation, hduration, hspan, hresource, hscope⟩ := searched_columns_eq h
  obtain ⟨startMin, hs1, hstartMin⟩ := timeBound_eq_ok .startTimeMin hquery.startTimeMin
  obtain ⟨startMax, hs2, hstartMax⟩ := timeBound_eq_ok .startTimeMax hquery.startTimeMax
  obtain ⟨durMin, hd1, hdurMin⟩ := durationBound_eq_ok hquery.durationMin
  obtain ⟨durMax, hd2, hdurMax⟩ := durationBound_eq_ok hquery.durationMax
  unfold applyQuery
  rw [hs1, hs2, hd1, hd2]
  refine ⟨_, rfl, ?_⟩
  intro c hc
  simp only [List.mem_append, List.mem_map, Option.mem_toList] at hc
  rcases hc with (((((hc | hc) | hc) | hc) | ⟨n, hn, rfl⟩) | ⟨n, hn, rfl⟩) | ⟨kv, hkv, rfl⟩
  · split at hc
    · cases hc
    · rename_i hne
      obtain rfl := List.mem_singleton.mp hc
      have heq := hquery.serviceName.resolve_left (by simpa using hne)
      simp [SpanCondition.holds, hservice, heq]
  · split at hc
    · cases hc
    · rename_i hne
      obtain rfl := List.mem_singleton.mp hc
      have heq := hquery.operationName.resolve_left (by simpa using hne)
      simp [SpanCondition.holds, hoperation, heq]
  · obtain ⟨n, rfl, hn⟩ := hstartMin c hc
    simpa [SpanCondition.holds, hstart] using hn
  · obtain ⟨n, rfl, hn⟩ := hstartMax c hc
    simpa [SpanCondition.holds, hstart] using hn
  · simpa [SpanCondition.holds, hduration] using hdurMin n hn
  · simpa [SpanCondition.holds, hduration] using hdurMax n hn
  · simp only [SpanCondition.holds, hspan, hresource, hscope, Bool.or_eq_true]
    rcases hquery.attributes kv hkv with hattr | hattr | hattr
    · exact .inl (.inl (containedIn_of_attributeOf hattr))
    · exact .inl (.inr (containedIn_of_attributeOf hattr))
    · exact .inr (containedIn_of_attributeOf hattr)

lemma mem_matchingTraces {conditions : List SpanCondition} {t : SpansTable} (hrow : row ∈ t.rows)
    (hall : ∀ c ∈ conditions, c.holds env row = true) :
    ∃ g ∈ matchingTraces env conditions t, g.traceId = row.traceId := by
  have hmem : row ∈ t.rows.filter fun row => conditions.all fun c => c.holds env row :=
    List.mem_filter.mpr ⟨hrow, List.all_eq_true.mpr hall⟩
  exact ⟨_, List.mem_map_of_mem (List.mem_dedup.mpr (List.mem_map_of_mem hmem)), rfl⟩

lemma eq_of_traceId_eq {conditions : List SpanCondition} {t : SpansTable} {g g' : TraceGroup}
    (hg : g ∈ matchingTraces env conditions t) (hg' : g' ∈ matchingTraces env conditions t)
    (h : g.traceId = g'.traceId) : g = g' := by
  obtain ⟨id, -, rfl⟩ := List.mem_map.mp hg
  obtain ⟨id', -, rfl⟩ := List.mem_map.mp hg'
  obtain rfl : id = id' := h
  rfl

end Conditions

/-- The row of a span satisfies the `WHERE` clause of every query that is true of the span,
and wherever the row is stored, the search lists its trace unless as many other matching
traces as the search depth are at least as new. -/
theorem span_found_by_own_data (env : Externals) (x : InContext Span) (row : SpanRow)
    (hrow : spanItemRow env x = .ok row) (query : TraceQueryParameters) (hquery : query.TrueOf x) :
    ∃ conditions, applyQuery query = .ok conditions ∧ (∀ c ∈ conditions, c.holds env row = true) ∧
      ∀ (t : SpansTable) (maxSearchDepth : ℕ) (order : OrderBy TraceGroup TraceGroup.NotOlder), row ∈ t.rows →
        ∃ found, findIds env maxSearchDepth none order query t = .ok found ∧
          (row.traceId ∈ found.map FoundTraceId.traceId ∨
            ∃ g ∈ matchingTraces env conditions t, g.traceId = row.traceId ∧
              searchDepth maxSearchDepth query.searchDepth ≤ (matchingTraces env conditions t).countP
                (fun g' => g'.traceId ≠ row.traceId ∧ g.newest ≤ g'.newest)) := by
  obtain ⟨conditions, happly, hall⟩ := applyQuery_holds hrow hquery
  refine ⟨conditions, happly, hall, fun t maxSearchDepth order hmem => ?_⟩
  obtain ⟨g, hg, hid⟩ := mem_matchingTraces hmem hall
  refine ⟨_, by rw [findIds, happly]; rfl, ?_⟩
  rcases order.mem_take_sort_or_le hg (searchDepth maxSearchDepth query.searchDepth) with htake | hle
  · left
    rw [List.map_map]
    exact List.mem_map.mpr ⟨g, htake, hid⟩
  · right
    refine ⟨g, hg, hid, hle.trans (le_of_eq ?_)⟩
    apply List.countP_congr
    intro g' hg'
    have hne : g' ≠ g ↔ g'.traceId ≠ row.traceId := by
      rw [← hid, not_iff_not]
      exact ⟨fun h => h ▸ rfl, eq_of_traceId_eq hg' hg⟩
    rw [decide_eq_true_iff, decide_eq_true_iff, hne]
    rfl

/-- A span with two nested attributes, one of them given twice. -/
def nestedSpan : Span :=
  { spanOf 1 "a" 5 with
    attributes := [⟨"k", some (.intValue 1)⟩, ⟨"k", some (.arrayValue [.intValue 2, .kvlistValue [⟨"l", none⟩]])⟩,
      ⟨"b", some (.bytesValue [171])⟩] }

/-- What asks for the span by its operation, a start time and both attributes. -/
def nestedQuery : TraceQueryParameters where
  operationName := "a"
  attributes := [⟨"k", some (.arrayValue [.intValue 2, .kvlistValue [⟨"l", none⟩]])⟩, ⟨"b", some (.bytesValue [171])⟩]
  startTimeMin := some ⟨0, 5⟩
  durationMin := some ⟨0, 0⟩

theorem span_found_by_own_data_nested :
    ∃ row ∈ (write .inert {} (exportOf [nestedSpan]) ∅).2.rows, ∃ conditions,
      applyQuery nestedQuery = .ok conditions ∧ ∀ c ∈ conditions, c.holds .inert row = true := by
  have hquery : nestedQuery.TrueOf ⟨none, "", none, "", nestedSpan⟩ := by
    refine ⟨.inl rfl, .inr rfl, ?_, by simp [nestedQuery], ?_, by simp [nestedQuery], ?_⟩
    · rintro ts ⟨⟩
      exact ⟨5, rfl, by decide⟩
    · rintro d ⟨⟩
      exact ⟨0, rfl, .inl rfl⟩
    · intro kv hkv
      rcases List.mem_cons.mp hkv with rfl | hkv
      · exact .inl ⟨_, rfl, rfl⟩
      · obtain rfl := List.mem_singleton.mp hkv
        exact .inl ⟨_, rfl, rfl⟩
  obtain ⟨conditions, happly, hall, -⟩ :=
    span_found_by_own_data .inert ⟨none, "", none, "", nestedSpan⟩ _ rfl _ hquery
  exact ⟨_, List.mem_singleton_self _, conditions, happly, hall⟩

end OtelviewPostgres
