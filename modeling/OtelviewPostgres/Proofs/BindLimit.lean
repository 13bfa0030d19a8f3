import OtelviewPostgres.Model.Statements
import OtelviewPostgres.Proofs.SpanIngest
import OtelviewPostgres.Proofs.TraceSearches

/-!
# The limit on parameters

The writers chunk their rows and stay within the limit whatever a client exports. The two
statements that read traces bind parameters for each attribute of a query and for each trace
id, and stay within the limit as long as there are not too many of these.
-/

namespace OtelviewPostgres

open Relational

section Inserts

variable {ρ : Type} {values : ρ → List SqlValue} {width : ℕ} {rows : List ρ}

/-- Rows of few enough columns, in chunks. -/
lemma length_insert_le (hwidth : ∀ r, (values r).length = width) (hfit : insertChunkRows * width ≤ maxBinds) :
    ∀ binds ∈ (chunks insertChunkRows rows).map fun chunk => chunk.flatMap values, binds.length ≤ maxBinds := by
  intro binds hbinds
  obtain ⟨chunk, hchunk, rfl⟩ := List.mem_map.mp hbinds
  have hlen := (length_mem_chunks insertChunkRows_pos hchunk).2
  calc (chunk.flatMap values).length = chunk.length * width := length_flatMap_of_length fun r _ => hwidth r
    _ ≤ insertChunkRows * width := Nat.mul_le_mul_right width hlen
    _ ≤ maxBinds := hfit

lemma LogRow.length_values (r : LogRow) : r.values.length = 11 := rfl

lemma MetricRow.length_values (r : MetricRow) : r.values.length = 11 := rfl

variable (env : Externals)

lemma length_writeStatements_le (data : TracesData) : ∀ binds ∈ writeStatements env data, binds.length ≤ maxBinds := by
  unfold writeStatements
  split
  · exact List.forall_mem_nil _
  · exact length_insert_le SpanRow.length_values (by decide)

lemma length_writeLogsStatements_le (data : LogsData) :
    ∀ binds ∈ writeLogsStatements env data, binds.length ≤ maxBinds := by
  unfold writeLogsStatements
  split
  · exact List.forall_mem_nil _
  · exact length_insert_le LogRow.length_values (by decide)

lemma length_writeMetricsStatements_le (data : MetricsData) :
    ∀ binds ∈ writeMetricsStatements env data, binds.length ≤ maxBinds := by
  unfold writeMetricsStatements
  split
  · exact List.forall_mem_nil _
  · exact length_insert_le MetricRow.length_values (by decide)

end Inserts

section Searches

/-- One for a duration that is given and not zero. -/
def boundCount (d : Option Duration) : ℕ :=
  match durationBound d with
  | .ok (some _) => 1
  | _ => 0

/-- The filters of a query other than its attributes. -/
def TraceQueryParameters.filterCount (query : TraceQueryParameters) : ℕ :=
  (if query.serviceName.isEmpty then 0 else 1) + (if query.operationName.isEmpty then 0 else 1) +
    query.startTimeMin.toList.length + query.startTimeMax.toList.length + boundCount query.durationMin +
    boundCount query.durationMax

variable {query : TraceQueryParameters} {conditions : List SpanCondition}

lemma length_values_of_timeBound {ts : Option Timestamp} (condition : Int → SpanCondition)
    (hone : ∀ n, (condition n).values.length = 1) (h : timeBound ts condition = .ok conditions) :
    (conditions.flatMap SpanCondition.values).length = ts.toList.length := by
  cases ts with
  | none =>
    obtain rfl := Except.ok.inj h
    rfl
  | some ts =>
    obtain ⟨n, -, h⟩ := bind_eq_ok.mp h
    obtain rfl := Except.ok.inj h
    rw [List.flatMap_singleton, hone]
    rfl

lemma length_values_of_durationBound {d : Option Duration} {bound : Option Int} (condition : Int → SpanCondition)
    (hone : ∀ n, (condition n).values.length = 1) (h : durationBound d = .ok bound) :
    ((bound.toList.map condition).flatMap SpanCondition.values).length = boundCount d := by
  rw [boundCount, h]
  cases bound with
  | none => rfl
  | some n =>
    rw [Option.toList_some, List.map_singleton, List.flatMap_singleton, hone]

/-- A query binds one parameter for each filter, and three for each attribute. -/
lemma length_values_of_applyQuery (h : applyQuery query = .ok conditions) :
    (conditions.flatMap SpanCondition.values).length = query.filterCount + 3 * query.attributes.length := by
  obtain ⟨startMin, hstartMin, h⟩ := bind_eq_ok.mp h
  obtain ⟨startMax, hstartMax, h⟩ := bind_eq_ok.mp h
  obtain ⟨durationMin, hdurationMin, h⟩ := bind_eq_ok.mp h
  obtain ⟨durationMax, hdurationMax, h⟩ := bind_eq_ok.mp h
  obtain rfl := Except.ok.inj h
  have hservice : ((if query.serviceName.isEmpty then [] else [SpanCondition.serviceName query.serviceName]).flatMap
      SpanCondition.values).length = if query.serviceName.isEmpty then 0 else 1 := by
    split <;> rfl
  have hoperation : ((if query.operationName.isEmpty then [] else
      [SpanCondition.operationName query.operationName]).flatMap SpanCondition.values).length =
        if query.operationName.isEmpty then 0 else 1 := by
    split <;> rfl
  have hattributes : ((query.attributes.map fun kv =>
      SpanCondition.hasAttribute (.object [(kv.key, queryOptionToJson kv.value)])).flatMap
        SpanCondition.values).length = 3 * query.attributes.length := by
    have hthree : ∀ kv ∈ query.attributes, (SpanCondition.hasAttribute
        (.object [(kv.key, queryOptionToJson kv.value)])).values.length = 3 := fun _ _ => rfl
    rw [List.flatMap_map, length_flatMap_of_length hthree, Nat.mul_comm]
  simp only [List.flatMap_append, List.length_append, hservice, hoperation, hattributes,
    length_values_of_timeBound .startTimeMin (fun _ => rfl) hstartMin,
    length_values_of_timeBound .startTimeMax (fun _ => rfl) hstartMax,
    length_values_of_durationBound .durationMin (fun _ => rfl) hdurationMin,
    length_values_of_durationBound .durationMax (fun _ => rfl) hdurationMax]
  rfl

lemma findIdsStatements_within_iff (maxSearchDepth : ℕ) (h : applyQuery query = .ok conditions) :
    (∀ binds ∈ findIdsStatements maxSearchDepth query, binds.length ≤ maxBinds) ↔
      query.filterCount + 3 * query.attributes.length < maxBinds := by
  rw [findIdsStatements, h]
  simp only [List.forall_mem_singleton, List.length_append, length_values_of_applyQuery h, List.length_singleton]
  exact Nat.succ_le_iff

lemma spansForIdsStatements_within_iff (traceIds : List Bytes) :
    (∀ binds ∈ spansForIdsStatements traceIds, binds.length ≤ maxBinds) ↔ traceIds.length ≤ maxBinds := by
  unfold spansForIdsStatements
  cases traceIds with
  | nil => simp
  | cons id ids =>
    rw [List.isEmpty_cons, if_neg Bool.false_ne_true, List.forall_mem_singleton, List.length_map]

variable (env : Externals) (maxSearchDepth : ℕ) (search : TraceSearch) (t : SpansTable)

lemma foundSpansStatements_within_iff (h : applyQuery query = .ok conditions) :
    (∀ binds ∈ foundSpansStatements env maxSearchDepth search t (some query), binds.length ≤ maxBinds) ↔
      (search.findFault = none →
        min (searchDepth maxSearchDepth query.searchDepth) (matchingTraces env conditions t).length ≤ maxBinds) := by
  cases hfault : search.findFault with
  | some e =>
    have hnone : foundSpansStatements env maxSearchDepth search t (some query) = [] := by
      rw [foundSpansStatements, searchIds_some, findIds, h, hfault]
      rfl
    rw [hnone]
    exact iff_of_true (List.forall_mem_nil _) fun hsome => absurd hsome (Option.some_ne_none e)
  | none =>
    obtain ⟨found, hfound, hids⟩ := searchIds_eq env maxSearchDepth t hfault h
    have hstatements : foundSpansStatements env maxSearchDepth search t (some query) =
        spansForIdsStatements (search.listed env maxSearchDepth query conditions t) := by
      rw [foundSpansStatements, hfound, ← hids]
    refine Iff.trans ?_ (forall_prop_of_true rfl).symm
    rw [hstatements, spansForIdsStatements_within_iff, TraceSearch.listed, length_listedTraces]

end Searches

/-- There are not too many ids, filters or traces. -/
def Request.Fits (env : Externals) (maxSearchDepth : ℕ) (search : TraceSearch) (t : SpansTable) : Request → Prop
  | exportTraces _ | exportLogs _ | exportMetrics _ => True
  | getTraces ids => ids.length ≤ maxBinds
  | findTraceIDs query => ∀ parameters ∈ query, parameters.filterCount + 3 * parameters.attributes.length < maxBinds
  | findTraces query | findTraceSummaries query => ∀ parameters ∈ query,
    parameters.filterCount + 3 * parameters.attributes.length < maxBinds ∧
    (search.findFault = none → ∀ conditions, applyQuery parameters = .ok conditions →
      min (searchDepth maxSearchDepth parameters.searchDepth) (matchingTraces env conditions t).length ≤ maxBinds)

section Requests

variable (env : Externals) (maxSearchDepth : ℕ) (search : TraceSearch) (t : SpansTable)

lemma search_within_iff {parameters : TraceQueryParameters} {conditions : List SpanCondition}
    (happly : applyQuery parameters = .ok conditions) :
    (∀ binds ∈ searchIdsStatements maxSearchDepth (some parameters) ++
        foundSpansStatements env maxSearchDepth search t (some parameters), binds.length ≤ maxBinds) ↔
      parameters.filterCount + 3 * parameters.attributes.length < maxBinds ∧
      (search.findFault = none → ∀ conditions, applyQuery parameters = .ok conditions →
        min (searchDepth maxSearchDepth parameters.searchDepth) (matchingTraces env conditions t).length ≤
          maxBinds) := by
  have hconditions : ∀ P : List SpanCondition → Prop,
      (∀ conditions', applyQuery parameters = .ok conditions' → P conditions') ↔ P conditions := by
    intro P
    constructor
    · intro h
      exact h conditions happly
    · intro h conditions' happly'
      obtain rfl := Except.ok.inj (happly.symm.trans happly')
      exact h
  rw [List.forall_mem_append, searchIdsStatements, findIdsStatements_within_iff maxSearchDepth happly,
    foundSpansStatements_within_iff env maxSearchDepth search t happly, hconditions]

/-- The statements of an accepted request stay within the limit exactly if the request fits. -/
theorem binds_within_limit_iff {request : Request} (haccepted : request.Accepted env) :
    (∀ binds ∈ request.statements env maxSearchDepth search t, binds.length ≤ maxBinds) ↔
      request.Fits env maxSearchDepth search t := by
  cases request with
  | exportTraces data => exact iff_of_true (length_writeStatements_le env data) trivial
  | exportLogs data => exact iff_of_true (length_writeLogsStatements_le env data) trivial
  | exportMetrics data => exact iff_of_true (length_writeMetricsStatements_le env data) trivial
  | getTraces ids =>
    have hvalid : validateTraceIds ids = .ok () := haccepted
    rw [Request.statements, hvalid]
    exact spansForIdsStatements_within_iff ids
  | findTraceIDs query =>
    obtain ⟨parameters, conditions, rfl, happly⟩ := haccepted
    rw [Request.statements, searchIdsStatements, findIdsStatements_within_iff maxSearchDepth happly, Request.Fits]
    simp only [Option.mem_some_iff, forall_eq']
  | findTraces query =>
    obtain ⟨parameters, conditions, rfl, happly⟩ := haccepted
    rw [Request.statements, search_within_iff env maxSearchDepth search t happly, Request.Fits]
    simp only [Option.mem_some_iff, forall_eq']
  | findTraceSummaries query =>
    obtain ⟨parameters, conditions, rfl, happly⟩ := haccepted
    rw [Request.statements, search_within_iff env maxSearchDepth search t happly, Request.Fits]
    simp only [Option.mem_some_iff, forall_eq']

/-- Two traces with the attribute of the search. -/
def twoTraces : SpansTable :=
  (write .inert {} (exportOf [{ spanOf 1 "a" 5 with attributes := [⟨"k", some (.stringValue "v")⟩] },
    { spanOf 2 "b" 6 with attributes := [⟨"k", some (.stringValue "v")⟩] }]) ∅).2

def attributeQuery : TraceQueryParameters where
  attributes := [⟨"k", some (.stringValue "v")⟩]

/-- A search for an attribute, and the reading of the two traces it finds. -/
theorem two_traces_within_limit :
    ((Request.findTraces (some attributeQuery)).statements .inert 20 .stable twoTraces).map List.length = [4, 2] ∧
      ∀ binds ∈ (Request.findTraces (some attributeQuery)).statements .inert 20 .stable twoTraces,
        binds.length ≤ maxBinds := by
  have haccepted : (Request.findTraces (some attributeQuery)).Accepted .inert := ⟨attributeQuery, _, rfl, rfl⟩
  refine ⟨by decide, (binds_within_limit_iff .inert 20 .stable twoTraces haccepted).mpr ?_⟩
  rintro parameters ⟨⟩
  refine ⟨by decide, fun _ conditions _ => ?_⟩
  have hdepth : searchDepth 20 attributeQuery.searchDepth ≤ maxBinds := by decide
  exact (min_le_left _ _).trans hdepth

end Requests

/-- One id more than the limit. -/
def manyIds : List Bytes := .replicate 65536 (.replicate 16 1)

/-- So many attributes that with the limit of the rows they are too many. -/
def manyAttributes : TraceQueryParameters where
  attributes := .replicate 21845 ⟨"k", none⟩

lemma validateTraceIds_manyIds : validateTraceIds manyIds = .ok () := by
  have hnone : manyIds.any (fun id => id.length ≠ 16) = false := by
    rw [List.any_eq_false]
    intro id hid
    rw [List.eq_of_mem_replicate hid]
    decide
  rw [validateTraceIds, hnone]
  rfl

/-- A client can make both statements too long. -/
theorem limit_exceeded :
    ((Request.getTraces manyIds).Accepted .inert ∧
      ∃ binds ∈ (Request.getTraces manyIds).statements .inert 20 .stable ∅, 65535 < binds.length) ∧
    (Request.findTraceIDs (some manyAttributes)).Accepted .inert ∧
      ∃ binds ∈ (Request.findTraceIDs (some manyAttributes)).statements .inert 20 .stable ∅,
        65535 < binds.length := by
  refine ⟨⟨validateTraceIds_manyIds, ?_⟩, ⟨manyAttributes, _, rfl, rfl⟩, ?_⟩
  · have hnot : ¬ ∀ binds ∈ spansForIdsStatements manyIds, binds.length ≤ maxBinds := by
      rw [spansForIdsStatements_within_iff, manyIds, List.length_replicate]
      decide
    rw [Request.statements, validateTraceIds_manyIds]
    push Not at hnot
    exact hnot
  · have hnot : ¬ ∀ binds ∈ findIdsStatements 20 manyAttributes, binds.length ≤ maxBinds := by
      have hattributes : manyAttributes.attributes.length = 21845 := List.length_replicate
      rw [findIdsStatements_within_iff 20 rfl, hattributes]
      decide
    rw [Request.statements, searchIdsStatements]
    push Not at hnot
    exact hnot

end OtelviewPostgres
