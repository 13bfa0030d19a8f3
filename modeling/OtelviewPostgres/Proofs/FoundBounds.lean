import OtelviewPostgres.Proofs.AttributeSearch
import OtelviewPostgres.Proofs.Timestamps
import OtelviewPostgres.Proofs.TraceSearches
import OtelviewPostgres.Proofs.TraceSummaries

/-!
# The bounds of a found trace

A search reports of each trace the least start and the greatest end of the spans that match, through
timestamps that read as exactly these times. They lie within those that the summary of the trace gives.
-/

namespace OtelviewPostgres

open Relational

/-- The spans of a trace that meet the conditions. -/
def matchingSpans (env : Externals) (conditions : List SpanCondition) (t : SpansTable) (id : Bytes) : Set SpanRow :=
  {row | row ∈ t.rows ∧ row.traceId = id ∧ ∀ c ∈ conditions, c.holds env row = true}

/-- The times that are reported of a trace are those of its first matching span and of the last one to end. -/
def FoundTraceId.Bounds (env : Externals) (conditions : List SpanCondition) (t : SpansTable) (trace : FoundTraceId) :
    Prop :=
  ∃ first ∈ matchingSpans env conditions t trace.traceId, ∃ last ∈ matchingSpans env conditions t trace.traceId,
    trace.start = nanosToTimestamp first.startTime ∧ trace.stop = nanosToTimestamp last.endTime ∧
    ∀ row ∈ matchingSpans env conditions t trace.traceId,
      first.startTime ≤ row.startTime ∧ row.endTime ≤ last.endTime

section Bounds

variable {env : Externals} {conditions : List SpanCondition} {t : SpansTable}

/-- The times of the rows are nanoseconds of a `u64` below `2 ^ 63`. -/
def SpansTable.TimesFit (t : SpansTable) : Prop :=
  ∀ row ∈ t.rows, (0 ≤ row.startTime ∧ row.startTime < 2 ^ 63) ∧ 0 ≤ row.endTime ∧ row.endTime < 2 ^ 63

lemma timesFit_of_reachable {s : Store} (hs : s.Reachable env) : SpansTable.TimesFit s.spans := by
  intro row hrow
  obtain ⟨x, hx⟩ := exists_spanItem hs row hrow
  obtain ⟨hstart, hend, hstartTime, hendTime, -⟩ := spanItemRow_eq_ok env hx
  rw [hstartTime, hendTime]
  exact ⟨⟨Int.natCast_nonneg _, by exact_mod_cast hstart⟩, Int.natCast_nonneg _, by exact_mod_cast hend⟩

lemma exactNanos_of_lt {v : Int} (hnonneg : 0 ≤ v) (hlt : v < 2 ^ 63) : (nanosToTimestamp v).exactNanos = v := by
  have hv : (Int64.ofInt v).toInt = v := Int64.toInt_ofInt_of_le (by omega) (by omega)
  rw [← hv]
  exact exactNanos_nanosToTimestamp _

lemma exists_min?_map {α : Type} (f : α → Int) {l : List α} (hne : l ≠ []) :
    ∃ a ∈ l, (l.map f).min?.getD 0 = f a ∧ ∀ b ∈ l, f a ≤ f b := by
  have hmap : l.map f ≠ [] := mt List.map_eq_nil_iff.mp hne
  obtain ⟨least, hleast⟩ := Option.ne_none_iff_exists'.mp (mt List.min?_eq_none_iff.mp hmap)
  obtain ⟨hmem, hle⟩ := List.min?_eq_some_iff.mp hleast
  obtain ⟨a, ha, rfl⟩ := List.mem_map.mp hmem
  rw [hleast]
  exact ⟨a, ha, rfl, fun b hb => hle _ (List.mem_map_of_mem hb)⟩

lemma exists_max?_map {α : Type} (f : α → Int) {l : List α} (hne : l ≠ []) :
    ∃ a ∈ l, (l.map f).max?.getD 0 = f a ∧ ∀ b ∈ l, f b ≤ f a := by
  have hmap : l.map f ≠ [] := mt List.map_eq_nil_iff.mp hne
  obtain ⟨greatest, hgreatest⟩ := Option.ne_none_iff_exists'.mp (mt List.max?_eq_none_iff.mp hmap)
  obtain ⟨hmem, hle⟩ := List.max?_eq_some_iff.mp hgreatest
  obtain ⟨a, ha, rfl⟩ := List.mem_map.mp hmem
  rw [hgreatest]
  exact ⟨a, ha, rfl, fun b hb => hle _ (List.mem_map_of_mem hb)⟩

variable {maxSearchDepth : ℕ} {groups : OrderBy TraceGroup TraceGroup.NotOlder} {query : TraceQueryParameters}
  {found : List FoundTraceId}

lemma bounds_of_findIds (h : findIds env maxSearchDepth none groups query t = .ok found)
    (happly : applyQuery query = .ok conditions) : ∀ trace ∈ found, trace.Bounds env conditions t := by
  rw [findIds, happly] at h
  obtain rfl := Except.ok.inj h
  intro trace htrace
  obtain ⟨g, hg, rfl⟩ := List.mem_map.mp htrace
  obtain ⟨id, hid, rfl⟩ := List.mem_map.mp (groups.mem_of_mem_take_sort hg)
  obtain ⟨row, hrow, hrowid⟩ := List.mem_map.mp (List.mem_dedup.mp hid)
  have hne : (t.rows.filter fun row => conditions.all fun c => c.holds env row).filter
      (fun row => row.traceId = id) ≠ [] :=
    List.ne_nil_of_mem (List.mem_filter.mpr ⟨hrow, decide_eq_true hrowid⟩)
  have hrows : ∀ row, row ∈ (t.rows.filter fun row => conditions.all fun c => c.holds env row).filter
      (fun row => row.traceId = id) ↔ row ∈ matchingSpans env conditions t id := by
    intro row
    simp only [Set.mem_ofPred_eq, List.mem_filter, List.all_eq_true, decide_eq_true_iff, matchingSpans]
    constructor
    · rintro ⟨⟨hmem, hall⟩, hid⟩
      exact ⟨hmem, hid, hall⟩
    · rintro ⟨hmem, hid, hall⟩
      exact ⟨⟨hmem, hall⟩, hid⟩
  obtain ⟨first, hfirst, hstart, hleast⟩ := exists_min?_map SpanRow.startTime hne
  obtain ⟨last, hlast, hstop, hgreatest⟩ := exists_max?_map SpanRow.endTime hne
  refine ⟨first, (hrows first).mp hfirst, last, (hrows last).mp hlast, congrArg nanosToTimestamp hstart,
    congrArg nanosToTimestamp hstop, fun row hrow => ?_⟩
  exact ⟨hleast row ((hrows row).mpr hrow), hgreatest row ((hrows row).mpr hrow)⟩

end Bounds

lemma eq_exactNanos {ts : Timestamp} {n : Int} (h : timestampToNanos ts = .ok n) : n = ts.exactNanos :=
  (checkedNanos_eq_some.mp (timestampToNanos_eq_ok.mp h)).2.1

def TraceQueryParameters.untimed (query : TraceQueryParameters) : TraceQueryParameters :=
  { query with startTimeMin := none, startTimeMax := none }

/-- The span meets what the query asks for besides a time. -/
def SpanRow.MeetsUntimed (env : Externals) (query : TraceQueryParameters) (row : SpanRow) : Prop :=
  ∃ conditions, applyQuery query.untimed = .ok conditions ∧ ∀ c ∈ conditions, c.holds env row = true

section Untimed

variable {env : Externals} {query : TraceQueryParameters} {conditions : List SpanCondition}

lemma meetsUntimed_iff (h : applyQuery query.untimed = .ok conditions) {row : SpanRow} :
    row.MeetsUntimed env query ↔ ∀ c ∈ conditions, c.holds env row = true := by
  constructor
  · rintro ⟨conditions', hconditions', hall⟩
    rw [h] at hconditions'
    obtain rfl := Except.ok.inj hconditions'
    exact hall
  · exact fun hall => ⟨conditions, h, hall⟩

lemma holds_timeBound_iff {ts : Option Timestamp} {condition : Int → SpanCondition}
    (h : timeBound ts condition = .ok conditions) (row : SpanRow) :
    (∀ c ∈ conditions, c.holds env row = true) ↔
      ∀ ts' ∈ ts, (condition ts'.exactNanos).holds env row = true := by
  cases ts with
  | none =>
    cases h
    simp
  | some ts =>
    obtain ⟨n, hn, h⟩ := bind_eq_ok.mp h
    obtain rfl := Except.ok.inj h
    simp [eq_exactNanos hn]

/-- The bounds on the start are the only conditions on a time. -/
lemma holds_iff_meetsUntimed (h : applyQuery query = .ok conditions) (row : SpanRow) :
    (∀ c ∈ conditions, c.holds env row = true) ↔ row.MeetsUntimed env query ∧
      (∀ ts ∈ query.startTimeMin, ts.exactNanos ≤ row.startTime) ∧
      ∀ ts ∈ query.startTimeMax, row.startTime < ts.exactNanos := by
  obtain ⟨startMin, hmin, h⟩ := bind_eq_ok.mp h
  obtain ⟨startMax, hmax, h⟩ := bind_eq_ok.mp h
  obtain ⟨durMin, hd1, h⟩ := bind_eq_ok.mp h
  obtain ⟨durMax, hd2, h⟩ := bind_eq_ok.mp h
  obtain rfl := Except.ok.inj h
  have huntimed : applyQuery query.untimed = .ok
      ((if query.serviceName.isEmpty then [] else [.serviceName query.serviceName]) ++
        (if query.operationName.isEmpty then [] else [.operationName query.operationName]) ++ [] ++ [] ++
        durMin.toList.map .durationMin ++ durMax.toList.map .durationMax ++ query.attributes.map fun kv =>
          .hasAttribute (.object [(kv.key, queryOptionToJson kv.value)])) := by
    change (durationBound query.durationMin >>= fun _ => durationBound query.durationMax >>= _) = _
    rw [hd1, hd2]
    rfl
  rw [meetsUntimed_iff huntimed]
  simp only [List.forall_mem_append, List.not_mem_nil, false_imp_iff, implies_true, and_true]
  rw [holds_timeBound_iff hmin, holds_timeBound_iff hmax]
  simp only [SpanCondition.holds, decide_eq_true_iff]
  constructor
  · rintro ⟨⟨⟨⟨⟨h, hstart⟩, hstop⟩, hmin⟩, hmax⟩, hattributes⟩
    exact ⟨⟨⟨⟨h, hmin⟩, hmax⟩, hattributes⟩, hstart, hstop⟩
  · rintro ⟨⟨⟨⟨h, hmin⟩, hmax⟩, hattributes⟩, hstart, hstop⟩
    exact ⟨⟨⟨⟨⟨h, hstart⟩, hstop⟩, hmin⟩, hmax⟩, hattributes⟩

/-- A search from the start of a trace matches the same of its spans. -/
lemma matchingSpans_from_start {t : SpansTable} {trace : FoundTraceId} {conditions' : List SpanCondition}
    (hfits : SpansTable.TimesFit t) (hbounds : trace.Bounds env conditions t)
    (happly : applyQuery query = .ok conditions)
    (happly' : applyQuery { query with startTimeMin := some trace.start } = .ok conditions') :
    matchingSpans env conditions' t trace.traceId = matchingSpans env conditions t trace.traceId := by
  obtain ⟨first, hfirst, last, -, hstart, -, hall⟩ := hbounds
  have hexact : trace.start.exactNanos = first.startTime := by
    rw [hstart, exactNanos_of_lt (hfits first hfirst.1).1.1 (hfits first hfirst.1).1.2]
  have hmeets : ∀ row : SpanRow, row.MeetsUntimed env { query with startTimeMin := some trace.start } ↔
      row.MeetsUntimed env query := fun _ => Iff.rfl
  ext row
  constructor
  · rintro ⟨hrow, hid, hholds⟩
    obtain ⟨hmeet, hmin, hmax⟩ := (holds_iff_meetsUntimed happly' row).mp hholds
    refine ⟨hrow, hid, (holds_iff_meetsUntimed happly row).mpr ⟨(hmeets row).mp hmeet, fun ts hts => ?_, hmax⟩⟩
    have hfirstMin := ((holds_iff_meetsUntimed happly first).mp hfirst.2.2).2.1 ts hts
    exact hfirstMin.trans (hexact ▸ hmin trace.start rfl)
  · intro hrow
    obtain ⟨hmeet, -, hmax⟩ := (holds_iff_meetsUntimed happly row).mp hrow.2.2
    refine ⟨hrow.1, hrow.2.1, (holds_iff_meetsUntimed happly' row).mpr ⟨(hmeets row).mpr hmeet, fun ts hts => ?_, hmax⟩⟩
    obtain rfl := Option.mem_some_iff.mp hts
    rw [hexact]
    exact (hall row hrow).1

/-- The same spans have the same bounds. -/
lemma FoundTraceId.Bounds.eq {t : SpansTable} {trace trace' : FoundTraceId} {conditions' : List SpanCondition}
    (h : trace.Bounds env conditions t) (h' : trace'.Bounds env conditions' t) (hid : trace.traceId = trace'.traceId)
    (hspans : matchingSpans env conditions' t trace.traceId = matchingSpans env conditions t trace.traceId) :
    trace = trace' := by
  obtain ⟨first, hfirst, last, hlast, hstart, hstop, hall⟩ := h
  obtain ⟨first', hfirst', last', hlast', hstart', hstop', hall'⟩ := h'
  rw [← hid, hspans] at hfirst' hlast' hall'
  have hfirsts : first.startTime = first'.startTime := le_antisymm (hall first' hfirst').1 (hall' first hfirst).1
  have hlasts : last.endTime = last'.endTime := le_antisymm (hall' last hlast).2 (hall last' hlast').2
  cases trace
  cases trace'
  simp only at hid hstart hstop hstart' hstop'
  rw [hid, hstart, hstop, hstart', hstop', hfirsts, hlasts]

end Untimed

section Summary

variable {env : Externals} {s : Store} {traceOrder : AnyOrder (List StoredSpan)}
  {serviceOrder : Bytes → AnyOrder ServiceSummary} {order : OrderBy SpanRow TraceOrder} {ids : List Bytes}
  {summary : TraceSummary}

lemma timesFit_rowToSpan {t : SpansTable} (hfits : SpansTable.TimesFit t) {row : SpanRow} (hrow : row ∈ t.rows) :
    (rowToSpan row).TimesFit := by
  obtain ⟨⟨hstart, hstart'⟩, hstop, hstop'⟩ := hfits row hrow
  have hi64 : ∀ v : Int, 0 ≤ v → v < 2 ^ 63 → FitsI64 v := by
    intro v hnonneg hlt
    unfold FitsI64 i64Min i64Max
    omega
  exact ⟨hi64 _ hstart hstart', hi64 _ hstop hstop'⟩

/-- The trace of a summary is all spans with its id. -/
lemma mem_summarized_iff
    (hsummary : summary ∈ summaries traceOrder serviceOrder ((traceRows order ids s.spans).map rowToSpan))
    {span : StoredSpan} :
    span ∈ ((traceRows order ids s.spans).map rowToSpan).filter (fun span => span.traceId = summary.traceId) ↔
      ∃ row ∈ s.spans.rows, row.traceId = summary.traceId ∧ rowToSpan row = span := by
  constructor
  · intro hspan
    obtain ⟨hmapped, hid⟩ := List.mem_filter.mp hspan
    obtain ⟨row, hrow, rfl⟩ := List.mem_map.mp hmapped
    exact ⟨row, (mem_traceRows.mp hrow).1, of_decide_eq_true hid, rfl⟩
  · rintro ⟨row, hrow, hid, rfl⟩
    obtain ⟨known, hknown, hknownId⟩ := List.mem_map.mp (traceId_mem_of_mem_summaries hsummary)
    have hids : row.traceId ∈ ids := by
      rw [hid, ← hknownId]
      exact (mem_traceRows.mp hknown).2
    exact List.mem_filter.mpr ⟨List.mem_map_of_mem (mem_traceRows.mpr ⟨hrow, hids⟩), decide_eq_true hid⟩

/-- The times of a summary are the extremes of its trace, however long it is. -/
lemma extremes_of_mem_summaries {spans : List StoredSpan} (hfits : ∀ span ∈ spans, span.TimesFit)
    (h : summary ∈ summaries traceOrder serviceOrder spans) :
    IsLeast {t : Int | ∃ span ∈ spans.filter (fun span => span.traceId = summary.traceId), t = max span.start 0}
        summary.minStartTimeUnixNano.toNat ∧
      IsGreatest {t : Int | ∃ span ∈ spans.filter (fun span => span.traceId = summary.traceId), t = max span.stop 0}
        summary.maxEndTimeUnixNano.toNat := by
  obtain ⟨id, hid, rfl⟩ := List.mem_map.mp (summaries_perm.mem_iff.mp h)
  have htrace := traceId_summarize_filter serviceOrder hid
  rw [Function.comp_apply] at htrace
  rw [htrace]
  obtain ⟨span, hspan, hspanId⟩ := List.mem_map.mp (List.mem_dedup.mp hid)
  have hmem : span ∈ spans.filter fun span => span.traceId = id := List.mem_filter.mpr ⟨hspan, decide_eq_true hspanId⟩
  have hfits' : ∀ span ∈ spans.filter (fun span => span.traceId = id), span.TimesFit :=
    fun span hspan => hfits span (List.mem_filter.mp hspan).1
  have hsort := List.perm_insertionSort (fun s s' : StoredSpan => s.start ≤ s'.start)
    (spans.filter fun span => span.traceId = id)
  have hne : (spans.filter fun span => span.traceId = id).insertionSort (fun s s' => s.start ≤ s'.start) ≠ [] :=
    List.ne_nil_of_mem (hsort.mem_iff.mpr hmem)
  exact ⟨isLeast_min hsort hne fun span hspan => (hfits' span hspan).start,
    isGreatest_max hsort hne fun span hspan => (hfits' span hspan).stop⟩

/-- The times of a summary are those of all spans of the trace. -/
lemma summary_times (hs : s.Reachable env)
    (hsummary : summary ∈ summaries traceOrder serviceOrder ((traceRows order ids s.spans).map rowToSpan)) :
    (∃ row ∈ s.spans.rows, row.traceId = summary.traceId ∧ (summary.minStartTimeUnixNano.toNat : Int) = row.startTime) ∧
    (∃ row ∈ s.spans.rows, row.traceId = summary.traceId ∧ (summary.maxEndTimeUnixNano.toNat : Int) = row.endTime) ∧
    ∀ row ∈ s.spans.rows, row.traceId = summary.traceId →
      (summary.minStartTimeUnixNano.toNat : Int) ≤ row.startTime ∧
        row.endTime ≤ (summary.maxEndTimeUnixNano.toNat : Int) := by
  have hfits := timesFit_of_reachable hs
  have hspans : ∀ span ∈ (traceRows order ids s.spans).map rowToSpan, span.TimesFit := by
    intro span hspan
    obtain ⟨row, hrow, rfl⟩ := List.mem_map.mp hspan
    exact timesFit_rowToSpan hfits (mem_traceRows.mp hrow).1
  obtain ⟨hleast, hgreatest⟩ := extremes_of_mem_summaries hspans hsummary
  refine ⟨?_, ?_, fun row hrow hid => ⟨?_, ?_⟩⟩
  · obtain ⟨span, hspan, hmin⟩ := hleast.1
    obtain ⟨row, hrow, hid, rfl⟩ := (mem_summarized_iff hsummary).mp hspan
    exact ⟨row, hrow, hid, hmin.trans (max_eq_left (hfits row hrow).1.1)⟩
  · obtain ⟨span, hspan, hmax⟩ := hgreatest.1
    obtain ⟨row, hrow, hid, rfl⟩ := (mem_summarized_iff hsummary).mp hspan
    exact ⟨row, hrow, hid, hmax.trans (max_eq_left (hfits row hrow).2.1)⟩
  · have hle := hleast.2 ⟨_, (mem_summarized_iff hsummary).mpr ⟨row, hrow, hid, rfl⟩, rfl⟩
    exact hle.trans_eq (max_eq_left (hfits row hrow).1.1)
  · have hle := hgreatest.2 ⟨_, (mem_summarized_iff hsummary).mpr ⟨row, hrow, hid, rfl⟩, rfl⟩
    exact (max_eq_left (hfits row hrow).2.1).symm.trans_le hle

end Summary

section Found

variable {env : Externals} {maxSearchDepth : ℕ} {groups : OrderBy TraceGroup TraceGroup.NotOlder}
  {query : TraceQueryParameters} {conditions : List SpanCondition} {t : SpansTable}

lemma exists_applyQuery_from {ts : Timestamp} {n : Int} (happly : applyQuery query = .ok conditions)
    (hts : timestampToNanos ts = .ok n) :
    ∃ conditions', applyQuery { query with startTimeMin := some ts } = .ok conditions' := by
  obtain ⟨startMin, hmin, h⟩ := bind_eq_ok.mp happly
  obtain ⟨startMax, hmax, h⟩ := bind_eq_ok.mp h
  obtain ⟨durMin, hd1, h⟩ := bind_eq_ok.mp h
  obtain ⟨durMax, hd2, h⟩ := bind_eq_ok.mp h
  have hbound : timeBound (some ts) SpanCondition.startTimeMin = .ok [.startTimeMin n] := by
    rw [timeBound, hts]
    rfl
  rw [applyQuery, hbound, hmax, hd1, hd2]
  exact ⟨_, rfl⟩

/-- A list that is not full has every trace with a matching span. -/
lemma exists_found_of_short {found : List FoundTraceId} (h : findIds env maxSearchDepth none groups query t = .ok found)
    (happly : applyQuery query = .ok conditions) (hshort : found.length < searchDepth maxSearchDepth query.searchDepth)
    {id : Bytes} {row : SpanRow} (hrow : row ∈ matchingSpans env conditions t id) :
    ∃ trace ∈ found, trace.traceId = id := by
  obtain ⟨conditions', happly', hlisted⟩ := map_traceId_findIds h
  rw [happly] at happly'
  obtain rfl := Except.ok.inj happly'
  rw [← List.length_map FoundTraceId.traceId, hlisted] at hshort
  have hmem := mem_listedTraces_of_short hshort hrow.1 hrow.2.2
  rw [← hlisted, hrow.2.1] at hmem
  exact List.mem_map.mp hmem

lemma timestampToNanos_stored {v : Int} (hnonneg : 0 ≤ v) (hlt : v < 2 ^ 63) :
    timestampToNanos (nanosToTimestamp v) = .ok v := by
  have hv : (Int64.ofInt v).toInt = v := Int64.toInt_ofInt_of_le (by omega) (by omega)
  have hround := (nanosRoundTrip_iff (Int64.ofInt v)).mpr (by omega)
  rw [NanosRoundTrip, hv] at hround
  exact hround.2.2

end Found

/-- The times that a search reports of a trace are those of its matching spans. They lie within the
times in the summary of the trace, which are the same if the query asks for nothing, and a search for
no earlier starts than that reported is accepted and finds the trace with the same times again. -/
theorem found_bounds_hold (env : Externals) (s : Store) (hs : s.Reachable env)
    (maxSearchDepth : ℕ) (ids sums : TraceSearch) (hids : ids.Answered) (hsums : sums.Answered)
    (query : TraceQueryParameters) (found : List FoundTraceId) (listed : List TraceSummary)
    (hfound : TraceReader.findTraceIDs env maxSearchDepth ids (some query) s.spans = .ok found)
    (hlisted : TraceReader.findTraceSummaries env maxSearchDepth sums (some query) s.spans = .ok [.ok listed]) :
    ∃ conditions, applyQuery query = .ok conditions ∧ ∀ trace ∈ found, trace.Bounds env conditions s.spans ∧
      (∀ summary ∈ listed, summary.traceId = trace.traceId →
        summary.minStartTimeUnixNano.toNat ≤ trace.start.exactNanos ∧
        trace.stop.exactNanos ≤ summary.maxEndTimeUnixNano.toNat ∧
        (conditions = [] → trace.start.exactNanos = summary.minStartTimeUnixNano.toNat ∧
          trace.stop.exactNanos = summary.maxEndTimeUnixNano.toNat)) ∧
      ∃ again, TraceReader.findTraceIDs env maxSearchDepth ids (some { query with startTimeMin := some trace.start })
          s.spans = .ok again ∧
        (again.length < searchDepth maxSearchDepth query.searchDepth → trace ∈ again) := by
  have hfits := timesFit_of_reachable hs
  have hfind := hfound
  rw [TraceReader.findTraceIDs, searchIds_some, hids.findFault, mapError_eq_ok] at hfind
  obtain ⟨conditions, happly, -⟩ := map_traceId_findIds hfind
  refine ⟨conditions, happly, fun trace htrace => ?_⟩
  have hbounds := bounds_of_findIds hfind happly trace htrace
  refine ⟨hbounds, fun summary hsummary hid => ?_, ?_⟩
  · obtain ⟨first, hfirst, last, hlast, hstart, hstop, hall⟩ := hbounds
    rw [findTraceSummaries_eq env maxSearchDepth s.spans hsums happly] at hlisted
    obtain rfl := Except.ok.inj (List.singleton_inj.mp (Except.ok.inj hlisted))
    obtain ⟨⟨row, hrow, hrowId, hmin⟩, ⟨row', hrow', hrowId', hmax⟩, htimes⟩ := summary_times hs hsummary
    rw [hstart, hstop, exactNanos_of_lt (hfits first hfirst.1).1.1 (hfits first hfirst.1).1.2,
      exactNanos_of_lt (hfits last hlast.1).2.1 (hfits last hlast.1).2.2]
    have hle := (htimes first hfirst.1 (hfirst.2.1.trans hid.symm)).1
    have hge := (htimes last hlast.1 (hlast.2.1.trans hid.symm)).2
    refine ⟨hle, hge, fun hnone => ⟨?_, ?_⟩⟩
    · subst hnone
      have hmatch : row ∈ matchingSpans env [] s.spans trace.traceId :=
        ⟨hrow, hrowId.trans hid, fun _ h => absurd h List.not_mem_nil⟩
      exact le_antisymm (hmin ▸ (hall row hmatch).1) hle
    · subst hnone
      have hmatch : row' ∈ matchingSpans env [] s.spans trace.traceId :=
        ⟨hrow', hrowId'.trans hid, fun _ h => absurd h List.not_mem_nil⟩
      exact le_antisymm hge (hmax ▸ (hall row' hmatch).2)
  · have hextremes := hbounds
    obtain ⟨first, hfirst, last, -, hstart, -⟩ := hextremes
    have hreads : timestampToNanos trace.start = .ok first.startTime := by
      rw [hstart]
      exact timestampToNanos_stored (hfits first hfirst.1).1.1 (hfits first hfirst.1).1.2
    obtain ⟨conditions', happly'⟩ := exists_applyQuery_from happly hreads
    obtain ⟨again, hagain, -⟩ := searchIds_eq env maxSearchDepth s.spans hids.findFault happly'
    refine ⟨again, hagain, fun hshort => ?_⟩
    rw [searchIds_some, hids.findFault, mapError_eq_ok] at hagain
    have hspans := matchingSpans_from_start hfits hbounds happly happly'
    obtain ⟨trace', htrace', hid⟩ := exists_found_of_short hagain happly' hshort (hspans ▸ hfirst)
    have hbounds' := bounds_of_findIds hagain happly' trace' htrace'
    rw [hbounds.eq hbounds' hid.symm hspans]
    exact htrace'

/-- Two spans of one trace and one of another. -/
def threeSpans : Store where
  spans := (write .inert {} (exportOf [spanOf 1 "a" 5, { spanOf 1 "b" 7 with spanId := .replicate 8 9 },
    spanOf 2 "c" 6]) ∅).2

theorem found_bounds_hold_three :
    ∃ found listed,
      TraceReader.findTraceIDs .inert 20 .stable (some {}) threeSpans.spans = .ok found ∧
      TraceReader.findTraceSummaries .inert 20 .stable (some {}) threeSpans.spans = .ok [.ok listed] ∧
      ∃ conditions, applyQuery {} = .ok conditions ∧
        ∀ trace ∈ found, trace.Bounds .inert conditions threeSpans.spans := by
  have hs : threeSpans.Reachable .inert := .write {} (exportOf [spanOf 1 "a" 5,
    { spanOf 1 "b" 7 with spanId := .replicate 8 9 }, spanOf 2 "c" 6]) .empty
  obtain ⟨found, hfound, -⟩ :=
    searchIds_eq .inert 20 threeSpans.spans answered_stable.findFault applyQuery_none
  have hlisted := findTraceSummaries_eq .inert 20 threeSpans.spans answered_stable applyQuery_none
  obtain ⟨conditions, happly, htraces⟩ := found_bounds_hold .inert threeSpans hs 20 .stable .stable
    answered_stable answered_stable {} found _ hfound hlisted
  exact ⟨found, _, hfound, hlisted, conditions, happly, fun trace htrace => (htraces trace htrace).1⟩

end OtelviewPostgres
