import OtelviewPostgres.Proofs.SpanSearch
import OtelviewPostgres.Proofs.TraceReading

/-!
# Three ways to search for traces

The searches for ids, for spans and for summaries each find their traces on their own. They
find the same ones where no traces that are equally new lie across the search depth, or the
database puts such traces in the same order for all three. Each of them is complete on the
traces that it finds.
-/

namespace OtelviewPostgres

open Relational

/-- No statement of the search fails. -/
structure TraceSearch.Answered (search : TraceSearch) : Prop where
  findFault : search.findFault = none
  spansFault : search.spansFault = none

/-- No traces that are equally new lie across the limit. -/
def Untied (limit : ℕ) (groups : List TraceGroup) : Prop :=
  ∀ g ∈ groups, limit ≤ groups.countP (fun g' => g.newest < g'.newest) ∨
    groups.countP (fun g' => g.newest ≤ g'.newest) ≤ limit

section Listed

variable (env : Externals) (groups : OrderBy TraceGroup TraceGroup.NotOlder) (limit : ℕ)
  (conditions : List SpanCondition) (t : SpansTable)

/-- The ids that a search finds, in the order of the database. -/
def listedTraces : List Bytes :=
  ((groups.sort (matchingTraces env conditions t)).take limit).map TraceGroup.traceId

variable {env groups limit conditions t}

lemma nodup_matchingTraces : ((matchingTraces env conditions t).map TraceGroup.traceId).Nodup := by
  rw [matchingTraces, groupByTrace, List.map_map]
  exact (List.nodup_dedup _).map fun _ _ h => h

lemma nodup_listedTraces : (listedTraces env groups limit conditions t).Nodup := by
  have hnodup : ((groups.sort (matchingTraces env conditions t)).map TraceGroup.traceId).Nodup :=
    ((groups.sort_perm _).map _).nodup_iff.mpr nodup_matchingTraces
  exact hnodup.sublist ((List.take_sublist _ _).map _)

lemma length_listedTraces :
    (listedTraces env groups limit conditions t).length = min limit (matchingTraces env conditions t).length := by
  rw [listedTraces, List.length_map, List.length_take, OrderBy.length_sort]

lemma length_listedTraces_le : (listedTraces env groups limit conditions t).length ≤ limit := by
  rw [length_listedTraces]
  exact min_le_left _ _

/-- A trace is found only if one of its spans matches. -/
lemma exists_of_mem_listedTraces {id : Bytes} (h : id ∈ listedTraces env groups limit conditions t) :
    ∃ row ∈ t.rows, row.traceId = id ∧ ∀ c ∈ conditions, c.holds env row = true := by
  obtain ⟨g, hg, rfl⟩ := List.mem_map.mp h
  have hmatching := groups.mem_of_mem_take_sort hg
  obtain ⟨id, hid, rfl⟩ := List.mem_map.mp hmatching
  obtain ⟨row, hrow, rfl⟩ := List.mem_map.mp (List.mem_dedup.mp hid)
  obtain ⟨hmem, hall⟩ := List.mem_filter.mp hrow
  exact ⟨row, hmem, rfl, List.all_eq_true.mp hall⟩

/-- Where there are no ties across the limit, the order does not matter. -/
lemma mem_listedTraces_iff_of_untied {groups' : OrderBy TraceGroup TraceGroup.NotOlder}
    (h : Untied limit (matchingTraces env conditions t)) (id : Bytes) :
    id ∈ listedTraces env groups limit conditions t ↔ id ∈ listedTraces env groups' limit conditions t := by
  have hmem : ∀ order : OrderBy TraceGroup TraceGroup.NotOlder, ∀ g ∈ matchingTraces env conditions t,
      (g ∈ (order.sort (matchingTraces env conditions t)).take limit ↔
        (matchingTraces env conditions t).countP (fun g' => TraceGroup.NotOlder g' g) ≤ limit) := by
    intro order g hg
    apply order.mem_take_sort_iff hg
    rcases h g hg with hnewer | hle
    · left
      simp only [TraceGroup.NotOlder, not_le]
      exact hnewer
    · exact .inr hle
  rw [listedTraces, listedTraces, List.mem_map, List.mem_map]
  constructor
  · rintro ⟨g, hg, rfl⟩
    have hmatching := groups.mem_of_mem_take_sort hg
    exact ⟨g, (hmem groups' g hmatching).mpr ((hmem groups g hmatching).mp hg), rfl⟩
  · rintro ⟨g, hg, rfl⟩
    have hmatching := groups'.mem_of_mem_take_sort hg
    exact ⟨g, (hmem groups g hmatching).mpr ((hmem groups' g hmatching).mp hg), rfl⟩

end Listed

section Searches

variable {env : Externals} {maxSearchDepth : ℕ} {search : TraceSearch} {query : TraceQueryParameters}
  {conditions : List SpanCondition} {t : SpansTable}

/-- The traces that a search lists. -/
def TraceSearch.listed (env : Externals) (maxSearchDepth : ℕ) (search : TraceSearch) (query : TraceQueryParameters)
    (conditions : List SpanCondition) (t : SpansTable) : List Bytes :=
  listedTraces env search.groups (searchDepth maxSearchDepth query.searchDepth) conditions t

variable (env maxSearchDepth t)

variable (search query) in
lemma searchIds_some : searchIds env maxSearchDepth search (some query) t =
    (findIds env maxSearchDepth search.findFault search.groups query t).mapError invalidOrInternal := rfl

lemma searchIds_eq (hfault : search.findFault = none) (happly : applyQuery query = .ok conditions) :
    ∃ found, searchIds env maxSearchDepth search (some query) t = .ok found ∧
      found.map FoundTraceId.traceId = search.listed env maxSearchDepth query conditions t := by
  rw [searchIds_some, findIds, happly, hfault]
  refine ⟨_, rfl, ?_⟩
  rw [List.map_map]
  rfl

variable {t} in
lemma findTraces_eq (hsearch : search.Answered) (happly : applyQuery query = .ok conditions)
    (hrows : ∀ row ∈ t.rows, row.WellFormed env) :
    ∃ messages : List TracesData,
      TraceReader.findTraces env maxSearchDepth search (some query) t = .ok (messages.map .ok) ∧
      List.Forall₂ (SpanRow.DecodesTo env)
        (traceRows search.spans (search.listed env maxSearchDepth query conditions t) t) messages := by
  obtain ⟨found, hfound, hids⟩ := searchIds_eq env maxSearchDepth t hsearch.findFault happly
  obtain ⟨messages, hstream, hmessages⟩ := streamIds_eq hsearch.spansFault
    (search.listed env maxSearchDepth query conditions t) hrows
  refine ⟨messages, ?_, hmessages⟩
  rw [TraceReader.findTraces, hfound, ← hstream, ← hids]
  rfl

lemma findTraceSummaries_eq (hsearch : search.Answered) (happly : applyQuery query = .ok conditions) :
    TraceReader.findTraceSummaries env maxSearchDepth search (some query) t = .ok [.ok (summaries search.traces
      search.services ((traceRows search.spans (search.listed env maxSearchDepth query conditions t) t).map
        rowToSpan))] := by
  obtain ⟨found, hfound, hids⟩ := searchIds_eq env maxSearchDepth t hsearch.findFault happly
  have hspans : TraceReader.findTraceSummaries env maxSearchDepth search (some query) t = (do
      let spans ← (spansForIds search.spansFault search.spans (found.map FoundTraceId.traceId) t).mapError internal
      return [.ok (summaries search.traces search.services spans)]) := by
    rw [TraceReader.findTraceSummaries, hfound]
    rfl
  rw [hspans, hids, hsearch.spansFault, spansForIds_eq]
  rfl

variable {env maxSearchDepth t}

/-- Every trace that is listed has stored spans. -/
lemma mem_map_traceRows_iff {order : OrderBy SpanRow TraceOrder} (id : Bytes) :
    id ∈ (traceRows order (search.listed env maxSearchDepth query conditions t) t).map SpanRow.traceId ↔
      id ∈ search.listed env maxSearchDepth query conditions t := by
  rw [List.mem_map]
  constructor
  · rintro ⟨row, hrow, rfl⟩
    exact (mem_traceRows.mp hrow).2
  · intro hid
    obtain ⟨row, hrow, rfl, -⟩ := exists_of_mem_listedTraces hid
    exact ⟨row, mem_traceRows.mpr ⟨hrow, hid⟩, rfl⟩

lemma length_dedup_le {ids ids' : List Bytes} (h : ∀ id ∈ ids, id ∈ ids') : ids.dedup.length ≤ ids'.length := by
  have hsubset : ids.dedup ⊆ ids' := fun id hid => h id (List.mem_dedup.mp hid)
  exact (List.subperm_of_subset (List.nodup_dedup ids) hsubset).length_le

lemma listed_agree {search search' : TraceSearch}
    (h : search.groups = search'.groups ∨
      Untied (searchDepth maxSearchDepth query.searchDepth) (matchingTraces env conditions t)) (id : Bytes) :
    id ∈ search.listed env maxSearchDepth query conditions t ↔
      id ∈ search'.listed env maxSearchDepth query conditions t := by
  rcases h with heq | huntied
  · rw [TraceSearch.listed, TraceSearch.listed, heq]
  · exact mem_listedTraces_iff_of_untied huntied id

lemma mem_summaries_iff {rows : List SpanRow} {traceOrder : AnyOrder (List StoredSpan)}
    {serviceOrder : Bytes → AnyOrder ServiceSummary} (id : Bytes) :
    id ∈ (summaries traceOrder serviceOrder (rows.map rowToSpan)).map TraceSummary.traceId ↔
      id ∈ rows.map SpanRow.traceId := by
  rw [map_traceId_summaries_perm.mem_iff, List.mem_dedup, List.map_map]
  rfl

lemma traceId_mem_of_mem_summaries {rows : List SpanRow} {traceOrder : AnyOrder (List StoredSpan)}
    {serviceOrder : Bytes → AnyOrder ServiceSummary} {summary : TraceSummary}
    (h : summary ∈ summaries traceOrder serviceOrder (rows.map rowToSpan)) :
    summary.traceId ∈ rows.map SpanRow.traceId :=
  (mem_summaries_iff _).mp (List.mem_map_of_mem h)

/-- The count of a summary does not wrap. -/
lemma spanCount_eq {order : OrderBy SpanRow TraceOrder} {ids : List Bytes} {traceOrder : AnyOrder (List StoredSpan)}
    {serviceOrder : Bytes → AnyOrder ServiceSummary} {summary : TraceSummary} (hsize : t.rows.length < 2 ^ 31)
    (h : summary ∈ summaries traceOrder serviceOrder ((traceRows order ids t).map rowToSpan)) :
    summary.spanCount.toInt = (traceRows order ids t).countP fun row => row.traceId = summary.traceId := by
  have hcount : ((traceRows order ids t).map rowToSpan).countP (fun span => span.traceId = summary.traceId) =
      (traceRows order ids t).countP fun row => row.traceId = summary.traceId := by
    rw [List.countP_map]
    rfl
  have hle : (traceRows order ids t).countP (fun row => row.traceId = summary.traceId) ≤ t.rows.length := by
    rw [wholeTraces_traceRows.countP_eq (traceId_mem_of_mem_summaries h)]
    exact List.countP_le_length
  rw [spanCount_of_mem_summaries h, hcount]
  exact Int32.toInt_ofNat_of_lt (by omega)

end Searches

/-- Three searches for one query: none lists a trace twice or more traces than the depth
allows, the spans streamed are whole traces one after the other, and a summary counts as many
spans as are streamed of its trace. The three list the same traces if they resolve ties alike
or there are none across the depth. -/
theorem trace_searches_agree (env : Externals) (henv : env.traces.Lossless) {s : Store} (hs : s.Reachable env)
    (hsize : s.spans.rows.length < 2 ^ 31) (maxSearchDepth : ℕ) {query : TraceQueryParameters}
    {conditions : List SpanCondition} (happly : applyQuery query = .ok conditions) {ids traces sums : TraceSearch}
    (hids : ids.Answered) (htraces : traces.Answered) (hsums : sums.Answered) :
    ∃ found messages rows listed,
      TraceReader.findTraceIDs env maxSearchDepth ids (some query) s.spans = .ok found ∧
      TraceReader.findTraces env maxSearchDepth traces (some query) s.spans = .ok (messages.map .ok) ∧
      TraceReader.findTraceSummaries env maxSearchDepth sums (some query) s.spans = .ok [.ok listed] ∧
      List.Forall₂ (SpanRow.DecodesTo env) rows messages ∧
      WholeTraces s.spans rows ∧
      (found.map FoundTraceId.traceId).Nodup ∧
      (listed.map TraceSummary.traceId).Nodup ∧
      found.length ≤ searchDepth maxSearchDepth query.searchDepth ∧
      (rows.map SpanRow.traceId).dedup.length ≤ searchDepth maxSearchDepth query.searchDepth ∧
      listed.length ≤ searchDepth maxSearchDepth query.searchDepth ∧
      (∀ summary ∈ listed, summary.traceId ∈ rows.map SpanRow.traceId →
        summary.spanCount.toInt = rows.countP fun row => row.traceId = summary.traceId) ∧
      (ids.groups = traces.groups ∧ ids.groups = sums.groups ∨
          Untied (searchDepth maxSearchDepth query.searchDepth) (matchingTraces env conditions s.spans) →
        ∀ id, (id ∈ found.map FoundTraceId.traceId ↔ id ∈ rows.map SpanRow.traceId) ∧
          (id ∈ found.map FoundTraceId.traceId ↔ id ∈ listed.map TraceSummary.traceId)) := by
  have hrows := wellFormed_of_reachable henv hs
  obtain ⟨found, hfound, hfoundids⟩ := searchIds_eq env maxSearchDepth s.spans hids.findFault happly
  obtain ⟨messages, hstream, hmessages⟩ := findTraces_eq env maxSearchDepth htraces happly hrows
  have hsummaries := findTraceSummaries_eq env maxSearchDepth s.spans hsums happly
  refine ⟨found, messages, _, _, hfound, hstream, hsummaries, hmessages, wholeTraces_traceRows, ?_, ?_, ?_, ?_, ?_, ?_,
    ?_⟩
  · rw [hfoundids]
    exact nodup_listedTraces
  · rw [map_traceId_summaries_perm.nodup_iff]
    exact List.nodup_dedup _
  · rw [← List.length_map FoundTraceId.traceId, hfoundids]
    exact length_listedTraces_le
  · exact (length_dedup_le fun id hid => (mem_map_traceRows_iff id).mp hid).trans length_listedTraces_le
  · rw [← List.length_map TraceSummary.traceId, map_traceId_summaries_perm.length_eq, List.map_map]
    exact (length_dedup_le fun id hid => (mem_map_traceRows_iff id).mp hid).trans length_listedTraces_le
  · intro summary hsummary hid
    have hsum : summary.traceId ∈ (traceRows sums.spans (sums.listed env maxSearchDepth query conditions s.spans)
        s.spans).map SpanRow.traceId :=
      traceId_mem_of_mem_summaries hsummary
    rw [spanCount_eq hsize hsummary, wholeTraces_traceRows.countP_eq hid, wholeTraces_traceRows.countP_eq hsum]
  · intro hties id
    have hfoundtraces : ids.groups = traces.groups ∨
        Untied (searchDepth maxSearchDepth query.searchDepth) (matchingTraces env conditions s.spans) :=
      hties.imp_left And.left
    have hfoundsums : ids.groups = sums.groups ∨
        Untied (searchDepth maxSearchDepth query.searchDepth) (matchingTraces env conditions s.spans) :=
      hties.imp_left And.right
    rw [hfoundids, mem_map_traceRows_iff, mem_summaries_iff, mem_map_traceRows_iff]
    exact ⟨listed_agree hfoundtraces id, listed_agree hfoundsums id⟩

/-- A database that sorts stably. -/
def TraceSearch.stable : TraceSearch where
  groups := .stable TraceGroup.NotOlder
  spans := .stable TraceOrder
  traces := .unchanged
  services _ := .unchanged

lemma answered_stable : TraceSearch.stable.Answered := ⟨rfl, rfl⟩

/-- A database that puts the trace behind those that are as new. -/
def TraceSearch.last (id : Bytes) : TraceSearch :=
  { TraceSearch.stable with groups := .tiesLast TraceGroup.NotOlder fun g => g.traceId = id }

noncomputable def countingTraces : Externals := { Externals.inert with traces := .counting TracesData }

noncomputable def tiedTraces : Store where
  spans := (write countingTraces {} (exportOf [spanOf 1 "a" 5, spanOf 2 "b" 5]) ∅).2

lemma reachable_tiedTraces : tiedTraces.Reachable countingTraces :=
  .write {} (exportOf [spanOf 1 "a" 5, spanOf 2 "b" 5]) .empty

lemma applyQuery_none : applyQuery {} = .ok [] := rfl

theorem trace_searches_agree_tied :
    ∃ found messages rows listed,
      TraceReader.findTraceIDs countingTraces 20 .stable (some {}) tiedTraces.spans = .ok found ∧
      TraceReader.findTraces countingTraces 20 .stable (some {}) tiedTraces.spans = .ok (messages.map .ok) ∧
      TraceReader.findTraceSummaries countingTraces 20 .stable (some {}) tiedTraces.spans = .ok [.ok listed] ∧
      List.Forall₂ (SpanRow.DecodesTo countingTraces) rows messages ∧
      ∀ id, (id ∈ found.map FoundTraceId.traceId ↔ id ∈ rows.map SpanRow.traceId) ∧
        (id ∈ found.map FoundTraceId.traceId ↔ id ∈ listed.map TraceSummary.traceId) := by
  obtain ⟨found, messages, rows, listed, hfound, hstream, hlisted, hmessages, -, -, -, -, -, -, -, hagree⟩ :=
    trace_searches_agree countingTraces (Codec.lossless_counting TracesData) reachable_tiedTraces (by decide) 20
      applyQuery_none answered_stable answered_stable answered_stable
  exact ⟨found, messages, rows, listed, hfound, hstream, hlisted, hmessages, hagree (.inl ⟨rfl, rfl⟩)⟩

/-- Of two traces that start together, a search to a depth of one may find either. -/
theorem tied_traces_disagree :
    ∃ found listed,
      TraceReader.findTraceIDs countingTraces 20 .stable (some { searchDepth := 1 }) tiedTraces.spans = .ok found ∧
      TraceReader.findTraceSummaries countingTraces 20 (.last (.replicate 16 1)) (some { searchDepth := 1 })
        tiedTraces.spans = .ok [.ok listed] ∧
      found.map FoundTraceId.traceId = [.replicate 16 1] ∧ listed.map TraceSummary.traceId = [.replicate 16 2] :=
  ⟨_, _, rfl, rfl, rfl, rfl⟩

end OtelviewPostgres
