import OtelviewPostgres.Model.Server
import OtelviewPostgres.Proofs.SpanInvariant
import OtelviewPostgres.Relational.GroupBy

/-!
# Reading whole traces

What is read for a list of ids are all stored spans of these traces, one trace after the
other and each in the order of its starts. A summary is made of exactly one of them.
-/

namespace OtelviewPostgres

open Relational

/-- Whole traces, one after the other, each in the order of its starts. -/
structure WholeTraces (t : SpansTable) (rows : List SpanRow) : Prop where
  perm : rows.Perm (t.rows.filter fun row => row.traceId ∈ rows.map SpanRow.traceId)
  contiguous : ∀ id, ∃ before after, rows = before ++ (rows.filter (fun row => row.traceId = id) ++ after)
  sorted : ∀ id, (rows.filter fun row => row.traceId = id).Pairwise fun row row' => row.startTime ≤ row'.startTime

section Rows

variable (order : OrderBy SpanRow TraceOrder) (ids : List Bytes) (t : SpansTable)

lemma spansForIds_eq : spansForIds none order ids t = .ok ((traceRows order ids t).map rowToSpan) := by
  cases ids with
  | nil =>
    have hnone : (t.rows.filter fun row => row.traceId ∈ ([] : List Bytes)) = [] := by simp
    have hrows : traceRows order [] t = [] := by
      rw [traceRows, hnone]
      exact (order.sort_perm []).eq_nil
    rw [hrows]
    rfl
  | cons id ids => rfl

variable {order ids t}

lemma mem_traceRows {row : SpanRow} : row ∈ traceRows order ids t ↔ row ∈ t.rows ∧ row.traceId ∈ ids := by
  rw [traceRows, OrderBy.mem_sort, List.mem_filter, decide_eq_true_iff]

/-- The ids of the rows are those of the list that have stored spans. -/
lemma filter_mem_traceIds :
    t.rows.filter (fun row => row.traceId ∈ (traceRows order ids t).map SpanRow.traceId) =
      t.rows.filter fun row => row.traceId ∈ ids := by
  apply List.filter_congr
  intro row hrow
  rw [decide_eq_decide, List.mem_map]
  constructor
  · rintro ⟨row', hrow', heq⟩
    exact heq ▸ (mem_traceRows.mp hrow').2
  · intro hid
    exact ⟨row, mem_traceRows.mpr ⟨hrow, hid⟩, rfl⟩

lemma pairwise_traceId_traceRows :
    (traceRows order ids t).Pairwise fun row row' => row.traceId ≤ row'.traceId := by
  refine (order.pairwise_sort _).imp fun h => ?_
  rcases h with hlt | ⟨heq, -⟩
  · exact le_of_lt hlt
  · exact le_of_eq heq

lemma pairwise_startTime_traceRows (id : Bytes) :
    ((traceRows order ids t).filter fun row => row.traceId = id).Pairwise
      fun row row' => row.startTime ≤ row'.startTime := by
  have hpair := (order.pairwise_sort (t.rows.filter fun row => row.traceId ∈ ids)).filter fun row =>
    row.traceId = id
  refine hpair.imp_of_mem fun {row row'} hrow hrow' h => ?_
  have hid := of_decide_eq_true (List.mem_filter.mp hrow).2
  have hid' := of_decide_eq_true (List.mem_filter.mp hrow').2
  rcases h with hlt | ⟨-, hle⟩
  · rw [hid, hid'] at hlt
    exact absurd hlt (lt_irrefl id)
  · exact hle

lemma wholeTraces_traceRows : WholeTraces t (traceRows order ids t) where
  perm := by
    rw [filter_mem_traceIds]
    exact order.sort_perm _
  contiguous id := by
    refine ⟨(traceRows order ids t).filter fun row => row.traceId < id,
      (traceRows order ids t).filter fun row => id < row.traceId, ?_⟩
    convert eq_filter_append_filter pairwise_traceId_traceRows id
  sorted := pairwise_startTime_traceRows

lemma WholeTraces.countP_eq {rows : List SpanRow} (h : WholeTraces t rows) {id : Bytes}
    (hid : id ∈ rows.map SpanRow.traceId) :
    rows.countP (fun row => row.traceId = id) = t.rows.countP fun row => row.traceId = id := by
  rw [h.perm.countP_eq, List.countP_filter]
  apply List.countP_congr
  intro row _
  rw [Bool.and_eq_true, decide_eq_true_iff, decide_eq_true_iff]
  constructor
  · exact And.left
  · rintro rfl
    exact ⟨rfl, hid⟩

end Rows

/-- The message of one span, which says the same as the row. -/
structure SpanRow.DecodesTo (env : Externals) (row : SpanRow) (message : TracesData) : Prop where
  decode : env.traces.decode row.payload = some message
  span : ∃ (resource : ResourceSpans) (scope : ScopeSpans) (span : Span), message = { resourceSpans := [resource] } ∧
    resource.scopeSpans = [scope] ∧ scope.spans = [span] ∧ row.Represents resource span

lemma exists_decodesTo {env : Externals} {row : SpanRow} (h : row.WellFormed env) :
    ∃ message, row.DecodesTo env message := by
  obtain ⟨resource, scope, span, hdecode, hscope, hspan, hrepresents⟩ := h.payload
  exact ⟨_, hdecode, resource, scope, span, rfl, hscope, hspan, hrepresents⟩

lemma map_decodePayload {env : Externals} {rows : List SpanRow} {messages : List TracesData}
    (h : List.Forall₂ (SpanRow.DecodesTo env) rows messages) :
    (rows.map rowToSpan).map (fun span => (decodePayload env.traces span.payload).mapError internal) =
      messages.map .ok := by
  induction h with
  | nil => rfl
  | @cons row message rows messages hrow _ ih =>
    have hhead : (decodePayload env.traces (rowToSpan row).payload).mapError internal = .ok message := by
      have hpayload : (rowToSpan row).payload = row.payload := rfl
      rw [decodePayload, hpayload, hrow.decode]
      rfl
    rw [List.map_cons, List.map_cons, List.map_cons, ih, hhead]

/-- Each row of the traces is streamed as the message of its span. -/
lemma streamIds_eq {env : Externals} {search : TraceSearch} (hfault : search.spansFault = none) (ids : List Bytes)
    {t : SpansTable} (hrows : ∀ row ∈ t.rows, row.WellFormed env) :
    ∃ messages : List TracesData, streamIds env search ids t = .ok (messages.map .ok) ∧
      List.Forall₂ (SpanRow.DecodesTo env) (traceRows search.spans ids t) messages := by
  obtain ⟨messages, hmessages⟩ := exists_forall₂ (l := traceRows search.spans ids t) fun row hrow =>
    exists_decodesTo (hrows row (mem_traceRows.mp hrow).1)
  refine ⟨messages, ?_, hmessages⟩
  rw [streamIds, hfault, spansForIds_eq, ← map_decodePayload hmessages]
  rfl

section Summaries

variable {traceOrder : AnyOrder (List StoredSpan)} {serviceOrder : Bytes → AnyOrder ServiceSummary}
  {spans : List StoredSpan}

lemma traceId_summarize (order : AnyOrder ServiceSummary) {id : Bytes} (hne : spans ≠ [])
    (hid : ∀ span ∈ spans, span.traceId = id) : (summarize order spans).traceId = id := by
  have hlen : (spans.insertionSort fun s s' => s.start ≤ s'.start) ≠ [] := by
    rwa [← List.length_pos_iff_ne_nil, List.length_insertionSort, List.length_pos_iff_ne_nil]
  have hhead := List.head?_eq_some_head hlen
  have hmem := (List.mem_insertionSort _).mp (List.mem_of_head? hhead)
  rw [summarize, hhead]
  exact hid _ hmem

variable (serviceOrder) in
lemma traceId_summarize_filter {id : Bytes} (hid : id ∈ (spans.map StoredSpan.traceId).dedup) :
    (TraceSummary.traceId ∘ fun id => summarize (serviceOrder id) (spans.filter fun span => span.traceId = id)) id =
      id := by
  obtain ⟨span, hspan, hspanid⟩ := List.mem_map.mp (List.mem_dedup.mp hid)
  have hmem : span ∈ spans.filter fun s => s.traceId = id := List.mem_filter.mpr ⟨hspan, decide_eq_true hspanid⟩
  apply traceId_summarize (serviceOrder id) (List.ne_nil_of_mem hmem)
  intro s hs
  exact of_decide_eq_true (List.mem_filter.mp hs).2

lemma spanCount_summarize (order : AnyOrder ServiceSummary) :
    (summarize order spans).spanCount = .ofNat spans.length := by
  rw [summarize, List.length_insertionSort]

/-- The summaries are made of the traces of the spans, one of each. -/
lemma summaries_perm : (summaries traceOrder serviceOrder spans).Perm
    ((spans.map StoredSpan.traceId).dedup.map fun id =>
      summarize (serviceOrder id) (spans.filter fun span => span.traceId = id)) := by
  have hgroups := (groups_perm StoredSpan.traceId id spans).map Sigma.snd
  rw [List.map_map] at hgroups
  have hperm := ((traceOrder.sort_perm _).trans hgroups).map fun spans : List StoredSpan =>
    summarize (serviceOrder ((spans.head?.map StoredSpan.traceId).getD [])) spans
  refine hperm.trans (List.Perm.of_eq ?_)
  rw [List.map_map]
  apply List.map_congr_left
  intro id hid
  obtain ⟨span, hspan, rfl⟩ := List.mem_map.mp (List.mem_dedup.mp hid)
  have hmem : span ∈ spans.filter fun s => s.traceId = span.traceId :=
    List.mem_filter.mpr ⟨hspan, decide_eq_true rfl⟩
  have hhead := List.head?_eq_some_head (List.ne_nil_of_mem hmem)
  have htrace := of_decide_eq_true (List.mem_filter.mp (List.mem_of_head? hhead)).2
  rw [Function.comp_apply, Function.comp_apply, List.map_id, hhead, Option.map_some, Option.getD_some, htrace]

/-- There is one summary for each trace, and it counts all its spans. -/
lemma map_traceId_summaries_perm :
    ((summaries traceOrder serviceOrder spans).map TraceSummary.traceId).Perm
      (spans.map StoredSpan.traceId).dedup := by
  refine (summaries_perm.map TraceSummary.traceId).trans (List.Perm.of_eq ?_)
  rw [List.map_map]
  refine (List.map_congr_left fun id hid => ?_).trans (List.map_id _)
  exact traceId_summarize_filter serviceOrder hid

lemma spanCount_of_mem_summaries {summary : TraceSummary} (h : summary ∈ summaries traceOrder serviceOrder spans) :
    summary.spanCount = .ofNat (spans.countP fun span => span.traceId = summary.traceId) := by
  obtain ⟨id, hid, rfl⟩ := List.mem_map.mp (summaries_perm.mem_iff.mp h)
  have htrace := traceId_summarize_filter serviceOrder hid
  rw [Function.comp_apply] at htrace
  rw [spanCount_summarize, htrace, List.countP_eq_length_filter]

end Summaries

end OtelviewPostgres
