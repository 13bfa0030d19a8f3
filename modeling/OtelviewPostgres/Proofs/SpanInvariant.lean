import OtelviewPostgres.Proofs.Codecs
import OtelviewPostgres.Proofs.StoreInvariant

/-!
# What every stored span row says

A row and its payload are written on one path and overwritten on another. The invariant
that ties them together holds of the row of every span, survives an update on conflict,
because that update replaces all columns outside the key, and survives a sweep.
-/

namespace OtelviewPostgres

open Relational

/-- The columns of a row agree with the one span its payload decodes to. -/
structure SpanRow.Represents (row : SpanRow) (resource : ResourceSpans) (span : Span) : Prop where
  traceId : row.traceId = span.traceId
  spanId : row.spanId = span.spanId
  parentSpanId : row.parentSpanId = span.parentSpanId
  operation : row.operation = span.name
  kind : row.kind = spanKind span.kind
  startTime : row.startTime = span.startTimeUnixNano.toNat
  endTime : row.endTime = span.endTimeUnixNano.toNat
  service : row.service = resourceService resource.resource

structure SpanRow.WellFormed (env : Externals) (row : SpanRow) : Prop where
  length_traceId : row.traceId.length = 16
  length_spanId : row.spanId.length = 8
  startTime_nonneg : 0 ≤ row.startTime
  endTime_nonneg : 0 ≤ row.endTime
  duration_eq : row.duration = row.endTime - row.startTime
  payload : ∃ (resource : ResourceSpans) (scope : ScopeSpans) (span : Span),
    env.traces.decode row.payload = some { resourceSpans := [resource] } ∧ resource.scopeSpans = [scope] ∧
      scope.spans = [span] ∧ row.Represents resource span

section Rows

variable {env : Externals}

lemma wellFormed_of_spanItemRow (henv : env.traces.Lossless) {x : InContext Span} {row : SpanRow}
    (hids : malformedIds x.item = false) (h : spanItemRow env x = .ok row) : row.WellFormed env := by
  have hlengths : x.item.traceId.length = 16 ∧ x.item.spanId.length = 8 := by
    simpa [malformedIds] using hids
  obtain ⟨hstart, hend, -, -, -⟩ := spanItemRow_eq_ok env h
  unfold spanItemRow spanRow at h
  rw [u64ToI64_of_lt _ hstart, u64ToI64_of_lt _ hend] at h
  cases h
  refine ⟨hlengths.1, hlengths.2, ?_, ?_, saturatingSub_times hend hstart, ?_⟩
  · exact Int.natCast_nonneg _
  · exact Int.natCast_nonneg _
  · refine ⟨_, _, x.item, henv _, rfl, rfl, ?_⟩
    exact ⟨rfl, rfl, rfl, rfl, rfl, rfl, rfl, serviceName_resourceAttributes x.resource⟩

lemma wellFormed_of_reachable (henv : env.traces.Lossless) {s : Store} (h : s.Reachable env) :
    ∀ row ∈ s.spans.rows, row.WellFormed env := by
  have hitems : RowProperty.OfItems { span := SpanRow.WellFormed env } env :=
    ⟨wellFormed_of_spanItemRow henv, fun _ => trivial, fun _ _ _ _ => trivial⟩
  exact (hitems.ofStore h).spans

end Rows

/-- In every reachable store the ids identify the span rows, and every row is well formed
and agrees with its payload. -/
theorem spans_represented (env : Externals) (henv : env.traces.Lossless) (s : Store) (hs : s.Reachable env) :
    (s.spans.rows.map SpanRow.key).Nodup ∧ ∀ row ∈ s.spans.rows, row.WellFormed env :=
  ⟨s.spans.nodup_keys, wellFormed_of_reachable henv hs⟩

/-- The table after two exports, the second of which rewrites the span of the first. -/
theorem spans_represented_after_rewrite :
    ((write { Externals.inert with traces := .counting TracesData } {} (exportOf [spanOf 1 "b" 7])
        (write { Externals.inert with traces := .counting TracesData } {} (exportOf [spanOf 1 "a" 5]) ∅).2).2.rows.map
          SpanRow.key).Nodup ∧
      ∀ row ∈ (write { Externals.inert with traces := .counting TracesData } {} (exportOf [spanOf 1 "b" 7])
          (write { Externals.inert with traces := .counting TracesData } {} (exportOf [spanOf 1 "a" 5]) ∅).2).2.rows,
        row.WellFormed { Externals.inert with traces := .counting TracesData } :=
  spans_represented { Externals.inert with traces := .counting TracesData } (Codec.lossless_counting TracesData)
    _ (.write {} (exportOf [spanOf 1 "b" 7]) (.write {} (exportOf [spanOf 1 "a" 5]) .empty))

end OtelviewPostgres
