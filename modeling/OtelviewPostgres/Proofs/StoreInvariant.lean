import OtelviewPostgres.Proofs.RecordIngest
import OtelviewPostgres.Proofs.SpanIngest
import OtelviewPostgres.Proofs.Sweep

/-!
# What holds of every stored row

Rows come into a store from the items of an export, replace each other whole, and are deleted by
sweeps. So what holds of the row of every item holds of all rows of every reachable store.
-/

namespace OtelviewPostgres

open Relational

/-- A property of the rows of each table. -/
structure RowProperty where
  span : SpanRow → Prop := fun _ => True
  log : LogRow → Prop := fun _ => True
  point : MetricRow → Prop := fun _ => True

/-- The property holds of the row of every item of an export that is not rejected. -/
structure RowProperty.OfItems (P : RowProperty) (env : Externals) : Prop where
  span : ∀ {x : InContext Span} {row : SpanRow}, malformedIds x.item = false → spanItemRow env x = .ok row → P.span row
  log : ∀ {x : InContext LogRecord} {row : LogRow}, logItemRow env x = .ok row → P.log row
  point : ∀ {data : MetricsData}, ∀ x ∈ pointItems data, ∀ {row : MetricRow}, pointItemRow env x = .ok row → P.point row

/-- The property holds of every row of the store. -/
structure RowProperty.OfStore (P : RowProperty) (s : Store) : Prop where
  spans : ∀ r ∈ s.spans.rows, P.span r
  logs : ∀ r ∈ s.logs.rows, P.log r.row
  metricPoints : ∀ r ∈ s.metricPoints.rows, P.point r.row

namespace RowProperty.OfItems

variable {P : RowProperty} {env : Externals} (hP : P.OfItems env)
include hP

lemma forall_write (server : Server SpanRow) (data : TracesData) {t : SpansTable} (ht : ∀ r ∈ t.rows, P.span r) :
    ∀ r ∈ (write env server data t).2.rows, P.span r := by
  cases hres : (write env server data t).1 with
  | error e =>
    rw [write_eq_error hres]
    exact ht
  | ok res =>
    obtain ⟨batch, hb, -, htable, -⟩ := write_eq_ok hres
    rw [htable]
    apply KeyedTable.forall_upsertAll spanConflict spanConflict_overwrites t _ ht
    intro row hrow
    obtain ⟨x, hx, hxr⟩ := exists_of_mem_mapM (collectSpans_eq_ok env hb).1
      ((keepLast_sublist SpanRow.key batch.rows).subset hrow)
    have hids : malformedIds x.item = false := by simpa using (List.mem_filter.mp hx).2
    exact hP.span hids hxr

lemma forall_writeLogs (server : Server LogRow) (data : LogsData) {t : LogsTable} (ht : ∀ r ∈ t.rows, P.log r.row) :
    ∀ r ∈ (writeLogs env server data t).2.rows, P.log r.row := by
  cases hres : (writeLogs env server data t).1 with
  | error e =>
    rw [writeLogs, writeRecords_eq_error hres]
    exact ht
  | ok n =>
    obtain ⟨rows, hrows, -, htable, -⟩ := writeLogs_eq_ok hres
    rw [htable]
    apply IdentityTable.forall_insertAll ht
    intro row hrow
    obtain ⟨x, -, hxr⟩ := exists_of_mem_mapM hrows hrow
    exact hP.log hxr

lemma forall_writeMetrics (server : Server MetricRow) (data : MetricsData) {t : MetricsTable}
    (ht : ∀ r ∈ t.rows, P.point r.row) : ∀ r ∈ (writeMetrics env server data t).2.rows, P.point r.row := by
  cases hres : (writeMetrics env server data t).1 with
  | error e =>
    rw [writeMetrics, writeRecords_eq_error hres]
    exact ht
  | ok n =>
    obtain ⟨rows, hrows, -, htable, -⟩ := writeMetrics_eq_ok hres
    rw [htable]
    apply IdentityTable.forall_insertAll ht
    intro row hrow
    obtain ⟨x, hx, hxr⟩ := exists_of_mem_mapM hrows hrow
    exact hP.point x hx hxr

/-- Writes add such rows, and sweeps add none. -/
theorem ofStore {s : Store} (h : s.Reachable env) : P.OfStore s := by
  induction h with
  | empty =>
    constructor
    · rintro r ⟨⟩
    · rintro r ⟨⟩
    · rintro r ⟨⟩
  | write server data _ ih => exact { ih with spans := hP.forall_write server data ih.spans }
  | writeLogs server data _ ih => exact { ih with logs := hP.forall_writeLogs server data ih.logs }
  | writeMetrics server data _ ih =>
    exact { ih with metricPoints := hP.forall_writeMetrics server data ih.metricPoints }
  | sweep run retention _ hsweep ih =>
    rcases sweepExpired_cases hsweep with ⟨-, rfl, -⟩ | ⟨now, -, hswept, -⟩
    · exact ih
    · exact ⟨fun r hr => ih.spans r (hswept.spans.mem r hr), fun r hr => ih.logs r (hswept.logs.mem r hr),
        fun r hr => ih.metricPoints r (hswept.metricPoints.mem r hr)⟩

end RowProperty.OfItems

end OtelviewPostgres
