import OtelviewPostgres.Model.Logs
import OtelviewPostgres.Model.Metrics
import OtelviewPostgres.Relational.BatchDelete

/-!
# Retention

The three tables of a store, `Store::sweep_expired`, and the stores that writes and
sweeps can reach.
-/

namespace OtelviewPostgres

open Relational

structure Store where
  spans : SpansTable := ∅
  logs : LogsTable := ∅
  metricPoints : MetricsTable := ∅

/-- Rows deleted per statement. -/
def batchRows : ℕ := 10000

/-- What a sweep takes from outside: the nanoseconds since the epoch, none where the clock
stands before it, the statements that fail on each table, and the rows each one takes. -/
structure SweepRun where
  nowNanos : Option ℕ
  spanFaults : ℕ → Option Error := fun _ => none
  logFaults : ℕ → Option Error := fun _ => none
  pointFaults : ℕ → Option Error := fun _ => none
  spanChoice : BatchChoice (Bytes × Bytes) batchRows := .first _ _
  logChoice : BatchChoice ℕ batchRows := .first _ _
  pointChoice : BatchChoice ℕ batchRows := .first _ _

/-- Rows older than this are expired. -/
def sweepCutoff (nowNanos retention : ℕ) : Int := min ((nowNanos - retention : ℕ) : Int) i64Max

section Sweep

variable {ρ κ : Type} {key : ρ → κ} [DecidableEq κ]

/-- The rows removed from one table and what is left of it. -/
def sweepTable (table : String) (faults : ℕ → Option Error) (choice : BatchChoice κ batchRows)
    (time : ρ → Int) (cutoff : Int) (t : KeyedTable key) : Option (Except Error ℕ × KeyedTable key) :=
  (t.drain (fun i => (faults i).map (Error.context ("sweep expired rows from " ++ table))) choice
    (fun r => time r < cutoff) (t.rows.length + 1) 0 0)

/-- The loop over a table ends within its fuel. -/
theorem isSome_sweepTable (table : String) (faults : ℕ → Option Error) (choice : BatchChoice κ batchRows)
    (time : ρ → Int) (cutoff : Int) (t : KeyedTable key) : (sweepTable table faults choice time cutoff t).isSome := by
  have hle : t.rows.countP (fun r => decide (time r < cutoff)) ≤ t.rows.length := List.countP_le_length
  exact KeyedTable.isSome_drain (by decide) 0 0 t (by omega)

end Sweep

/-- The rows removed from `spans`, `logs` and `metric_points`, and the store left behind. -/
def sweepExpired (run : SweepRun) (retention : ℕ) (s : Store) : Option (Except Error (ℕ × ℕ × ℕ) × Store) :=
  match run.nowNanos with
  | none =>
    let earlier := Error.message "second time provided was later than self"
    some (.error (.context "system clock before the epoch" earlier), s)
  | some now =>
    let cutoff := sweepCutoff now retention
    (sweepTable "spans" run.spanFaults run.spanChoice SpanRow.startTime cutoff s.spans).bind fun
      | (.error e, spans) => some (.error e, { s with spans := spans })
      | (.ok n, spans) =>
        (sweepTable "logs" run.logFaults run.logChoice (fun r => r.row.time) cutoff s.logs).bind fun
          | (.error e, logs) => some (.error e, { s with spans := spans, logs := logs })
          | (.ok m, logs) =>
            (sweepTable "metric_points" run.pointFaults run.pointChoice (fun r => r.row.time) cutoff
              s.metricPoints).bind fun
              | (.error e, points) => some (.error e, ⟨spans, logs, points⟩)
              | (.ok k, points) => some (.ok (n, m, k), ⟨spans, logs, points⟩)

/-- The stores that any sequence of writes and sweeps reaches from the empty one, whatever
fails on the way. -/
inductive Store.Reachable (env : Externals) : Store → Prop
  | empty : Reachable env {}
  | write {s : Store} (server : Server SpanRow) (data : TracesData) :
    Reachable env s → Reachable env { s with spans := (OtelviewPostgres.write env server data s.spans).2 }
  | writeLogs {s : Store} (server : Server LogRow) (data : LogsData) :
    Reachable env s → Reachable env { s with logs := (OtelviewPostgres.writeLogs env server data s.logs).2 }
  | writeMetrics {s : Store} (server : Server MetricRow) (data : MetricsData) :
    Reachable env s →
      Reachable env { s with metricPoints := (OtelviewPostgres.writeMetrics env server data s.metricPoints).2 }
  | sweep {s s' : Store} {res : Except Error (ℕ × ℕ × ℕ)} (run : SweepRun) (retention : ℕ) :
    Reachable env s → sweepExpired run retention s = some (res, s') → Reachable env s'

end OtelviewPostgres
