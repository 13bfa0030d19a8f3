import OtelviewPostgres.Model.Retention

/-!
# Histories of a store

The calls that change a store, one after another, and what their callers see of them: whether
each of them succeeded.
-/

namespace OtelviewPostgres

open Relational

/-- A call that may change the store, with what the database does to it. -/
inductive StoreEvent where
  | write (server : Server SpanRow) (data : TracesData)
  | writeLogs (server : Server LogRow) (data : LogsData)
  | writeMetrics (server : Server MetricRow) (data : MetricsData)
  | sweep (run : SweepRun) (retention : ℕ)

/-- Whether the call succeeds, and the store it leaves. -/
def Store.perform (env : Externals) (s : Store) : StoreEvent → Bool × Store
  | .write server data =>
    let (res, spans) := OtelviewPostgres.write env server data s.spans
    (res.isOk, { s with spans })
  | .writeLogs server data =>
    let (res, logs) := OtelviewPostgres.writeLogs env server data s.logs
    (res.isOk, { s with logs })
  | .writeMetrics server data =>
    let (res, metricPoints) := OtelviewPostgres.writeMetrics env server data s.metricPoints
    (res.isOk, { s with metricPoints })
  | .sweep run retention =>
    match sweepExpired run retention s with
    | some (res, s') => (res.isOk, s')
    | none => (false, s)

/-- The store that a run of calls leaves. -/
def Store.after (env : Externals) (s : Store) (events : List StoreEvent) : Store :=
  events.foldl (fun s event => (s.perform env event).2) s

/-- The calls of a run, each with whether it succeeded. -/
def Store.history (env : Externals) (s : Store) : List StoreEvent → List (StoreEvent × Bool)
  | [] => []
  | event :: events => (event, (s.perform env event).1) :: history env (s.perform env event).2 events

end OtelviewPostgres
