import OtelviewPostgres.Model.Server

/-!
# Reads of several statements

`StorageServer::find_traces`, `StorageServer::find_trace_summaries` and `Store::stats` run several
statements, each of which sees the tables as they are when it runs.
-/

namespace OtelviewPostgres

open Relational

section Searches

variable (env : Externals) (maxSearchDepth : ℕ) (search : TraceSearch) (query : Option TraceQueryParameters)

/-- The search sees one table, and the spans of what it found are read from the other. -/
def TraceReader.findTracesAcross (searched read : SpansTable) : Except Status (Stream TracesData) := do
  let ids ← searchIds env maxSearchDepth search query searched
  streamIds env search (ids.map FoundTraceId.traceId) read

def TraceReader.findTraceSummariesAcross (searched read : SpansTable) : Except Status (Stream (List TraceSummary)) := do
  let ids ← searchIds env maxSearchDepth search query searched
  let spans ← (spansForIds search.spansFault search.spans (ids.map FoundTraceId.traceId) read).mapError internal
  return [.ok (summaries search.traces search.services spans)]

end Searches

structure Stats where
  spans : UInt64
  logs : UInt64
  metricPoints : UInt64
  services : UInt64

/-- `n_live_tup` of the tables, where the statistics have them. -/
structure LiveRows where
  spans : Option Int64 := none
  logs : Option Int64 := none
  metricPoints : Option Int64 := none

/-- `COALESCE(.., 0)`, and then `value.max(0) as u64` -/
def rowEstimate (liveRows : Option Int64) : UInt64 := (max (liveRows.getD 0) 0).toUInt64

/-- What the database decides about one call. -/
structure StatsRead (c : Collation) where
  liveRows : LiveRows := {}
  statsFault : Option Error := none
  servicesFault : Option Error := none
  logServicesFault : Option Error := none
  metricServicesFault : Option Error := none
  spans : OrderBy SpanRow (ColumnLe c.lt SpanRow.service)
  logs : OrderBy (Stored LogRow) (ColumnLe c.lt fun r => r.row.service)
  metricPoints : OrderBy StoredPoint (ColumnLe c.lt fun p => p.row.service)

/-- The counters, from the statistics and the three tables of services. -/
def stats {c : Collation} (read : StatsRead c) (spans : SpansTable) (logs : LogsTable) (metricPoints : MetricsTable) :
    Except Error Stats := do
  match read.statsFault with
  | some e => throw (.context "query storage stats" e)
  | none =>
    let spanServices ← services read.servicesFault read.spans spans
    let logServices ← logServices read.logServicesFault read.logs logs
    let metricServices ← metricServices read.metricServicesFault read.metricPoints metricPoints
    return {
      spans := rowEstimate read.liveRows.spans
      logs := rowEstimate read.liveRows.logs
      metricPoints := rowEstimate read.liveRows.metricPoints
      services := .ofNat (spanServices ++ logServices ++ metricServices).toFinset.card
    }

structure GetStatsResponse where
  stats : Stats
  backend : String

def Diagnostics.getStats {c : Collation} (read : StatsRead c) (spans : SpansTable) (logs : LogsTable)
    (metricPoints : MetricsTable) : Except Status GetStatsResponse := do
  let stats ← (OtelviewPostgres.stats read spans logs metricPoints).mapError internal
  return { stats, backend := "postgres" }

end OtelviewPostgres
