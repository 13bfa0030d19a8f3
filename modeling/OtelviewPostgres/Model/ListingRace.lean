import OtelviewPostgres.Model.Listings
import OtelviewPostgres.Model.Retention
import OtelviewPostgres.Relational.Runs

/-!
# Listing metrics beside writers and sweeps

`Store::list_metrics` as a system: each of its statements sees the table as it is when the
statement runs, and between any two of them writes commit and sweeps delete a batch.
-/

namespace OtelviewPostgres

open Relational

/-- How far the task of a lookup has come. -/
inductive LookupProgress where
  | started
  | described (descriptor : MetricDescriptor)
  | completed (result : Except Error MetricInfo)

/-- How far the listing has come. -/
inductive ListProgress where
  | idle
  | listing (names : List String) (tasks : List LookupProgress) (out : List (Option MetricInfo))
  | returned (result : Except Error (List MetricInfo))

structure ListRace where
  table : MetricsTable
  progress : ListProgress := .idle

inductive ListAction where
  /-- A write of metrics, committed or not. -/
  | write (server : Server MetricRow) (data : MetricsData)
  /-- One statement of a sweep. -/
  | sweep (cutoff : Int) (choice : BatchChoice ℕ batchRows) (i : ℕ)
  | walkNames
  | describe (index : ℕ)
  | walkServices (index : ℕ)
  | join (index : ℕ)
  | finish

section Race

variable {c : Collation} (env : Externals) (order : OrderBy StoredPoint (ColumnLe c.lt fun p => p.row.name))
  (lookups : ℕ → MetricLookup c)

def describeTask (lookup : MetricLookup c) (name : String) (t : MetricsTable) : LookupProgress :=
  match metricDescriptor lookup name t with
  | .ok descriptor => .described descriptor
  | .error e => .completed (.error e)

def servicesTask (lookup : MetricLookup c) (name : String) (descriptor : MetricDescriptor) (t : MetricsTable) :
    LookupProgress :=
  .completed do
    let services ← servicesOfMetric lookup name t
    readMetricInfo lookup name descriptor services

/-- Join one task, and give up at the first that failed. -/
def joinTask (lookup : MetricLookup c) (index : ℕ) (result : Except Error MetricInfo) (names : List String)
    (tasks : List LookupProgress) (out : List (Option MetricInfo)) : ListProgress :=
  match joinLookup lookup result with
  | .ok info => .listing names tasks (out.set index (some info))
  | .error e => .returned (.error e)

/-- One step, where it is possible. -/
def ListRace.step (s : ListRace) : ListAction → Option ListRace
  | .write server data => some { s with table := (writeMetrics env server data s.table).2 }
  | .sweep cutoff choice i =>
    let victims := KeyedTable.victims choice (fun p => p.row.time < cutoff) i s.table
    some { s with table := s.table.delete fun p => p.id ∈ victims }
  | .walkNames =>
    match s.progress, metricNames none order s.table with
    | .idle, .ok names => some { s with
        progress := .listing names (names.map fun _ => .started) (names.map fun _ => none) }
    | _, _ => none
  | .describe index =>
    match s.progress with
    | .listing names tasks out =>
      match names[index]?, tasks[index]? with
      | some name, some .started => some { s with
          progress := .listing names (tasks.set index (describeTask (lookups index) name s.table)) out }
      | _, _ => none
    | _ => none
  | .walkServices index =>
    match s.progress with
    | .listing names tasks out =>
      match names[index]?, tasks[index]? with
      | some name, some (.described descriptor) => some { s with
          progress := .listing names (tasks.set index (servicesTask (lookups index) name descriptor s.table)) out }
      | _, _ => none
    | _ => none
  | .join index =>
    match s.progress with
    | .listing names tasks out =>
      match tasks[index]?, out[index]? with
      | some (.completed result), some none =>
        some { s with progress := joinTask (lookups index) index result names tasks out }
      | _, _ => none
    | _ => none
  | .finish =>
    match s.progress with
    | .listing _ _ out =>
      if out.all Option.isSome then some { s with progress := .returned (.ok (out.filterMap id)) } else none
    | _ => none

/-- The name that a lookup of the listing is for. -/
def ListRace.nameAt (s : ListRace) (index : ℕ) : Option String :=
  match s.progress with
  | .listing names _ _ => names[index]?
  | _ => none

/-- Some point of the metric is stored. -/
def ListRace.Stores (s : ListRace) (name : String) : Prop := ∃ p ∈ s.table.rows, p.row.name = name

end Race

end OtelviewPostgres
