import OtelviewPostgres.Model.Logs
import OtelviewPostgres.Model.MetricSearch
import OtelviewPostgres.Relational.LooseScan
import OtelviewPostgres.Relational.Traversal

/-!
# Listings

The services, operations and metrics that are stored: `Store::distinct_indexed` and the
listings made from it, `Store::operations`, and `Store::list_metrics`, which looks up every
metric in a task of its own. The collation of the database is a parameter.
-/

namespace OtelviewPostgres

open Relational

/-- The order of text values. -/
structure Collation where
  lt : String → String → Prop
  decidable : DecidableRel lt
  strict : IsStrictTotalOrder String lt

instance (c : Collation) : DecidableRel c.lt := c.decidable

instance (c : Collation) : IsStrictTotalOrder String c.lt := c.strict

section Walks

variable {c : Collation} {ρ : Type} {column : ρ → String}

/-- `SELECT v FROM walk WHERE v IS NOT NULL ORDER BY v` -/
def distinctValues (order : OrderBy ρ (ColumnLe c.lt column)) (rows : List ρ) : List String :=
  (((scalarWalk order rows).get (isSome_scalarWalk order rows)).filterMap id).insertionSort fun a b => ¬ c.lt b a

/-- `fault` is the error of the statement, where it does not run. -/
def distinctIndexed (fault : Option Error) (order : OrderBy ρ (ColumnLe c.lt column)) (rows : List ρ) :
    Except Error (List String) :=
  match fault with
  | some e => .error e
  | none => .ok (distinctValues order rows)

end Walks

section Spans

variable {c : Collation}

def services (fault : Option Error) (order : OrderBy SpanRow (ColumnLe c.lt SpanRow.service)) (t : SpansTable) :
    Except Error (List String) :=
  distinctIndexed fault order t.rows

def logServices (fault : Option Error) (order : OrderBy (Stored LogRow) (ColumnLe c.lt fun r => r.row.service))
    (t : LogsTable) : Except Error (List String) :=
  distinctIndexed fault order t.rows

def metricServices (fault : Option Error) (order : OrderBy StoredPoint (ColumnLe c.lt fun p => p.row.service))
    (t : MetricsTable) : Except Error (List String) :=
  distinctIndexed fault order t.rows

structure Operation where
  name : String
  spanKind : String

/-- An empty kind stands for every kind. -/
def operations (fault : Option Error) (order : OrderBy SpanRow (ColumnLe c.lt SpanRow.operation))
    (service kind : String) (t : SpansTable) : Except Error (List Operation) :=
  match fault with
  | some e => .error e
  | none =>
    let rows := t.rows.filter fun row => row.service = service ∧ (kind.isEmpty ∨ row.kind = kind)
    let walk := (lateralWalk order rows).get (isSome_lateralWalk order rows)
    .ok ((walk.insertionSort (ColumnLe c.lt SpanRow.operation)).map fun row =>
      { name := row.operation, spanKind := row.kind })

end Spans

/-- `ORDER BY time_unix_nano DESC` -/
def NotEarlier (p p' : StoredPoint) : Prop := p'.row.time ≤ p.row.time

instance : DecidableRel NotEarlier := fun p p' => inferInstanceAs (Decidable (p'.row.time ≤ p.row.time))

instance : Std.Total NotEarlier := ⟨fun p p' => le_total p'.row.time p.row.time⟩

instance : IsTrans StoredPoint NotEarlier := ⟨fun _ _ _ h h' => le_trans h' h⟩

/-- The part of a metric that its newest point gives. -/
structure MetricDescriptor where
  description : String
  unit : String
  metricType : String

structure MetricInfo where
  name : String
  description : String
  unit : String
  metricType : String
  services : List String

/-- What the database and the runtime decide about the lookup of one metric. -/
structure MetricLookup (c : Collation) where
  descriptorFault : Option Error := none
  servicesFault : Option Error := none
  /-- The error of a column of the descriptor that does not decode. -/
  rowFault : Option Error := none
  /-- The error of a task that does not come to its end. -/
  taskFault : Option Error := none
  newest : OrderBy StoredPoint NotEarlier
  services : OrderBy StoredPoint (ColumnLe c.lt fun p => p.row.service)

section Lookup

variable {c : Collation} (lookup : MetricLookup c) (name : String)

/-- The descriptor of the newest point, of which there has to be one. -/
def metricDescriptor (t : MetricsTable) : Except Error MetricDescriptor :=
  match lookup.descriptorFault with
  | some e => .error (.context "fetch metric descriptor" e)
  | none =>
    match (lookup.newest.sort (t.rows.filter fun p => p.row.name = name)).head? with
    | none => .error (.context "fetch metric descriptor"
        (.database "no rows returned by a query that expected to return at least one row"))
    | some p => .ok { description := p.row.description, unit := p.row.unit, metricType := p.row.metricType }

def servicesOfMetric (t : MetricsTable) : Except Error (List String) :=
  match lookup.servicesFault with
  | some e => .error (.context "list metric services" e)
  | none => .ok (distinctValues lookup.services (t.rows.filter fun p => p.row.name = name))

/-- The columns of the descriptor are read after the services. -/
def readMetricInfo (descriptor : MetricDescriptor) (services : List String) : Except Error MetricInfo :=
  match lookup.rowFault with
  | some e => .error e
  | none => .ok {
      name
      description := descriptor.description
      unit := descriptor.unit
      metricType := descriptor.metricType
      services }

/-- The two statements of a lookup, each on the table as it is when the statement runs. -/
def metricInfo (descriptorTable servicesTable : MetricsTable) : Except Error MetricInfo := do
  let descriptor ← metricDescriptor lookup name descriptorTable
  let services ← servicesOfMetric lookup name servicesTable
  readMetricInfo lookup name descriptor services

/-- What joining the task of a lookup gives. -/
def joinLookup (info : Except Error MetricInfo) : Except Error MetricInfo :=
  match lookup.taskFault with
  | some e => .error (.context "metric lookup task" e)
  | none => info

end Lookup

def metricNames {c : Collation} (fault : Option Error) (order : OrderBy StoredPoint (ColumnLe c.lt fun p => p.row.name))
    (t : MetricsTable) : Except Error (List String) :=
  (distinctIndexed fault order t.rows).mapError (.context "list metric names")

/-- The lookups of a listing complete in any order. The tables are those their statements see. -/
def listMetrics {c : Collation} (fault : Option Error) (order : OrderBy StoredPoint (ColumnLe c.lt fun p => p.row.name))
    (lookups : ℕ → MetricLookup c) (completion : AnyOrder (String × ℕ)) (namesTable : MetricsTable)
    (descriptorTable servicesTable : ℕ → MetricsTable) : Except Error (List MetricInfo) := do
  let names ← metricNames fault order namesTable
  let out ← (completion.sort names.zipIdx).foldlM
    (fillSlot fun (name, index) =>
      joinLookup (lookups index) (metricInfo (lookups index) name (descriptorTable index) (servicesTable index)))
    (List.replicate names.length none)
  return out.filterMap id

end OtelviewPostgres
