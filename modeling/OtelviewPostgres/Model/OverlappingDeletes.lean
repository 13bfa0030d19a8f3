import OtelviewPostgres.Model.Retention
import OtelviewPostgres.Relational.CellLocks

/-!
# Deletes that overlap exports

The `DELETE` statements of sweeps on `spans` beside the transactions of `Store::write`, row by row. A
`DELETE` takes rows by their `ctid`, as they are when it begins. A row that is written anew meanwhile
has another `ctid`, and the statement passes over it.
-/

namespace OtelviewPostgres

open Relational

/-- A row with the transaction that wrote this version of it, if it is one of those that run. -/
structure RowVersion (ω : Type) where
  writer : Option ω
  row : SpanRow

inductive SpanJob where
  | write (data : TracesData)
  | delete (cutoff : Int)

section Jobs

variable {ω : Type} [DecidableEq ω]

/-- One row of `INSERT .. ON CONFLICT (trace_id, span_id) DO UPDATE`. -/
def upsertOp (w : ω) (row : SpanRow) : CellOp (Bytes × Bytes) (RowVersion ω) where
  key := row.key
  act current := some {
    writer := some w
    row := (current.map fun version => version.row.updateOnConflict row).getD row }

/-- Delete the version of a row that was there when the statement began. -/
def deleteOp (seen : Bytes × Bytes → Option (RowVersion ω)) (id : Bytes × Bytes) :
    CellOp (Bytes × Bytes) (RowVersion ω) where
  key := id
  act current := if current.map RowVersion.writer = (seen id).map RowVersion.writer then none else current

variable (env : Externals) (job : ω → SpanJob)

/-- What a transaction does: the upserts of an export, or the deletes of expired rows, at most as many
as one statement takes. -/
def spanPlan (w : ω) (chosen : List (Bytes × Bytes)) (table : Bytes × Bytes → Option (RowVersion ω)) :
    Option (List (CellOp (Bytes × Bytes) (RowVersion ω))) :=
  match job w with
  | .write data =>
    match collectSpans env data with
    | .ok batch => some ((spanChunks batch).flatten.map (upsertOp w))
    | .error _ => none
  | .delete cutoff =>
    if chosen.length ≤ batchRows ∧
        ∀ id ∈ chosen, (table id).any (fun version => version.row.startTime < cutoff) then
      some (chosen.map (deleteOp table))
    else none

/-- The table before all of them. -/
def spanCells (t : SpansTable) (id : Bytes × Bytes) : Option (RowVersion ω) :=
  (t.lookup id).map fun row => { writer := none, row }

/-- The exports that have been committed, in that order. -/
def committedWrites (commits : List (ω × List (CellOp (Bytes × Bytes) (RowVersion ω)))) : List TracesData :=
  commits.filterMap fun c =>
    match job c.1 with
    | .write data => some data
    | .delete _ => none

end Jobs

end OtelviewPostgres
