import OtelviewPostgres.Model.Server
import OtelviewPostgres.Relational.Join

/-!
# Dependencies

`Store::dependencies` joins the spans with their parents and counts the pairs of services, and
`get_dependencies` answers with these counts. The order of equal counts is a parameter.
-/

namespace OtelviewPostgres

open Relational

structure DependencyRow where
  parent : String
  child : String
  calls : Int

/-- `ORDER BY calls DESC` -/
def NotFewerCalls (d d' : DependencyRow) : Prop := d'.calls ≤ d.calls

instance instDecidableRelNotFewerCalls : DecidableRel NotFewerCalls := fun d d' =>
  inferInstanceAs (Decidable (d'.calls ≤ d.calls))

instance instTotalNotFewerCalls : Std.Total NotFewerCalls := ⟨fun d d' => le_total d'.calls d.calls⟩

instance instIsTransNotFewerCalls : IsTrans DependencyRow NotFewerCalls := ⟨fun _ _ _ h h' => le_trans h' h⟩

/-- `p.trace_id = c.trace_id AND p.span_id = c.parent_span_id` -/
def IsParent (c p : SpanRow) : Prop := p.traceId = c.traceId ∧ p.spanId = c.parentSpanId

instance instDecidableIsParent (c p : SpanRow) : Decidable (IsParent c p) :=
  inferInstanceAs (Decidable (p.traceId = c.traceId ∧ p.spanId = c.parentSpanId))

/-- The pairs of a span in the window and its parent in another service. -/
def calls (start stop : Int) (t : SpansTable) : List (SpanRow × SpanRow) :=
  (innerJoin IsParent t.rows t.rows).filter fun (c, p) =>
    start ≤ c.startTime ∧ c.startTime < stop ∧ p.service ≠ c.service

/-- `fault` is the error of the statement, where it does not run. -/
def dependencies (fault : Option Error) (order : OrderBy DependencyRow NotFewerCalls) (start stop : Int)
    (t : SpansTable) : Except Error (List DependencyRow) :=
  match fault with
  | some e => .error e
  | none =>
    .ok (order.sort ((groupCount (fun (c, p) => (p.service, c.service)) (calls start stop t)).map
      fun ((parent, child), calls) => { parent, child, calls }))

structure GetDependenciesRequest where
  startTime : Option Timestamp := none
  endTime : Option Timestamp := none

structure Dependency where
  parent : String
  child : String
  callCount : UInt64
  source : String

def requireTimestamp (name : String) (ts : Option Timestamp) : Except Status Int :=
  match ts with
  | none => .error (invalidArgument (name ++ " is required"))
  | some ts => (timestampToNanos ts).mapError fun e => invalidArgument e.display

def DependencyReader.getDependencies (fault : Option Error) (order : OrderBy DependencyRow NotFewerCalls)
    (request : GetDependenciesRequest) (t : SpansTable) : Except Status (List Dependency) := do
  let start ← requireTimestamp "start_time" request.startTime
  let stop ← requireTimestamp "end_time" request.endTime
  if start ≥ stop then
    .error (invalidArgument "start_time must be before end_time")
  else do
    let dependencies ← (dependencies fault order start stop t).mapError internal
    return dependencies.map fun row =>
      { parent := row.parent, child := row.child, callCount := clampToU64 row.calls, source := "postgres" }

end OtelviewPostgres
