import OtelviewPostgres.Model.Spans
import OtelviewPostgres.Relational.OrderBy

/-!
# Searching traces

The `WHERE` clause a trace query turns into, what it means for a row, and
`Store::find_ids`: the newest traces that have a matching span, up to the search depth.
-/

namespace OtelviewPostgres

open Relational

/-- One conjunct of the `WHERE` clause. -/
inductive SpanCondition where
  /-- `service_name = $1` -/
  | serviceName (s : String)
  /-- `operation_name = $1` -/
  | operationName (s : String)
  /-- `start_time_unix_nano >= $1` -/
  | startTimeMin (n : Int)
  /-- `start_time_unix_nano < $1` -/
  | startTimeMax (n : Int)
  /-- `duration_nano >= $1` -/
  | durationMin (n : Int)
  /-- `duration_nano <= $1` -/
  | durationMax (n : Int)
  /-- `span_attributes @> $1 OR resource_attributes @> $2 OR scope_attributes @> $3` -/
  | hasAttribute (needle : Json)

section Search

variable (env : Externals)

/-- `j @> needle` -/
def Json.containedIn (needle j : Json) : Bool :=
  (j.toJsonb env.floatDigits).contains (needle.toJsonb env.floatDigits)

def SpanCondition.holds (row : SpanRow) : SpanCondition → Bool
  | serviceName s => row.service == s
  | operationName s => row.operation == s
  | startTimeMin n => n ≤ row.startTime
  | startTimeMax n => row.startTime < n
  | durationMin n => n ≤ row.duration
  | durationMax n => row.duration ≤ n
  | hasAttribute needle =>
    needle.containedIn env row.spanAttributes || needle.containedIn env row.resourceAttributes ||
      needle.containedIn env row.scopeAttributes

end Search

/-- The condition a present bound adds. -/
def timeBound (ts : Option Timestamp) (condition : Int → SpanCondition) : Except Error (List SpanCondition) :=
  match ts with
  | none => .ok []
  | some ts => do
    let nanos ← timestampToNanos ts
    return [condition nanos]

def applyQuery (query : TraceQueryParameters) : Except Error (List SpanCondition) := do
  let service := if query.serviceName.isEmpty then [] else [SpanCondition.serviceName query.serviceName]
  let operation := if query.operationName.isEmpty then [] else [SpanCondition.operationName query.operationName]
  let startMin ← timeBound query.startTimeMin .startTimeMin
  let startMax ← timeBound query.startTimeMax .startTimeMax
  let durationMin ← durationBound query.durationMin
  let durationMax ← durationBound query.durationMax
  let attributes := query.attributes.map fun kv =>
    SpanCondition.hasAttribute (.object [(kv.key, queryOptionToJson kv.value)])
  return service ++ operation ++ startMin ++ startMax ++ durationMin.toList.map .durationMin ++
    durationMax.toList.map .durationMax ++ attributes

/-- How many traces a search returns at most. -/
def searchDepth (maxSearchDepth : ℕ) (requested : Int32) : ℕ :=
  let requested := if requested ≤ 0 then 20 else requested.toInt.toNat
  min requested (max maxSearchDepth 1)

/-- The matching spans of one trace. -/
structure TraceGroup where
  traceId : Bytes
  /-- `MIN(start_time_unix_nano)` -/
  start : Int
  /-- `MAX(end_time_unix_nano)` -/
  stop : Int
  /-- `MAX(start_time_unix_nano)` -/
  newest : Int
deriving DecidableEq

def traceGroup (traceId : Bytes) (rows : List SpanRow) : TraceGroup where
  traceId := traceId
  start := ((rows.map SpanRow.startTime).min?).getD 0
  stop := ((rows.map SpanRow.endTime).max?).getD 0
  newest := ((rows.map SpanRow.startTime).max?).getD 0

/-- `GROUP BY trace_id` -/
def groupByTrace (rows : List SpanRow) : List TraceGroup :=
  (rows.map SpanRow.traceId).dedup.map fun id => traceGroup id (rows.filter fun row => row.traceId = id)

/-- `ORDER BY MAX(start_time_unix_nano) DESC` -/
def TraceGroup.NotOlder (g g' : TraceGroup) : Prop := g'.newest ≤ g.newest

instance : DecidableRel TraceGroup.NotOlder := fun g g' => inferInstanceAs (Decidable (g'.newest ≤ g.newest))

instance : Std.Total TraceGroup.NotOlder := ⟨fun g g' => le_total g'.newest g.newest⟩

instance : IsTrans TraceGroup TraceGroup.NotOlder := ⟨fun _ _ _ h h' => le_trans h' h⟩

structure FoundTraceId where
  traceId : Bytes
  start : Timestamp
  stop : Timestamp

section Find

variable (env : Externals)

/-- The traces that have a matching span. -/
def matchingTraces (conditions : List SpanCondition) (t : SpansTable) : List TraceGroup :=
  groupByTrace (t.rows.filter fun row => conditions.all fun condition => condition.holds env row)

/-- `fault` is the error of the statement, where it does not run, or of a row of its result that
cannot be read. The caller gets either as it is. -/
def findIds (maxSearchDepth : ℕ) (fault : Option Error) (order : OrderBy TraceGroup TraceGroup.NotOlder)
    (query : TraceQueryParameters) (t : SpansTable) : Except Error (List FoundTraceId) := do
  let conditions ← applyQuery query
  match fault with
  | some e => throw e
  | none =>
    let groups := (order.sort (matchingTraces env conditions t)).take (searchDepth maxSearchDepth query.searchDepth)
    return groups.map fun g => {
      traceId := g.traceId
      start := nanosToTimestamp g.start
      stop := nanosToTimestamp g.stop }

end Find

end OtelviewPostgres
