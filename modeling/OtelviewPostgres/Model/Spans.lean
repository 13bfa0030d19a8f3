import OtelviewPostgres.Model.Externals
import OtelviewPostgres.Relational.KeyedTable

/-!
# Writing spans

The rows of the `spans` table, how one is built from a span and its surroundings, and
`Store::write`: collect the rows, collapse repeated ids, and upsert them in chunks
inside one transaction.
-/

namespace OtelviewPostgres

open Relational

/-- The columns a span row is written with. -/
inductive SpanColumn where
  | traceId
  | spanId
  | parentSpanId
  | serviceName
  | operationName
  | spanKind
  | startTimeUnixNano
  | endTimeUnixNano
  | durationNano
  | statusCode
  | spanAttributes
  | resourceAttributes
  | scopeAttributes
  | payload
deriving DecidableEq

def insertChunkRows : ℕ := 1000

def spanColumns : List SpanColumn :=
  [.traceId, .spanId, .parentSpanId, .serviceName, .operationName, .spanKind, .startTimeUnixNano,
    .endTimeUnixNano, .durationNano, .statusCode, .spanAttributes, .resourceAttributes,
    .scopeAttributes, .payload]

/-- A bound parameter of a statement. -/
inductive SqlValue where
  | bytes (b : Bytes)
  | text (s : String)
  | bigint (n : Int)
  | integer (n : Int32)
  | smallint (n : Int16)
  | double (f : F64)
  | json (j : Json)

structure SpanRow where
  traceId : Bytes
  spanId : Bytes
  parentSpanId : Bytes
  service : String
  operation : String
  kind : String
  startTime : Int
  endTime : Int
  duration : Int
  status : Int16
  spanAttributes : Json
  resourceAttributes : Json
  scopeAttributes : Json
  payload : Bytes

namespace SpanRow

/-- The primary key. -/
def key (r : SpanRow) : Bytes × Bytes := (r.traceId, r.spanId)

/-- The parameters an insert binds for a row, in the order of the columns. -/
def values (r : SpanRow) : List SqlValue :=
  [.bytes r.traceId, .bytes r.spanId, .bytes r.parentSpanId, .text r.service, .text r.operation,
    .text r.kind, .bigint r.startTime, .bigint r.endTime, .bigint r.duration, .smallint r.status,
    .json r.spanAttributes, .json r.resourceAttributes, .json r.scopeAttributes, .bytes r.payload]

def column (r : SpanRow) : SpanColumn → SqlValue
  | .traceId => .bytes r.traceId
  | .spanId => .bytes r.spanId
  | .parentSpanId => .bytes r.parentSpanId
  | .serviceName => .text r.service
  | .operationName => .text r.operation
  | .spanKind => .text r.kind
  | .startTimeUnixNano => .bigint r.startTime
  | .endTimeUnixNano => .bigint r.endTime
  | .durationNano => .bigint r.duration
  | .statusCode => .smallint r.status
  | .spanAttributes => .json r.spanAttributes
  | .resourceAttributes => .json r.resourceAttributes
  | .scopeAttributes => .json r.scopeAttributes
  | .payload => .bytes r.payload

lemma values_eq_map_column (r : SpanRow) : r.values = spanColumns.map r.column := rfl

/-- `SET c = EXCLUDED.c`. -/
def setFrom (excluded r : SpanRow) : SpanColumn → SpanRow
  | .traceId => { r with traceId := excluded.traceId }
  | .spanId => { r with spanId := excluded.spanId }
  | .parentSpanId => { r with parentSpanId := excluded.parentSpanId }
  | .serviceName => { r with service := excluded.service }
  | .operationName => { r with operation := excluded.operation }
  | .spanKind => { r with kind := excluded.kind }
  | .startTimeUnixNano => { r with startTime := excluded.startTime }
  | .endTimeUnixNano => { r with endTime := excluded.endTime }
  | .durationNano => { r with duration := excluded.duration }
  | .statusCode => { r with status := excluded.status }
  | .spanAttributes => { r with spanAttributes := excluded.spanAttributes }
  | .resourceAttributes => { r with resourceAttributes := excluded.resourceAttributes }
  | .scopeAttributes => { r with scopeAttributes := excluded.scopeAttributes }
  | .payload => { r with payload := excluded.payload }

/-- `DO UPDATE` of every column after the first two. -/
def updateOnConflict (old new : SpanRow) : SpanRow := (spanColumns.drop 2).foldl new.setFrom old

/-- The update takes everything but the key from the new row. -/
lemma updateOnConflict_eq (old new : SpanRow) :
    updateOnConflict old new = { new with traceId := old.traceId, spanId := old.spanId } := by
  simp only [updateOnConflict, spanColumns, List.drop_succ_cons, List.drop_zero, List.foldl_cons,
    List.foldl_nil, setFrom]

end SpanRow

def spanConflict : ConflictUpdate SpanRow.key where
  merge := SpanRow.updateOnConflict
  key_merge old new h := by
    rw [SpanRow.updateOnConflict_eq]
    exact h

theorem spanConflict_overwrites : spanConflict.Overwrites := by
  intro old new h
  have hid : old.traceId = new.traceId ∧ old.spanId = new.spanId := Prod.ext_iff.mp h
  change SpanRow.updateOnConflict old new = new
  rw [SpanRow.updateOnConflict_eq, hid.1, hid.2]

abbrev SpansTable := KeyedTable SpanRow.key

def spanKind (kind : Int32) : String :=
  if kind = 1 then "internal"
  else if kind = 2 then "server"
  else if kind = 3 then "client"
  else if kind = 4 then "producer"
  else if kind = 5 then "consumer"
  else "unspecified"

def spanSingletonPayload (resource : ResourceSpans) (scope : ScopeSpans) (span : Span) : TracesData where
  resourceSpans := [{
    resource := resource.resource
    scopeSpans := [{ scope := scope.scope, spans := [span], schemaUrl := scope.schemaUrl }]
    schemaUrl := resource.schemaUrl }]

section Writer

variable (env : Externals)

def spanRow (resourceSpans : ResourceSpans) (scopeSpans : ScopeSpans) (span : Span) (service : String)
    (resourceAttrs scopeAttrs : Json) : Except Error SpanRow := do
  let start ← u64ToI64 span.startTimeUnixNano "start timestamp"
  let stop ← u64ToI64 span.endTimeUnixNano "end timestamp"
  return {
    traceId := span.traceId
    spanId := span.spanId
    parentSpanId := span.parentSpanId
    service := service
    operation := span.name
    kind := spanKind span.kind
    startTime := start
    endTime := stop
    duration := saturatingSub stop start
    status := (span.status.map (fun s => s.code.toInt16)).getD 0
    spanAttributes := attributesToJson span.attributes
    resourceAttributes := resourceAttrs
    scopeAttributes := scopeAttrs
    payload := env.traces.encodeToVec (spanSingletonPayload resourceSpans scopeSpans span) }

/-- What the row-building loops of `write` have gathered so far. -/
structure SpanBatch where
  rejected : ℕ := 0
  errors : List String := []
  rows : List SpanRow := []

def malformedIds (span : Span) : Bool := span.traceId.length != 16 || span.spanId.length != 8

def rejection (span : Span) : String :=
  "span " ++ debugString env.charTables span.name ++ " has trace/span ID lengths " ++ toString span.traceId.length ++
    "/" ++ toString span.spanId.length

def collectSpan (resourceSpans : ResourceSpans) (scopeSpans : ScopeSpans) (service : String)
    (resourceAttrs scopeAttrs : Json) (batch : SpanBatch) (span : Span) : Except Error SpanBatch :=
  if malformedIds span then
    .ok { batch with
      rejected := batch.rejected + 1
      errors := if batch.errors.length < 5 then batch.errors ++ [rejection env span] else batch.errors }
  else do
    let row ← spanRow env resourceSpans scopeSpans span service resourceAttrs scopeAttrs
    return { batch with rows := batch.rows ++ [row] }

def collectScopeSpans (resourceSpans : ResourceSpans) (service : String) (resourceAttrs : Json)
    (batch : SpanBatch) (scopeSpans : ScopeSpans) : Except Error SpanBatch :=
  scopeSpans.spans.foldlM (collectSpan env resourceSpans scopeSpans service resourceAttrs
    (scopeAttributes scopeSpans.scope)) batch

def collectResourceSpans (batch : SpanBatch) (resourceSpans : ResourceSpans) : Except Error SpanBatch :=
  resourceSpans.scopeSpans.foldlM (collectScopeSpans env resourceSpans
    (serviceName (resourceAttributes resourceSpans.resource)) (resourceAttributes resourceSpans.resource)) batch

def collectSpans (data : TracesData) : Except Error SpanBatch :=
  data.resourceSpans.foldlM (collectResourceSpans env) {}

/-- Keep one row for each id, the last, in arrival order. -/
def dedupeSpans (rows : List SpanRow) : List SpanRow :=
  let lastIndex := rows.zipIdx.foldl (fun m (row, index) => m.insert row.key index)
    (∅ : AList (fun _ : Bytes × Bytes => ℕ))
  let keep := (lastIndex.entries.map Sigma.snd).insertionSort (· ≤ ·)
  keep.filterMap (fun i => rows[i]?)

/-- The `CHECK` constraints of the table. -/
def satisfiesChecks (row : SpanRow) : Bool := row.traceId.length == 16 && row.spanId.length == 8

/-- One multi-row `INSERT .. ON CONFLICT (trace_id, span_id) DO UPDATE`. -/
def upsertSpans (server : Server SpanRow) (chunk : List SpanRow) (t : SpansTable) : Except Error SpansTable :=
  match chunk.findSome? server.refuses with
  | some e => .error e
  | none =>
    if ¬ chunk.all satisfiesChecks then
      .error (.database "new row for relation spans violates check constraint")
    else if ¬ (chunk.map SpanRow.key).Nodup then
      .error (.database "ON CONFLICT DO UPDATE command cannot affect row a second time")
    else .ok (t.upsertAll spanConflict chunk)

/-- The number of parameters the statement for a chunk binds. -/
def insertBinds (chunk : List SpanRow) : ℕ := (chunk.flatMap SpanRow.values).length

/-- The chunks a batch is written in, one statement each. -/
def spanChunks (batch : SpanBatch) : List (List SpanRow) := chunks insertChunkRows (dedupeSpans batch.rows)

def write (server : Server SpanRow) (data : TracesData) (t : SpansTable) :
    Except Error (ℕ × List String) × SpansTable :=
  match collectSpans env data with
  | .error e => (.error e, t)
  | .ok batch =>
    match runTransaction server.faults ((spanChunks batch).map (upsertSpans server)) t with
    | (.error e, t') => (.error e, t')
    | (.ok (), t') => (.ok (batch.rejected, batch.errors), t')

end Writer

end OtelviewPostgres
