import OtelviewPostgres.Model.Search

/-!
# Reading traces

`Store::spans_for_ids` and the summaries made from its rows. The order of spans of one trace
that start together and the two orders of hash maps are parameters.
-/

namespace OtelviewPostgres

open Relational

/-- Bytes are compared as unsigned numbers, and byte strings byte by byte. -/
instance instLinearOrderByte : LinearOrder UInt8 where
  le_refl := UInt8.le_refl
  le_trans _ _ _ := UInt8.le_trans
  le_antisymm _ _ := UInt8.le_antisymm
  le_total := UInt8.le_total
  lt_iff_le_not_ge a b := by
    rw [UInt8.not_le]
    exact ⟨fun h => ⟨UInt8.le_of_lt h, h⟩, And.right⟩
  toDecidableLE := inferInstance
  toDecidableEq := inferInstance
  toDecidableLT := inferInstance

structure StoredSpan where
  traceId : Bytes
  spanId : Bytes
  parentSpanId : Bytes
  serviceName : String
  operationName : String
  start : Int
  stop : Int
  statusCode : Int16
  payload : Bytes

def rowToSpan (row : SpanRow) : StoredSpan where
  traceId := row.traceId
  spanId := row.spanId
  parentSpanId := row.parentSpanId
  serviceName := row.service
  operationName := row.operation
  start := row.startTime
  stop := row.endTime
  statusCode := row.status
  payload := row.payload

/-- `ORDER BY trace_id ASC, start_time_unix_nano ASC` -/
def TraceOrder (r r' : SpanRow) : Prop :=
  r.traceId < r'.traceId ∨ r.traceId = r'.traceId ∧ r.startTime ≤ r'.startTime

instance : DecidableRel TraceOrder := fun r r' =>
  inferInstanceAs (Decidable (r.traceId < r'.traceId ∨ r.traceId = r'.traceId ∧ r.startTime ≤ r'.startTime))

instance : Std.Total TraceOrder := ⟨fun r r' => by
  rcases lt_trichotomy r.traceId r'.traceId with hlt | heq | hgt
  · exact .inl (.inl hlt)
  · rcases le_total r.startTime r'.startTime with hle | hle
    · exact .inl (.inr ⟨heq, hle⟩)
    · exact .inr (.inr ⟨heq.symm, hle⟩)
  · exact .inr (.inl hgt)⟩

instance : IsTrans SpanRow TraceOrder := ⟨fun a b c hab hbc => by
  rcases hab with hab | ⟨hab, hstart⟩
  · rcases hbc with hbc | ⟨hbc, -⟩
    · exact .inl (hab.trans hbc)
    · exact .inl (hbc ▸ hab)
  · rcases hbc with hbc | ⟨hbc, hstart'⟩
    · exact .inl (hab ▸ hbc)
    · exact .inr ⟨hab.trans hbc, hstart.trans hstart'⟩⟩

/-- `WHERE trace_id IN (..) ORDER BY trace_id ASC, start_time_unix_nano ASC` -/
def traceRows (order : OrderBy SpanRow TraceOrder) (traceIds : List Bytes) (t : SpansTable) : List SpanRow :=
  order.sort (t.rows.filter fun row => row.traceId ∈ traceIds)

/-- `fault` is the error of the statement, where it does not run. -/
def spansForIds (fault : Option Error) (order : OrderBy SpanRow TraceOrder) (traceIds : List Bytes)
    (t : SpansTable) : Except Error (List StoredSpan) :=
  if traceIds.isEmpty then .ok []
  else
    match fault with
    | some e => .error e
    | none => .ok ((traceRows order traceIds t).map rowToSpan)

structure ServiceSummary where
  name : String
  spanCount : Int32
  errorSpanCount : Int32

structure TraceSummary where
  traceId : Bytes
  rootServiceName : String
  rootOperationName : String
  minStartTimeUnixNano : UInt64
  maxEndTimeUnixNano : UInt64
  spanCount : Int32
  errorSpanCount : Int32
  orphanSpanCount : Int32
  services : List ServiceSummary

def StoredSpan.isError (span : StoredSpan) : Bool := span.statusCode == 2

/-- Count one span for its service. -/
def countService (services : AList fun _ : String => Int32 × Int32) (span : StoredSpan) :
    AList fun _ : String => Int32 × Int32 :=
  let (spanCount, errorSpanCount) := (services.lookup span.serviceName).getD (0, 0)
  services.insert span.serviceName (spanCount + 1, if span.isError then errorSpanCount + 1 else errorSpanCount)

/-- `std::cmp::max(value, 0) as u64` -/
def clampToU64 (value : Int) : UInt64 := .ofNat (max value 0).toNat

def summarize (order : AnyOrder ServiceSummary) (spans : List StoredSpan) : TraceSummary :=
  let spans := spans.insertionSort fun s s' => s.start ≤ s'.start
  let ids := spans.map StoredSpan.spanId
  let root := spans.find? fun s => s.parentSpanId.isEmpty
  let services := spans.foldl countService ∅
  { traceId := (spans.head?.map StoredSpan.traceId).getD []
    rootServiceName := (root.map StoredSpan.serviceName).getD ""
    rootOperationName := (root.map StoredSpan.operationName).getD ""
    minStartTimeUnixNano := ((spans.map fun s => clampToU64 s.start).min?).getD 0
    maxEndTimeUnixNano := ((spans.map fun s => clampToU64 s.stop).max?).getD 0
    spanCount := .ofNat spans.length
    errorSpanCount := .ofNat (spans.countP StoredSpan.isError)
    orphanSpanCount := .ofNat (spans.countP fun s => !s.parentSpanId.isEmpty && !ids.contains s.parentSpanId)
    services := order.sort (services.entries.map fun ⟨name, spanCount, errorSpanCount⟩ =>
      { name, spanCount, errorSpanCount }) }

/-- Add a span to its trace. -/
def groupSpan (traces : AList fun _ : Bytes => List StoredSpan) (span : StoredSpan) :
    AList fun _ : Bytes => List StoredSpan :=
  traces.insert span.traceId ((traces.lookup span.traceId).getD [] ++ [span])

/-- One summary for each trace. The hash maps give up their entries in any order. -/
def summaries (traceOrder : AnyOrder (List StoredSpan)) (serviceOrder : Bytes → AnyOrder ServiceSummary)
    (spans : List StoredSpan) : List TraceSummary :=
  let traces := spans.foldl groupSpan ∅
  (traceOrder.sort (traces.entries.map Sigma.snd)).map fun spans =>
    summarize (serviceOrder ((spans.head?.map StoredSpan.traceId).getD [])) spans

end OtelviewPostgres
