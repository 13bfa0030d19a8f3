import OtelviewPostgres.Model.Logs
import OtelviewPostgres.Model.Search
import OtelviewPostgres.Relational.Like

/-!
# Searching logs

`Store::find_logs`: the `WHERE` clause of a log query, and the payloads of the newest records
that meet it, up to the search depth.
-/

namespace OtelviewPostgres

open Relational

/-- One conjunct of the `WHERE` clause. -/
inductive LogCondition where
  /-- `service_name = $1` -/
  | serviceName (s : String)
  /-- `severity_number >= $1` -/
  | minSeverity (n : Int32)
  /-- `trace_id = $1` -/
  | traceId (id : Bytes)
  /-- `octet_length(trace_id) = 16` -/
  | traceIdLength
  /-- `time_unix_nano >= $1` -/
  | timeMin (n : Int)
  /-- `time_unix_nano < $1` -/
  | timeMax (n : Int)
  /-- `body_text ILIKE $1 OR severity_text ILIKE $1 OR attributes::TEXT ILIKE $1` -/
  | search (pattern : String)

/-- `str::replace` of one character. -/
def replaceChar (c : Char) (replacement : List Char) (s : List Char) : List Char :=
  s.flatMap fun d => if d = c then replacement else [d]

def escapeLike (needle : String) : String :=
  .ofList (replaceChar '_' ['\\', '_'] (replaceChar '%' ['\\', '%'] (replaceChar '\\' ['\\', '\\'] needle.toList)))

/-- The condition a present bound adds. -/
def logTimeBound (ts : Option Timestamp) (condition : Int → LogCondition) :
    Except (Failure Error) (List LogCondition) :=
  match ts with
  | none => .ok []
  | some ts => do
    let nanos ← (timestampToNanos ts).mapError .error
    return [condition nanos]

/-- The conditions a trace id adds. It is decoded from its digits, which can panic. -/
def traceIdConditions (hex : String) : Except (Failure Error) (List LogCondition) :=
  if hex.isEmpty then .ok []
  else
    match hexDecode hex with
    | .error p => .error (.panic p)
    | .ok none => .error (.error (.message "trace_id must be a hex string"))
    | .ok (some id) => .ok [.traceId id, .traceIdLength]

def logConditions (query : LogQueryParameters) : Except (Failure Error) (List LogCondition) := do
  let service := if query.serviceName.isEmpty then [] else [LogCondition.serviceName query.serviceName]
  let severity := if 0 < query.minSeverity then [LogCondition.minSeverity query.minSeverity] else []
  let traceId ← traceIdConditions query.traceId
  let timeMin ← logTimeBound query.timeMin .timeMin
  let timeMax ← logTimeBound query.timeMax .timeMax
  let search := if query.search.isEmpty then [] else [LogCondition.search ("%" ++ escapeLike query.search ++ "%")]
  return service ++ severity ++ traceId ++ timeMin ++ timeMax ++ search

/-- `ORDER BY time_unix_nano DESC` -/
def NewerLog (r r' : Stored LogRow) : Prop := r'.row.time ≤ r.row.time

instance : DecidableRel NewerLog := fun r r' => inferInstanceAs (Decidable (r'.row.time ≤ r.row.time))

instance : Std.Total NewerLog := ⟨fun r r' => le_total r'.row.time r.row.time⟩

instance : IsTrans (Stored LogRow) NewerLog := ⟨fun _ _ _ h h' => le_trans h' h⟩

section Find

variable (env : Externals) (fold : Char → Char)

def LogCondition.holds (row : LogRow) : LogCondition → Bool
  | serviceName s => row.service == s
  | minSeverity n => n ≤ row.severityNumber
  | traceId id => row.traceId == id
  | traceIdLength => row.traceId.length == 16
  | timeMin n => n ≤ row.time
  | timeMax n => row.time < n
  | search pattern =>
    ilike fold row.body.toList pattern.toList || ilike fold row.severityText.toList pattern.toList ||
      ilike fold (row.attributes.toJsonb env.floatDigits).text.toList pattern.toList

/-- The record meets the conditions of the query. -/
def LogQueryParameters.Matches (query : LogQueryParameters) (row : LogRow) : Prop :=
  ∃ conditions, logConditions query = .ok conditions ∧
    (conditions.all fun condition => condition.holds env fold row) = true

/-- The records that meet the conditions, the newest first. -/
def logRows (order : OrderBy (Stored LogRow) NewerLog) (limit : ℕ) (conditions : List LogCondition) (t : LogsTable) :
    List (Stored LogRow) :=
  (order.sort (t.rows.filter fun r => conditions.all fun condition => condition.holds env fold r.row)).take limit

/-- `queryFault` is the error of the statement, where it does not run, and `rowFault` that of
a row of its result that cannot be read. -/
def findLogs (maxSearchDepth : ℕ) (queryFault rowFault : Option Error) (order : OrderBy (Stored LogRow) NewerLog)
    (query : LogQueryParameters) (t : LogsTable) : Except (Failure Error) (List Bytes) := do
  let conditions ← logConditions query
  match queryFault, rowFault with
  | some e, _ => throw (.error (.context "query logs" e))
  | none, some e => throw (.error e)
  | none, none =>
    return (logRows env fold order (searchDepth maxSearchDepth query.searchDepth) conditions t).map fun r =>
      r.row.payload

end Find

end OtelviewPostgres
