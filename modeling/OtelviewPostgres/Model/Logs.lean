import OtelviewPostgres.Model.Records

/-!
# Writing logs

The rows of the `logs` table, how one is built from a record and its surroundings, and
`Store::write_logs`.
-/

namespace OtelviewPostgres

open Relational

structure LogRow where
  time : Int
  observed : Int
  severityNumber : Int32
  severityText : String
  service : String
  traceId : Bytes
  spanId : Bytes
  body : String
  attributes : Json
  resourceAttributes : Json
  payload : Bytes

abbrev LogsTable := IdentityTable LogRow

def logSingletonPayload (resource : ResourceLogs) (scope : ScopeLogs) (record : LogRecord) : LogsData where
  resourceLogs := [{
    resource := resource.resource
    scopeLogs := [{ scope := scope.scope, logRecords := [record], schemaUrl := scope.schemaUrl }]
    schemaUrl := resource.schemaUrl }]

section Writer

variable (env : Externals)

/-- A string body as it stands, any other body as its JSON text. -/
def bodyText (record : LogRecord) : String :=
  match otelOptionToJson record.body with
  | .string s => s
  | .null => ""
  | other => other.display env.floatText

def logRow (resourceLogs : ResourceLogs) (scopeLogs : ScopeLogs) (record : LogRecord) (service : String)
    (resourceAttrs : Json) : Except Error LogRow := do
  let time := if record.timeUnixNano ≠ 0 then record.timeUnixNano else record.observedTimeUnixNano
  let logTime ← u64ToI64 time "log timestamp"
  let observed ← u64ToI64 record.observedTimeUnixNano "observed timestamp"
  return {
    time := logTime
    observed := observed
    severityNumber := record.severityNumber
    severityText := record.severityText
    service := service
    traceId := record.traceId
    spanId := record.spanId
    body := bodyText env record
    attributes := attributesToJson record.attributes
    resourceAttributes := resourceAttrs
    payload := env.logs.encodeToVec (logSingletonPayload resourceLogs scopeLogs record) }

def collectLogRecord (resourceLogs : ResourceLogs) (scopeLogs : ScopeLogs) (service : String)
    (resourceAttrs : Json) (rows : List LogRow) (record : LogRecord) : Except Error (List LogRow) := do
  let row ← logRow env resourceLogs scopeLogs record service resourceAttrs
  return rows ++ [row]

def collectScopeLogs (resourceLogs : ResourceLogs) (service : String) (resourceAttrs : Json)
    (rows : List LogRow) (scopeLogs : ScopeLogs) : Except Error (List LogRow) :=
  scopeLogs.logRecords.foldlM (collectLogRecord env resourceLogs scopeLogs service resourceAttrs) rows

def collectResourceLogs (rows : List LogRow) (resourceLogs : ResourceLogs) : Except Error (List LogRow) :=
  resourceLogs.scopeLogs.foldlM (collectScopeLogs env resourceLogs
    (serviceName (resourceAttributes resourceLogs.resource)) (resourceAttributes resourceLogs.resource)) rows

def collectLogs (data : LogsData) : Except Error (List LogRow) :=
  data.resourceLogs.foldlM (collectResourceLogs env) []

def writeLogs (server : Server LogRow) (data : LogsData) (t : LogsTable) : Except Error ℕ × LogsTable :=
  writeRecords server (collectLogs env data) t

end Writer

end OtelviewPostgres
