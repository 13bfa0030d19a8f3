import OtelviewPostgres.Model.Statements

/-!
# The schema

The tables and indexes of the scripts under `migrations/`, what running such a script does to a
database, and `Store::migrate`. The server runs the text of a script as one transaction.
-/

namespace OtelviewPostgres

inductive SqlType where
  | bytea
  | text
  | bigint
  | integer
  | smallint
  | doublePrecision
  | jsonb
  | timestamptz
deriving DecidableEq

/-- A column. All of them are `NOT NULL`. -/
structure Column where
  name : String
  type : SqlType
  /-- `DEFAULT`, or `GENERATED ALWAYS AS IDENTITY`. -/
  filled : Option String := none
  /-- `CHECK (octet_length(..) = n)` -/
  octets : Option ℕ := none
deriving DecidableEq

structure TableDef where
  columns : List Column
  primaryKey : List String
deriving DecidableEq

structure IndexKey where
  column : String
  descending : Bool := false
  opclass : Option String := none
deriving DecidableEq

structure IndexDef where
  table : String
  method : String := "btree"
  keys : List IndexKey
  predicate : Option String := none
deriving DecidableEq

/-- Tables and indexes share their names. -/
inductive SchemaObject where
  | table (definition : TableDef)
  | index (definition : IndexDef)
deriving DecidableEq

inductive DdlStatement where
  /-- `CREATE TABLE IF NOT EXISTS` -/
  | createTable (name : String) (definition : TableDef)
  /-- `CREATE INDEX IF NOT EXISTS` -/
  | createIndex (name : String) (definition : IndexDef)
  /-- The `DO` block: create the extension where that is allowed, and the index where the extension is there. -/
  | trigramIndex (name : String) (definition : IndexDef)
deriving DecidableEq

/-- The objects of a database by their names, and whether it has `pg_trgm`. -/
structure Database where
  objects : String → Option SchemaObject := fun _ => none
  trigrams : Bool := false

/-- What the server makes of `CREATE EXTENSION pg_trgm`, where the extension is missing. -/
inductive ExtensionGrant where
  | created
  | insufficientPrivilege
  | refused (e : Error)

def Database.create (db : Database) (name : String) (object : SchemaObject) : Database :=
  { db with objects := fun n => if n = name then some ((db.objects name).getD object) else db.objects n }

/-- A name in the text of a database error. -/
def quoted (name : String) : String := "\"" ++ name ++ "\""

/-- The columns of an index must be those of a table, also where the index is there already. -/
def Database.createIndex (db : Database) (name : String) (definition : IndexDef) : Except Error Database :=
  match db.objects definition.table with
  | some (.table t) =>
    match definition.keys.find? fun key => (t.columns.map Column.name).contains key.column = false with
    | some key => .error (.database ("column " ++ quoted key.column ++ " does not exist"))
    | none => .ok (db.create name (.index definition))
  | some (.index _) => .error (.database ("cannot create index on relation " ++ quoted definition.table))
  | none => .error (.database ("relation " ++ quoted definition.table ++ " does not exist"))

/-- `CREATE EXTENSION IF NOT EXISTS pg_trgm`, and only a lack of privileges is passed over. -/
def Database.createExtension (grant : ExtensionGrant) (db : Database) : Except Error Database :=
  if db.trigrams then .ok db
  else
    match grant with
    | .created => .ok { db with trigrams := true }
    | .insufficientPrivilege => .ok db
    | .refused e => .error e

def DdlStatement.apply (grant : ExtensionGrant) (db : Database) : DdlStatement → Except Error Database
  | createTable name definition => .ok (db.create name (.table definition))
  | createIndex name definition => db.createIndex name definition
  | trigramIndex name definition => do
    let db ← db.createExtension grant
    if db.trigrams then db.createIndex name definition else .ok db

/-- One script, all of it or nothing. -/
def runScript (grant : ExtensionGrant) (script : List DdlStatement) (db : Database) : Except Error Database :=
  script.foldlM (DdlStatement.apply grant) db

def spansTable : TableDef where
  columns := [
    { name := "trace_id", type := .bytea, octets := some 16 },
    { name := "span_id", type := .bytea, octets := some 8 },
    { name := "parent_span_id", type := .bytea },
    { name := "service_name", type := .text },
    { name := "operation_name", type := .text },
    { name := "span_kind", type := .text },
    { name := "start_time_unix_nano", type := .bigint },
    { name := "end_time_unix_nano", type := .bigint },
    { name := "duration_nano", type := .bigint },
    { name := "status_code", type := .smallint },
    { name := "span_attributes", type := .jsonb, filled := some "'{}'" },
    { name := "resource_attributes", type := .jsonb, filled := some "'{}'" },
    { name := "scope_attributes", type := .jsonb, filled := some "'{}'" },
    { name := "payload", type := .bytea },
    { name := "inserted_at", type := .timestamptz, filled := some "now()" }]
  primaryKey := ["trace_id", "span_id"]

def createSpans : List DdlStatement := [
  .createTable "spans" spansTable,
  .createIndex "spans_trace_start_idx"
    { table := "spans", keys := [{ column := "trace_id" }, { column := "start_time_unix_nano" }] },
  .createIndex "spans_service_start_idx"
    { table := "spans"
      keys := [{ column := "service_name" }, { column := "start_time_unix_nano", descending := true }] },
  .createIndex "spans_service_operation_start_idx"
    { table := "spans", keys := [{ column := "service_name" }, { column := "operation_name" },
      { column := "start_time_unix_nano", descending := true }] },
  .createIndex "spans_parent_idx"
    { table := "spans", keys := [{ column := "trace_id" }, { column := "parent_span_id" }] },
  .createIndex "spans_span_attributes_gin"
    { table := "spans", method := "gin", keys := [{ column := "span_attributes", opclass := some "jsonb_path_ops" }] },
  .createIndex "spans_resource_attributes_gin"
    { table := "spans", method := "gin"
      keys := [{ column := "resource_attributes", opclass := some "jsonb_path_ops" }] },
  .createIndex "spans_scope_attributes_gin"
    { table := "spans", method := "gin", keys := [{ column := "scope_attributes", opclass := some "jsonb_path_ops" }] }]

def logsTable : TableDef where
  columns := [
    { name := "id", type := .bigint, filled := some "GENERATED ALWAYS AS IDENTITY" },
    { name := "time_unix_nano", type := .bigint },
    { name := "observed_time_unix_nano", type := .bigint },
    { name := "severity_number", type := .integer },
    { name := "severity_text", type := .text },
    { name := "service_name", type := .text },
    { name := "trace_id", type := .bytea },
    { name := "span_id", type := .bytea },
    { name := "body_text", type := .text },
    { name := "attributes", type := .jsonb, filled := some "'{}'" },
    { name := "resource_attributes", type := .jsonb, filled := some "'{}'" },
    { name := "payload", type := .bytea },
    { name := "inserted_at", type := .timestamptz, filled := some "now()" }]
  primaryKey := ["id"]

def createLogs : List DdlStatement := [
  .createTable "logs" logsTable,
  .createIndex "logs_time_idx" { table := "logs", keys := [{ column := "time_unix_nano", descending := true }] },
  .createIndex "logs_service_time_idx"
    { table := "logs", keys := [{ column := "service_name" }, { column := "time_unix_nano", descending := true }] },
  .createIndex "logs_severity_time_idx"
    { table := "logs", keys := [{ column := "severity_number" }, { column := "time_unix_nano", descending := true }] },
  .createIndex "logs_trace_idx"
    { table := "logs", keys := [{ column := "trace_id" }, { column := "time_unix_nano", descending := true }]
      predicate := some "octet_length(trace_id) = 16" },
  .createIndex "logs_attributes_gin"
    { table := "logs", method := "gin", keys := [{ column := "attributes", opclass := some "jsonb_path_ops" }] },
  .createIndex "logs_resource_attributes_gin"
    { table := "logs", method := "gin"
      keys := [{ column := "resource_attributes", opclass := some "jsonb_path_ops" }] },
  .trigramIndex "logs_body_trgm_idx"
    { table := "logs", method := "gin", keys := [{ column := "body_text", opclass := some "gin_trgm_ops" }] }]

def metricPointsTable : TableDef where
  columns := [
    { name := "id", type := .bigint, filled := some "GENERATED ALWAYS AS IDENTITY" },
    { name := "metric_name", type := .text },
    { name := "description", type := .text },
    { name := "unit", type := .text },
    { name := "metric_type", type := .text },
    { name := "service_name", type := .text },
    { name := "time_unix_nano", type := .bigint },
    { name := "value", type := .doublePrecision },
    { name := "count", type := .bigint, filled := some "0" },
    { name := "attributes", type := .jsonb, filled := some "'{}'" },
    { name := "resource_attributes", type := .jsonb, filled := some "'{}'" },
    { name := "payload", type := .bytea },
    { name := "inserted_at", type := .timestamptz, filled := some "now()" }]
  primaryKey := ["id"]

def createMetricPoints : List DdlStatement := [
  .createTable "metric_points" metricPointsTable,
  .createIndex "metric_points_name_time_idx"
    { table := "metric_points", keys := [{ column := "metric_name" }, { column := "time_unix_nano" }] },
  .createIndex "metric_points_name_service_time_idx"
    { table := "metric_points"
      keys := [{ column := "metric_name" }, { column := "service_name" }, { column := "time_unix_nano" }] },
  .createIndex "metric_points_service_idx" { table := "metric_points", keys := [{ column := "service_name" }] }]

def startIndex : List DdlStatement := [
  .createIndex "spans_start_idx"
    { table := "spans", keys := [{ column := "start_time_unix_nano", descending := true }] }]

def migrations : List (String × List DdlStatement) := [
  ("0001_create_spans", createSpans),
  ("0002_create_logs", createLogs),
  ("0003_create_metric_points", createMetricPoints),
  ("0004_start_index", startIndex)]

/-- How the server answers to one script: whether the extension may be created, and an error of the
connection, which may come before or after the script has taken effect. -/
structure ScriptOutcome where
  grant : ExtensionGrant := .created
  fault : Option (Bool × Error) := none

/-- A round of the loop of `migrate`. -/
def runMigration (outcome : ScriptOutcome) (name : String) (script : List DdlStatement) (db : Database) :
    Except Error Unit × Database :=
  let failed (e : Error) : Except Error Unit := .error (e.context ("run database migration " ++ name))
  match outcome.fault, runScript outcome.grant script db with
  | none, .ok db' => (.ok (), db')
  | none, .error e => (failed e, db)
  | some (true, e), .ok db' => (failed e, db')
  | some (_, e), _ => (failed e, db)

def SpanColumn.name : SpanColumn → String
  | .traceId => "trace_id"
  | .spanId => "span_id"
  | .parentSpanId => "parent_span_id"
  | .serviceName => "service_name"
  | .operationName => "operation_name"
  | .spanKind => "span_kind"
  | .startTimeUnixNano => "start_time_unix_nano"
  | .endTimeUnixNano => "end_time_unix_nano"
  | .durationNano => "duration_nano"
  | .statusCode => "status_code"
  | .spanAttributes => "span_attributes"
  | .resourceAttributes => "resource_attributes"
  | .scopeAttributes => "scope_attributes"
  | .payload => "payload"

def SqlValue.type : SqlValue → SqlType
  | .bytes _ => .bytea
  | .text _ => .text
  | .bigint _ => .bigint
  | .integer _ => .integer
  | .smallint _ => .smallint
  | .double _ => .doublePrecision
  | .json _ => .jsonb

/-- The value has the type of the column and passes its check. -/
def Column.takes (column : Column) (value : SqlValue) : Bool :=
  value.type = column.type && match column.octets, value with
    | some n, .bytes b => b.length == n
    | _, _ => true

/-- An insert that names its columns: each is given once and takes its value, and what is not given
is filled in. -/
def TableDef.takes (t : TableDef) (columns : List String) (values : List SqlValue) : Bool :=
  decide columns.Nodup && columns.length == values.length &&
    (columns.zip values).all (fun (name, value) => t.columns.any fun c => c.name = name && c.takes value) &&
    t.columns.all fun c => columns.contains c.name || c.filled.isSome

end OtelviewPostgres
