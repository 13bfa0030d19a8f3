import OtelviewPostgres.Model.Metrics
import OtelviewPostgres.Relational.GroupBy
import OtelviewPostgres.Relational.OrderBy

/-!
# Searching metrics

`Store::find_metrics`: the statement that filters the points of a metric and thins out each
series, and the pass over its result that trims each series to the requested number of
points. The statement orders points by time alone, once within each series and once
overall, so two orders of points with equal times are parameters.
-/

namespace OtelviewPostgres

open Relational

def maxMetricRows : ℕ := 100000

def defaultMaxPoints : ℕ := 500

abbrev StoredPoint := Stored MetricRow

/-- The number of points a series is trimmed to. -/
def requestedPoints (query : MetricQueryParameters) : ℕ :=
  if query.maxPoints ≤ 0 then defaultMaxPoints else query.maxPoints.toInt.toNat

/-- The `WHERE` clause: name, service, and a half-open window of time. -/
structure MetricConditions where
  metricName : String
  serviceName : Option String
  timeMin : Option Int
  timeMax : Option Int

def MetricConditions.holds (conditions : MetricConditions) (row : MetricRow) : Bool :=
  row.name == conditions.metricName && conditions.serviceName.all (row.service == ·) &&
    conditions.timeMin.all (fun n => n ≤ row.time) && conditions.timeMax.all (fun n => row.time < n)

def optionalNanos (ts : Option Timestamp) : Except Error (Option Int) :=
  match ts with
  | none => .ok none
  | some ts => do return some (← timestampToNanos ts)

def metricConditions (query : MetricQueryParameters) : Except Error MetricConditions := do
  if query.metricName.isEmpty then throw (.message "metric_name is required")
  let serviceName := if query.serviceName.isEmpty then none else some query.serviceName
  let timeMin ← optionalNanos query.timeMin
  let timeMax ← optionalNanos query.timeMax
  return { metricName := query.metricName, serviceName, timeMin, timeMax }

/-- `ORDER BY time_unix_nano` -/
def NotLater (p p' : StoredPoint) : Prop := p.row.time ≤ p'.row.time

instance : DecidableRel NotLater := fun p p' => inferInstanceAs (Decidable (p.row.time ≤ p'.row.time))

instance : Std.Total NotLater := ⟨fun p p' => le_total p.row.time p'.row.time⟩

instance : IsTrans StoredPoint NotLater := ⟨fun _ _ _ h h' => le_trans h h'⟩

section Statement

variable (floatDigits : F64 → Jsonb.Numeric)

/-- `PARTITION BY service_name, attributes`, where `jsonb` compares numbers by value. -/
def samePartition (p p' : StoredPoint) : Bool :=
  p.row.service == p'.row.service &&
    (p.row.attributes.toJsonb floatDigits).eqv (p'.row.attributes.toJsonb floatDigits)

/-- `attributes::TEXT` -/
def seriesAttrs (p : StoredPoint) : String := (p.row.attributes.toJsonb floatDigits).text

/-- The key the result is grouped by. -/
def seriesKey (p : StoredPoint) : String × String := (p.row.service, seriesAttrs floatDigits p)

def partitionOf (points : List StoredPoint) (p : StoredPoint) : List StoredPoint :=
  points.filter (samePartition floatDigits p)

/-- `row_number() OVER (PARTITION BY service_name, attributes ORDER BY time_unix_nano)` -/
def rowNumber (window : OrderBy StoredPoint NotLater) (points : List StoredPoint) (p : StoredPoint) : ℕ :=
  (window.sort (partitionOf floatDigits points p)).findIdx (fun p' => p'.id == p.id) + 1

/-- `cnt <= $n OR rn % (cnt / $n + 1) = 1 OR rn = cnt` -/
def survives (budget cnt rn : ℕ) : Bool := cnt ≤ budget || rn % (cnt / budget + 1) == 1 || rn == cnt

def sampledPoints (window : OrderBy StoredPoint NotLater) (budget : ℕ) (points : List StoredPoint) :
    List StoredPoint :=
  points.filter fun p =>
    survives budget (partitionOf floatDigits points p).length (rowNumber floatDigits window points p)

end Statement

lemma downsample_index_lt {n m : ℕ} (hm : 1 < m) (hn : 0 < n) (i : Fin m) : i * (n - 1) / (m - 1) < n := by
  have hi : (i : ℕ) ≤ m - 1 := by omega
  have hmul : (i : ℕ) * (n - 1) ≤ (n - 1) * (m - 1) := by
    rw [Nat.mul_comm (n - 1)]
    exact Nat.mul_le_mul_right (n - 1) hi
  have hdiv : (i : ℕ) * (n - 1) / (m - 1) ≤ n - 1 := Nat.div_le_of_le_mul (by rwa [Nat.mul_comm (m - 1)])
  omega

/-- Evenly spaced elements, with the first and the last. -/
def downsample {α : Type} (indices : List α) (maxPoints : ℕ) : List α :=
  if h : indices.length ≤ maxPoints ∨ maxPoints = 0 then indices
  else if h1 : maxPoints = 1 then [indices.getLast (List.ne_nil_of_length_pos (by omega))]
  else
    (List.finRange maxPoints).map fun (i : Fin maxPoints) =>
      indices.get ⟨i * (indices.length - 1) / (maxPoints - 1), downsample_index_lt (by omega) (by omega) i⟩

section Find

variable (env : Externals)

/-- The rows of the statement. -/
def metricRows (window order : OrderBy StoredPoint NotLater) (budget : ℕ) (conditions : MetricConditions)
    (t : MetricsTable) : List StoredPoint :=
  (order.sort (sampledPoints env.floatDigits window budget
    (t.rows.filter fun p => conditions.holds p.row))).take maxMetricRows

/-- The stored points whose payloads are returned. `fault` is the error of the statement,
where it does not run. -/
def findPoints (fault : Option Error) (window order : OrderBy StoredPoint NotLater)
    (query : MetricQueryParameters) (t : MetricsTable) : Except Error (List StoredPoint) := do
  let conditions ← metricConditions query
  match fault with
  | some e => throw (.context "query metric points" e)
  | none =>
    let budget := requestedPoints query
    return selectByGroup (seriesKey env.floatDigits) (fun indices => downsample indices budget)
      (metricRows env window order budget conditions t)

def findMetrics (fault : Option Error) (window order : OrderBy StoredPoint NotLater)
    (query : MetricQueryParameters) (t : MetricsTable) : Except Error (List Bytes) := do
  let points ← findPoints env fault window order query t
  return points.map fun p => p.row.payload

/-- The same with the loop over the rows of the result, which ends at a row that cannot be read
with the error of that row, `rowFault`. -/
def findMetricsByRow (queryFault rowFault : Option Error) (window order : OrderBy StoredPoint NotLater)
    (query : MetricQueryParameters) (t : MetricsTable) : Except Error (List Bytes) := do
  let payloads ← findMetrics env queryFault window order query t
  match rowFault with
  | some e => throw e
  | none => return payloads

end Find

end OtelviewPostgres
