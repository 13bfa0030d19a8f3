import OtelviewPostgres.Model.History
import OtelviewPostgres.Relational.Runs

/-!
# Retention beside exports

`Store::run_retention` as a system: any number of server processes each run the loop on the same
tables, one statement at a time, while exports commit between any two statements. A sweep that
fails is given up until the next tick.
-/

namespace OtelviewPostgres

open Relational

/-- The tables in the order in which a sweep goes over them. -/
inductive SweptTable where
  | spans
  | logs
  | metricPoints
deriving DecidableEq

def SweptTable.name : SweptTable → String
  | .spans => "spans"
  | .logs => "logs"
  | .metricPoints => "metric_points"

/-- The rows that one statement takes, from whichever table it runs on. -/
structure BatchChoices where
  spans : BatchChoice (Bytes × Bytes) batchRows := .first _ _
  logs : BatchChoice ℕ batchRows := .first _ _
  metricPoints : BatchChoice ℕ batchRows := .first _ _

/-- `DELETE .. WHERE ctid IN (SELECT ctid .. WHERE time < $1 LIMIT 10000)`, with the number of rows affected. -/
def deleteBatch {ρ κ : Type} [DecidableEq κ] {key : ρ → κ} (choice : BatchChoice κ batchRows) (time : ρ → Int)
    (cutoff : Int) (i : ℕ) (t : KeyedTable key) : ℕ × KeyedTable key :=
  let victims := KeyedTable.victims choice (fun r => time r < cutoff) i t
  (victims.length, t.delete fun r => key r ∈ victims)

/-- The statement on one of the tables. -/
def Store.deleteBatch (choices : BatchChoices) (table : SweptTable) (cutoff : Int) (i : ℕ) (s : Store) : ℕ × Store :=
  match table with
  | .spans =>
    let (n, spans) := OtelviewPostgres.deleteBatch choices.spans SpanRow.startTime cutoff i s.spans
    (n, { s with spans })
  | .logs =>
    let (n, logs) := OtelviewPostgres.deleteBatch choices.logs (fun r => r.row.time) cutoff i s.logs
    (n, { s with logs })
  | .metricPoints =>
    let (n, metricPoints) :=
      OtelviewPostgres.deleteBatch choices.metricPoints (fun r => r.row.time) cutoff i s.metricPoints
    (n, { s with metricPoints })

/-- Rows deleted per table. -/
abbrev SweepCounts := SweptTable → ℕ

/-- How far the loop of a process has come. -/
inductive RetentionPhase where
  /-- It waits for a tick, after the last sweep if there was one. -/
  | waiting (last : Option (Except Error SweepCounts))
  /-- It deletes from one table, with the rows deleted so far. -/
  | sweeping (table : SweptTable) (cutoff : Int) (out : SweepCounts)

structure RetentionRace (ω : Type) where
  store : Store
  phase : ω → RetentionPhase

inductive RetentionAction (ω : Type) where
  /-- A call of the server that changes the store. -/
  | call (event : StoreEvent)
  /-- The interval elapses, and the clock is read. -/
  | tick (w : ω) (nowNanos : Option ℕ)
  /-- The next statement of a sweep. -/
  | delete (w : ω) (choices : BatchChoices) (i : ℕ)
  /-- That statement fails. -/
  | fail (w : ω) (e : Error)

/-- What comes after a table: the next one, or the end of the sweep. -/
def nextTable (table : SweptTable) (cutoff : Int) (out : SweepCounts) : RetentionPhase :=
  match table with
  | .spans => .sweeping .logs cutoff out
  | .logs => .sweeping .metricPoints cutoff out
  | .metricPoints => .waiting (some (.ok out))

/-- What comes after a statement: the same one where it deleted a full batch. -/
def nextPhase (table : SweptTable) (cutoff : Int) (out : SweepCounts) (n : ℕ) : RetentionPhase :=
  let out := Function.update out table (out table + n)
  if n < batchRows then nextTable table cutoff out else .sweeping table cutoff out

section Race

variable {ω : Type} [DecidableEq ω] (env : Externals) (retention : ω → ℕ)

def RetentionRace.setPhase (s : RetentionRace ω) (w : ω) (phase : RetentionPhase) : RetentionRace ω :=
  { s with phase := Function.update s.phase w phase }

@[simp] lemma RetentionRace.store_setPhase (s : RetentionRace ω) (w : ω) (phase : RetentionPhase) :
    (s.setPhase w phase).store = s.store := rfl

@[simp] lemma RetentionRace.phase_setPhase_self (s : RetentionRace ω) (w : ω) (phase : RetentionPhase) :
    (s.setPhase w phase).phase w = phase := by
  simp [RetentionRace.setPhase]

lemma RetentionRace.phase_setPhase_of_ne (s : RetentionRace ω) {v w : ω} (h : v ≠ w) (phase : RetentionPhase) :
    (s.setPhase w phase).phase v = s.phase v := by
  simp [RetentionRace.setPhase, h]

/-- What a tick begins. -/
def beginSweep (retention : ℕ) : Option ℕ → RetentionPhase
  | none =>
    .waiting (some (.error (.context "system clock before the epoch"
      (.message "second time provided was later than self"))))
  | some now => .sweeping .spans (sweepCutoff now retention) fun _ => 0

/-- One step, where it is possible. Sweeps happen statement by statement only. -/
def RetentionRace.step (s : RetentionRace ω) : RetentionAction ω → Option (RetentionRace ω)
  | .call (.sweep _ _) => none
  | .call event => some { s with store := (s.store.perform env event).2 }
  | .tick w nowNanos =>
    match s.phase w with
    | .waiting _ => some (s.setPhase w (beginSweep (retention w) nowNanos))
    | .sweeping _ _ _ => none
  | .delete w choices i =>
    match s.phase w with
    | .waiting _ => none
    | .sweeping table cutoff out =>
      let (n, store) := s.store.deleteBatch choices table cutoff i
      some ({ s with store }.setPhase w (nextPhase table cutoff out n))
  | .fail w e =>
    match s.phase w with
    | .waiting _ => none
    | .sweeping table _ _ =>
      some (s.setPhase w (.waiting (some (.error (e.context ("sweep expired rows from " ++ table.name))))))

end Race

end OtelviewPostgres
