import OtelviewPostgres.Model.Retention

/-!
# What a sweep deletes

A sweep goes over the three tables in turn and takes from each, batch by batch, the rows
older than one cutoff. It ends, it takes no other rows even where it fails half way, and
where it does not fail it takes all of them.
-/

namespace OtelviewPostgres

open Relational

section Table

variable {ρ κ : Type} {key : ρ → κ}

/-- Some rows older than the cutoff are gone. -/
structure Swept (time : ρ → Int) (cutoff : Int) (t t' : KeyedTable key) : Prop where
  mem : ∀ r ∈ t'.rows, r ∈ t.rows
  live : ∀ r ∈ t.rows, cutoff ≤ time r → r ∈ t'.rows

/-- All rows older than the cutoff are gone, and `n` is their number. -/
structure SweptClean (time : ρ → Int) (cutoff : Int) (t t' : KeyedTable key) (n : ℕ) : Prop where
  rows_eq : t'.rows = t.rows.filter fun r => cutoff ≤ time r
  removed : t'.rows.length + n = t.rows.length

lemma swept_self (time : ρ → Int) (cutoff : Int) (t : KeyedTable key) : Swept time cutoff t t :=
  ⟨fun _ hr => hr, fun _ hr _ => hr⟩

variable [DecidableEq κ] {table : String} {faults : ℕ → Option Error} {choice : BatchChoice κ batchRows}
  {time : ρ → Int} {cutoff : Int} {t t' : KeyedTable key}

lemma swept_sweepTable {res : Except Error ℕ} (h : sweepTable table faults choice time cutoff t = some (res, t')) :
    Swept time cutoff t t' where
  mem := KeyedTable.mem_of_mem_drain h
  live r hr hlive := KeyedTable.mem_drain_of_live h hr (by simpa using hlive)

lemma sweptClean_sweepTable {n : ℕ} (h : sweepTable table faults choice time cutoff t = some (.ok n, t')) :
    SweptClean time cutoff t t' n := by
  obtain ⟨rfl, rfl⟩ := KeyedTable.drain_eq_ok h
  have hrows : (t.delete fun r => decide (time r < cutoff)).rows = t.rows.filter fun r => cutoff ≤ time r := by
    apply List.filter_congr
    intro r _
    rw [← decide_not, decide_eq_decide]
    exact not_lt
  refine ⟨hrows, ?_⟩
  rw [Nat.zero_add, List.countP_eq_length_filter]
  have hsplit := List.length_eq_length_filter_add (l := t.rows) (fun r => decide (time r < cutoff))
  have hlen : (t.delete fun r => decide (time r < cutoff)).rows.length =
      (t.rows.filter fun r => !decide (time r < cutoff)).length := rfl
  omega

lemma sweepTable_ne_error {e : Error} :
    sweepTable table (fun _ => none) choice time cutoff t ≠ some (.error e, t') :=
  KeyedTable.drain_ne_error

end Table

/-- Rows older than the cutoff are gone from some of the tables, and nothing else is. -/
structure Store.Swept (cutoff : Int) (s s' : Store) : Prop where
  spans : OtelviewPostgres.Swept SpanRow.startTime cutoff s.spans s'.spans
  logs : OtelviewPostgres.Swept (fun r : Stored LogRow => r.row.time) cutoff s.logs s'.logs
  metricPoints : OtelviewPostgres.Swept (fun r : Stored MetricRow => r.row.time) cutoff s.metricPoints s'.metricPoints

/-- No row older than the cutoff is left, and the counts are right. -/
structure Store.SweptClean (cutoff : Int) (s s' : Store) (counts : ℕ × ℕ × ℕ) : Prop where
  spans : OtelviewPostgres.SweptClean SpanRow.startTime cutoff s.spans s'.spans counts.1
  logs : OtelviewPostgres.SweptClean (fun r : Stored LogRow => r.row.time) cutoff s.logs s'.logs counts.2.1
  metricPoints : OtelviewPostgres.SweptClean (fun r : Stored MetricRow => r.row.time) cutoff s.metricPoints
    s'.metricPoints counts.2.2

section Sweep

variable {run : SweepRun} {retention : ℕ} {s s' : Store} {res : Except Error (ℕ × ℕ × ℕ)}

/-- Everything a sweep can do: nothing where there is no clock, and otherwise one table after the
other, up to the first that fails. -/
theorem sweepExpired_cases (h : sweepExpired run retention s = some (res, s')) :
    (run.nowNanos = none ∧ s' = s ∧ ∃ e, res = .error e) ∨
      ∃ now, run.nowNanos = some now ∧ s.Swept (sweepCutoff now retention) s' ∧
        ∀ counts, res = .ok counts → s.SweptClean (sweepCutoff now retention) s' counts := by
  unfold sweepExpired at h
  cases hnow : run.nowNanos with
  | none =>
    rw [hnow] at h
    cases h
    exact .inl ⟨rfl, rfl, _, rfl⟩
  | some now =>
    right
    refine ⟨now, rfl, ?_⟩
    simp only [hnow] at h
    obtain ⟨⟨r1, spans⟩, h1, h⟩ := Option.bind_eq_some_iff.mp h
    cases r1 with
    | error e =>
      cases h
      exact ⟨⟨swept_sweepTable h1, swept_self _ _ _, swept_self _ _ _⟩, nofun⟩
    | ok n =>
      obtain ⟨⟨r2, logs⟩, h2, h⟩ := Option.bind_eq_some_iff.mp h
      cases r2 with
      | error e =>
        cases h
        exact ⟨⟨swept_sweepTable h1, swept_sweepTable h2, swept_self _ _ _⟩, nofun⟩
      | ok m =>
        obtain ⟨⟨r3, points⟩, h3, h⟩ := Option.bind_eq_some_iff.mp h
        have hswept : s.Swept (sweepCutoff now retention) ⟨spans, logs, points⟩ :=
          ⟨swept_sweepTable h1, swept_sweepTable h2, swept_sweepTable h3⟩
        cases r3 with
        | error e =>
          cases h
          exact ⟨hswept, nofun⟩
        | ok k =>
          cases h
          refine ⟨hswept, ?_⟩
          rintro _ ⟨⟩
          exact ⟨sweptClean_sweepTable h1, sweptClean_sweepTable h2, sweptClean_sweepTable h3⟩

/-- A sweep ends. -/
lemma exists_sweepExpired (run : SweepRun) (retention : ℕ) (s : Store) :
    ∃ res s', sweepExpired run retention s = some (res, s') := by
  unfold sweepExpired
  cases run.nowNanos with
  | none => exact ⟨_, _, rfl⟩
  | some now =>
    obtain ⟨⟨r1, spans⟩, h1⟩ := Option.isSome_iff_exists.mp (isSome_sweepTable "spans" run.spanFaults run.spanChoice
      SpanRow.startTime (sweepCutoff now retention) s.spans)
    obtain ⟨⟨r2, logs⟩, h2⟩ := Option.isSome_iff_exists.mp (isSome_sweepTable "logs" run.logFaults run.logChoice
      (fun r : Stored LogRow => r.row.time) (sweepCutoff now retention) s.logs)
    obtain ⟨⟨r3, points⟩, h3⟩ := Option.isSome_iff_exists.mp (isSome_sweepTable "metric_points" run.pointFaults
      run.pointChoice (fun r : Stored MetricRow => r.row.time) (sweepCutoff now retention) s.metricPoints)
    simp only [h1, Option.bind_some]
    cases r1 with
    | error e => exact ⟨_, _, rfl⟩
    | ok n =>
      simp only [h2, Option.bind_some]
      cases r2 with
      | error e => exact ⟨_, _, rfl⟩
      | ok m =>
        simp only [h3, Option.bind_some]
        cases r3 with
        | error e => exact ⟨_, _, rfl⟩
        | ok k => exact ⟨_, _, rfl⟩

/-- Where there is a clock and no statement fails, a sweep does not fail. -/
lemma sweepExpired_ne_error {now : ℕ} {e : Error} (hnow : run.nowNanos = some now)
    (hspans : run.spanFaults = fun _ => none) (hlogs : run.logFaults = fun _ => none)
    (hpoints : run.pointFaults = fun _ => none) : sweepExpired run retention s ≠ some (.error e, s') := by
  intro h
  unfold sweepExpired at h
  simp only [hnow, hspans, hlogs, hpoints] at h
  obtain ⟨⟨r1, spans⟩, h1, h⟩ := Option.bind_eq_some_iff.mp h
  cases r1 with
  | error e => exact sweepTable_ne_error h1
  | ok n =>
    obtain ⟨⟨r2, logs⟩, h2, h⟩ := Option.bind_eq_some_iff.mp h
    cases r2 with
    | error e => exact sweepTable_ne_error h2
    | ok m =>
      obtain ⟨⟨r3, points⟩, h3, h⟩ := Option.bind_eq_some_iff.mp h
      cases r3 with
      | error e => exact sweepTable_ne_error h3
      | ok k => cases h

end Sweep

lemma sweepCutoff_eq (now retention : ℕ) :
    sweepCutoff now retention = min (max ((now : Int) - retention) 0) i64Max := by
  unfold sweepCutoff
  omega

/-- A sweep at the time `now` ends. It deletes rows older than the cutoff only, all of them if
no statement fails, and then returns how many were in each table. -/
theorem sweep_deletes_expired (run : SweepRun) (now retention : ℕ) (s : Store) :
    ∃ res s', sweepExpired { run with nowNanos := some now } retention s = some (res, s') ∧
      s.Swept (min (max ((now : Int) - retention) 0) i64Max) s' ∧
      (∀ counts, res = .ok counts → s.SweptClean (min (max ((now : Int) - retention) 0) i64Max) s' counts) ∧
      (run.spanFaults = (fun _ => none) → run.logFaults = (fun _ => none) → run.pointFaults = (fun _ => none) →
        ∃ counts, res = .ok counts) := by
  obtain ⟨res, s', h⟩ := exists_sweepExpired { run with nowNanos := some now } retention s
  rw [← sweepCutoff_eq]
  refine ⟨res, s', h, ?_⟩
  rcases sweepExpired_cases h with ⟨hnone, -⟩ | ⟨now', hnow, hswept, hclean⟩
  · cases hnone
  · obtain rfl := Option.some.inj hnow
    refine ⟨hswept, hclean, fun hspans hlogs hpoints => ?_⟩
    cases res with
    | error e => exact absurd h (sweepExpired_ne_error rfl hspans hlogs hpoints)
    | ok counts => exact ⟨counts, rfl⟩

end OtelviewPostgres
