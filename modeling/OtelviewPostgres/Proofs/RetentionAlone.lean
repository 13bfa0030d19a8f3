import OtelviewPostgres.Proofs.RetentionRace

/-!
# A retention loop left alone

Where nothing comes in between, the statements of a loop after a tick are those of
`Store::sweep_expired`: a sweep is a run of the system, table by table and batch by batch.
-/

namespace OtelviewPostgres

open Relational

/-- The counts by table. -/
def sweepCounts : ℕ × ℕ × ℕ → SweepCounts
  | (spans, _, _), .spans => spans
  | (_, logs, _), .logs => logs
  | (_, _, metricPoints), .metricPoints => metricPoints

/-- It is a statement of the loop, failing or not. -/
def RetentionAction.IsStatement {ω : Type} (w : ω) : RetentionAction ω → Prop
  | .delete v _ _ => v = w
  | .fail v _ => v = w
  | _ => False

/-- What comes after the sweep of a table. -/
def afterTable (table : SweptTable) (cutoff : Int) (out : SweepCounts) : Except Error ℕ → RetentionPhase
  | .ok n => nextTable table cutoff (Function.update out table n)
  | .error e => .waiting (some (.error e))

section Alone

variable {ω : Type} [DecidableEq ω] (env : Externals) (retention : ω → ℕ) (w : ω)

/-- The race where the loop is in a phase and the store is another one. -/
def RetentionRace.at (s : RetentionRace ω) (store : Store) (phase : RetentionPhase) : RetentionRace ω :=
  { s with store }.setPhase w phase

lemma RetentionRace.phase_at (s : RetentionRace ω) (store : Store) (phase : RetentionPhase) :
    (s.at w store phase).phase w = phase :=
  RetentionRace.phase_setPhase_self _ w phase

lemma RetentionRace.setPhase_at (s : RetentionRace ω) (store store' : Store) (phase phase' : RetentionPhase) :
    { s.at w store phase with store := store' }.setPhase w phase' = s.at w store' phase' := by
  unfold RetentionRace.at RetentionRace.setPhase
  rw [Function.update_idem]

lemma step_fail_at (s : RetentionRace ω) (store : Store) (table : SweptTable) (cutoff : Int) (out : SweepCounts)
    (e : Error) :
    (s.at w store (.sweeping table cutoff out)).step env retention (.fail w e) =
      some (s.at w store (.waiting (some (.error (e.context ("sweep expired rows from " ++ table.name)))))) := by
  dsimp only [RetentionRace.step]
  rw [RetentionRace.phase_at]
  exact congrArg some (RetentionRace.setPhase_at w s store store _ _)

lemma step_delete_at (s : RetentionRace ω) (store : Store) (table : SweptTable) (cutoff : Int) (out : SweepCounts)
    (choices : BatchChoices) (i : ℕ) :
    (s.at w store (.sweeping table cutoff out)).step env retention (.delete w choices i) =
      some (s.at w (store.deleteBatch choices table cutoff i).2
        (nextPhase table cutoff out (store.deleteBatch choices table cutoff i).1)) := by
  dsimp only [RetentionRace.step]
  rw [RetentionRace.phase_at]
  exact congrArg some (RetentionRace.setPhase_at w s store _ _ _)

variable {ρ κ : Type} [DecidableEq κ] {key : ρ → κ}

/-- A table in its place in the store, where the statements on it work. -/
structure TablePlace (key : ρ → κ) (table : SweptTable) (time : ρ → Int) (choice : BatchChoice κ batchRows) where
  put : KeyedTable key → Store
  choices : BatchChoices
  deleteBatch_put : ∀ cutoff i t, (put t).deleteBatch choices table cutoff i =
    ((deleteBatch choice time cutoff i t).1, put (deleteBatch choice time cutoff i t).2)

/-- The loop over one table is a run of statements. -/
theorem exists_run_drain {table : SweptTable} {time : ρ → Int} {choice : BatchChoice κ batchRows} {cutoff : Int}
    (place : TablePlace key table time choice) (faults : ℕ → Option Error) (s : RetentionRace ω) (out : SweepCounts)
    {fuel i deleted : ℕ} {t t' : KeyedTable key} {res : Except Error ℕ}
    (h : KeyedTable.drain
      (fun i => (faults i).map (Error.context ("sweep expired rows from " ++ table.name))) choice
      (fun r => time r < cutoff) fuel i deleted t = some (res, t')) :
    ∃ actions : List (RetentionAction ω), (∀ a ∈ actions, a.IsStatement w) ∧
      runSteps (RetentionRace.step env retention) actions
        (s.at w (place.put t) (.sweeping table cutoff (Function.update out table deleted))) =
          some (s.at w (place.put t') (afterTable table cutoff out res)) := by
  induction fuel generalizing i deleted t with
  | zero => cases h
  | succ fuel ih =>
    unfold KeyedTable.drain at h
    cases hf : faults i with
    | some e =>
      simp only [hf, Option.map_some] at h
      cases h
      refine ⟨[.fail w e], fun a ha => List.mem_singleton.mp ha ▸ rfl, ?_⟩
      rw [runSteps_cons, step_fail_at]
      rfl
    | none =>
      simp only [hf, Option.map_none] at h
      have hdelete := step_delete_at env retention w s (place.put t) table cutoff (Function.update out table deleted)
        place.choices i
      rw [place.deleteBatch_put] at hdelete
      unfold nextPhase at hdelete
      rw [Function.update_self, Function.update_idem] at hdelete
      split at h
      · rename_i hshort
        cases h
        refine ⟨[.delete w place.choices i], fun a ha => List.mem_singleton.mp ha ▸ rfl, ?_⟩
        rw [runSteps_cons, hdelete]
        exact congrArg (fun phase => some (s.at w _ phase)) (if_pos hshort)
      · rename_i hfull
        obtain ⟨actions, hactions, hrun⟩ := ih h
        refine ⟨.delete w place.choices i :: actions, ?_, ?_⟩
        · rw [List.forall_mem_cons]
          exact ⟨rfl, hactions⟩
        · rw [runSteps_cons, hdelete, Option.bind_some]
          generalize hout : Function.update out table (deleted + (deleteBatch choice time cutoff i t).1) = out'
          have hphase : (if (deleteBatch choice time cutoff i t).1 < batchRows then nextTable table cutoff out'
              else .sweeping table cutoff out') = .sweeping table cutoff out' := if_neg hfull
          rw [hphase, ← hout]
          exact hrun

lemma exists_run_sweepTable {table : SweptTable} {time : ρ → Int} {choice : BatchChoice κ batchRows} {cutoff : Int}
    (place : TablePlace key table time choice) {faults : ℕ → Option Error} {t t' : KeyedTable key}
    {res : Except Error ℕ} (h : sweepTable table.name faults choice time cutoff t = some (res, t'))
    (s : RetentionRace ω) (out : SweepCounts) (hout : out table = 0) :
    ∃ actions : List (RetentionAction ω), (∀ a ∈ actions, a.IsStatement w) ∧
      runSteps (RetentionRace.step env retention) actions (s.at w (place.put t) (.sweeping table cutoff out)) =
        some (s.at w (place.put t') (afterTable table cutoff out res)) := by
  have hzero : Function.update out table 0 = out := by
    rw [← hout]
    exact Function.update_eq_self table out
  have hrun := exists_run_drain env retention w place faults s out h
  rwa [hzero] at hrun

lemma runSteps_append_of_eq {σ α : Type*} {step : σ → α → Option σ} {before after : List α} {s s' s'' : σ}
    (hbefore : runSteps step before s = some s') (hafter : runSteps step after s' = some s'') :
    runSteps step (before ++ after) s = some s'' := by
  rw [runSteps_append, hbefore]
  exact hafter

/-- The tables in their places, with what a sweep takes from outside. -/
def SweepRun.batchChoices (run : SweepRun) : BatchChoices where
  spans := run.spanChoice
  logs := run.logChoice
  metricPoints := run.pointChoice

def spansPlace (run : SweepRun) (s : Store) : TablePlace SpanRow.key .spans SpanRow.startTime run.spanChoice where
  put spans := { s with spans }
  choices := run.batchChoices
  deleteBatch_put _ _ _ := rfl

def logsPlace (run : SweepRun) (s : Store) :
    TablePlace Stored.id .logs (fun r : Stored LogRow => r.row.time) run.logChoice where
  put logs := { s with logs }
  choices := run.batchChoices
  deleteBatch_put _ _ _ := rfl

def pointsPlace (run : SweepRun) (s : Store) :
    TablePlace Stored.id .metricPoints (fun r : Stored MetricRow => r.row.time) run.pointChoice where
  put metricPoints := { s with metricPoints }
  choices := run.batchChoices
  deleteBatch_put _ _ _ := rfl

end Alone

lemma counts_eq (n m k : ℕ) :
    Function.update (Function.update (Function.update (fun _ => 0) SweptTable.spans n) .logs m) .metricPoints k =
      sweepCounts (n, m, k) := by
  funext table
  cases table <;> rfl

/-- A loop that waits can make the sweep that `sweep_expired` makes, with the same rows deleted and
the same result, by a tick and statements of its own. -/
theorem sweepExpired_is_run {ω : Type} [DecidableEq ω] (env : Externals) (retention : ω → ℕ) (w : ω) (run : SweepRun)
    (s : RetentionRace ω) (store : Store) (res : Except Error (ℕ × ℕ × ℕ))
    (hwait : ∃ last, s.phase w = .waiting last) (hsweep : sweepExpired run (retention w) s.store = some (res, store)) :
    ∃ actions : List (RetentionAction ω), (∀ a ∈ actions, a.IsStatement w) ∧
      runSteps (RetentionRace.step env retention) (.tick w run.nowNanos :: actions) s =
        some (s.at w store (.waiting (some (res.map sweepCounts)))) := by
  obtain ⟨last, hwait⟩ := hwait
  have htick : s.step env retention (.tick w run.nowNanos) =
      some (s.at w s.store (beginSweep (retention w) run.nowNanos)) := by
    dsimp only [RetentionRace.step]
    rw [hwait]
    rfl
  simp only [runSteps_cons, htick, Option.bind_some]
  unfold sweepExpired at hsweep
  cases hnow : run.nowNanos with
  | none =>
    rw [hnow] at hsweep
    cases hsweep
    exact ⟨[], fun a ha => absurd ha List.not_mem_nil, rfl⟩
  | some now =>
    simp only [hnow] at hsweep
    obtain ⟨⟨spansRes, spans⟩, hspans, hsweep⟩ := Option.bind_eq_some_iff.mp hsweep
    obtain ⟨spanActions, hspanActions, hspanRun⟩ :=
      exists_run_sweepTable env retention w (spansPlace run s.store) hspans s (fun _ => 0) rfl
    cases spansRes with
    | error e =>
      cases hsweep
      exact ⟨spanActions, hspanActions, hspanRun⟩
    | ok n =>
      obtain ⟨⟨logsRes, logs⟩, hlogs, hsweep⟩ := Option.bind_eq_some_iff.mp hsweep
      obtain ⟨logActions, hlogActions, hlogRun⟩ :=
        exists_run_sweepTable env retention w (logsPlace run { s.store with spans }) hlogs s
          (Function.update (fun _ => 0) .spans n) rfl
      have hlogRun := runSteps_append_of_eq hspanRun hlogRun
      have hlogActions := List.forall_mem_append.mpr ⟨hspanActions, hlogActions⟩
      cases logsRes with
      | error e =>
        cases hsweep
        exact ⟨spanActions ++ logActions, hlogActions, hlogRun⟩
      | ok m =>
        obtain ⟨⟨pointsRes, points⟩, hpoints, hsweep⟩ := Option.bind_eq_some_iff.mp hsweep
        obtain ⟨pointActions, hpointActions, hpointRun⟩ :=
          exists_run_sweepTable env retention w (pointsPlace run { s.store with spans, logs }) hpoints s
            (Function.update (Function.update (fun _ => 0) .spans n) .logs m) rfl
        refine ⟨(spanActions ++ logActions) ++ pointActions,
          List.forall_mem_append.mpr ⟨hlogActions, hpointActions⟩, ?_⟩
        refine (runSteps_append_of_eq hlogRun hpointRun).trans ?_
        cases pointsRes with
        | error e =>
          cases hsweep
          rfl
        | ok k =>
          cases hsweep
          dsimp only [afterTable, nextTable]
          rw [counts_eq]
          rfl

theorem sweepExpired_is_run_two_spans :
    ∃ store actions, sweepExpired { nowNanos := some 50 } 10 twoSpans.store = some (.ok (1, 0, 0), store) ∧
      (∀ a ∈ actions, a.IsStatement true) ∧
      runSteps (RetentionRace.step .inert fun _ => 10) (.tick true (some 50) :: actions) twoSpans =
        some (twoSpans.at true store (.waiting (some (.ok (sweepCounts (1, 0, 0)))))) := by
  obtain ⟨actions, hactions, hrun⟩ := sweepExpired_is_run .inert (fun _ => 10) true { nowNanos := some 50 } twoSpans _
    (.ok (1, 0, 0)) ⟨none, rfl⟩ rfl
  exact ⟨_, actions, rfl, hactions, hrun⟩

end OtelviewPostgres
