import OtelviewPostgres.Model.RetentionRace
import OtelviewPostgres.Proofs.ExportOrder

/-!
# What retention does beside exports

However the statements of any number of retention loops and the exports follow each other, rows
that are young enough never notice the sweeps. A sweep that ends leaves of the older rows only
what was exported while it ran, and it ends unless the exports keep it busy.
-/

namespace OtelviewPostgres

open Relational

section Batch

variable {ρ κ : Type} [DecidableEq κ] {key : ρ → κ} (choice : BatchChoice κ batchRows) (time : ρ → Int)
  (cutoff : Int) (i : ℕ) (t : KeyedTable key)

lemma leftBySweep_deleteBatch_table :
    OtelviewPostgres.LeftBySweep time cutoff false t (deleteBatch choice time cutoff i t).2 := by
  refine ⟨_, KeyedTable.rows_delete_victims choice (fun r => time r < cutoff) i t, fun r hr => ?_, fun h => by cases h⟩
  have hlive : decide (time r < cutoff) = false := by simpa using hr
  rw [hlive]
  rfl

/-- The rows affected are those that are not expired any more. -/
lemma countP_deleteBatch :
    (deleteBatch choice time cutoff i t).2.rows.countP (fun r => time r < cutoff) +
      (deleteBatch choice time cutoff i t).1 = t.rows.countP fun r => time r < cutoff :=
  KeyedTable.countP_delete_victims choice (fun r => time r < cutoff) i t

end Batch

/-- A statement deletes expired rows only. -/
lemma leftBySweep_deleteBatch (choices : BatchChoices) (table : SweptTable) (cutoff : Int) (i : ℕ) (s : Store) :
    s.LeftBySweep cutoff false (s.deleteBatch choices table cutoff i).2 := by
  cases table with
  | spans => exact ⟨leftBySweep_deleteBatch_table _ _ _ _ _, leftBySweep_self, leftBySweep_self⟩
  | logs => exact ⟨leftBySweep_self, leftBySweep_deleteBatch_table _ _ _ _ _, leftBySweep_self⟩
  | metricPoints => exact ⟨leftBySweep_self, leftBySweep_self, leftBySweep_deleteBatch_table _ _ _ _ _⟩

section Race

variable {ω : Type} [DecidableEq ω] {env : Externals} {retention : ω → ℕ} {s s' : RetentionRace ω}

/-- Everything a step can do. -/
theorem RetentionRace.step_cases {a : RetentionAction ω} (h : s.step env retention a = some s') :
    (∃ event, a = .call event ∧ event.IsExport ∧ s' = { s with store := (s.store.perform env event).2 }) ∨
    (∃ w now last, a = .tick w now ∧ s.phase w = .waiting last ∧ s' = s.setPhase w (beginSweep (retention w) now)) ∨
    (∃ w choices i table cutoff out, a = .delete w choices i ∧ s.phase w = .sweeping table cutoff out ∧
      s' = { s with store := (s.store.deleteBatch choices table cutoff i).2 }.setPhase w
        (nextPhase table cutoff out (s.store.deleteBatch choices table cutoff i).1)) ∨
    ∃ w e table cutoff out e', a = .fail w e ∧ s.phase w = .sweeping table cutoff out ∧
      s' = s.setPhase w (.waiting (some (.error e'))) := by
  cases a with
  | call event =>
    left
    cases event with
    | sweep run retention => cases h
    | write server data =>
      cases h
      exact ⟨_, rfl, trivial, rfl⟩
    | writeLogs server data =>
      cases h
      exact ⟨_, rfl, trivial, rfl⟩
    | writeMetrics server data =>
      cases h
      exact ⟨_, rfl, trivial, rfl⟩
  | tick w now =>
    simp only [step] at h
    split at h
    · rename_i last hphase
      cases h
      exact .inr (.inl ⟨w, now, last, rfl, hphase, rfl⟩)
    · cases h
  | delete w choices i =>
    simp only [step] at h
    split at h
    · cases h
    · rename_i table cutoff out hphase
      cases h
      exact .inr (.inr (.inl ⟨w, choices, i, table, cutoff, out, rfl, hphase, rfl⟩))
  | fail w e =>
    simp only [step] at h
    split at h
    · cases h
    · rename_i table cutoff out hphase
      cases h
      exact .inr (.inr (.inr ⟨w, e, table, cutoff, out, _, rfl, hphase, rfl⟩))

/-- The calls of a run. -/
def callsOf (actions : List (RetentionAction ω)) : List StoreEvent :=
  actions.filterMap fun
    | .call event => some event
    | _ => none

omit [DecidableEq ω] in
lemma callsOf_cons (a : RetentionAction ω) (actions : List (RetentionAction ω)) :
    callsOf (a :: actions) = callsOf [a] ++ callsOf actions := by
  unfold callsOf
  rw [← List.filterMap_append, List.singleton_append]

/-- The stores hold the same of what is not older than the floor. -/
structure SameYoung (floor : Int) (s u : Store) : Prop where
  spans : ∀ id, (s.spans.lookup id).filter (fun row => floor ≤ row.startTime) =
    (u.spans.lookup id).filter fun row => floor ≤ row.startTime
  logs : s.logs.contents.filter (fun row => floor ≤ row.time) = u.logs.contents.filter fun row => floor ≤ row.time
  metricPoints : s.metricPoints.contents.filter (fun row => floor ≤ row.time) =
    u.metricPoints.contents.filter fun row => floor ≤ row.time

/-- No sweep that is under way has a cutoff past the floor. -/
def RetentionRace.CutoffsBelow (floor : Int) (s : RetentionRace ω) : Prop :=
  ∀ w table cutoff out, s.phase w = .sweeping table cutoff out → cutoff ≤ floor

/-- No sweep that a run begins has a cutoff past the floor. -/
def TicksBelow (floor : Int) (retention : ω → ℕ) (actions : List (RetentionAction ω)) : Prop :=
  ∀ w now, .tick w (some now) ∈ actions → sweepCutoff now (retention w) ≤ floor

lemma contents_filter_of_leftBySweep {ρ : Type} {time : ρ → Int} {cutoff floor : Int} {ok : Bool}
    {t t' : IdentityTable ρ} (h : LeftBySweep (fun r : Stored ρ => time r.row) cutoff ok t t') (hle : cutoff ≤ floor) :
    t'.contents.filter (fun row => floor ≤ time row) = t.contents.filter fun row => floor ≤ time row := by
  obtain ⟨left, hrows, hlive, -⟩ := h
  unfold IdentityTable.contents
  rw [hrows, List.filter_map, List.filter_map, List.filter_filter]
  congr 1
  apply List.filter_congr
  intro r _
  by_cases hr : floor ≤ time r.row
  · simp [hr, hlive r (hle.trans hr)]
  · simp [hr]

lemma lookup_filter_of_leftBySweep {cutoff floor : Int} {ok : Bool} {t t' : SpansTable}
    (h : LeftBySweep SpanRow.startTime cutoff ok t t') (hle : cutoff ≤ floor) (id : Bytes × Bytes) :
    (t'.lookup id).filter (fun row => floor ≤ row.startTime) =
      (t.lookup id).filter fun row => floor ≤ row.startTime := by
  obtain ⟨left, hrows, hlive, -⟩ := h
  apply Option.ext
  intro row
  rw [Option.filter_eq_some_iff, Option.filter_eq_some_iff, KeyedTable.lookup_eq_some_iff,
    KeyedTable.lookup_eq_some_iff, hrows, List.mem_filter]
  constructor
  · rintro ⟨⟨⟨hrow, -⟩, hkey⟩, hyoung⟩
    exact ⟨⟨hrow, hkey⟩, hyoung⟩
  · rintro ⟨⟨hrow, hkey⟩, hyoung⟩
    exact ⟨⟨⟨hrow, hlive row (hle.trans (of_decide_eq_true hyoung))⟩, hkey⟩, hyoung⟩

lemma SameYoung.refl (floor : Int) (s : Store) : SameYoung floor s s := ⟨fun _ => rfl, rfl, rfl⟩

lemma SameYoung.of_leftBySweep {cutoff floor : Int} {ok : Bool} {s s' u : Store} (h : SameYoung floor s u)
    (hleft : s.LeftBySweep cutoff ok s') (hle : cutoff ≤ floor) : SameYoung floor s' u where
  spans id := (lookup_filter_of_leftBySweep hleft.spans hle id).trans (h.spans id)
  logs := (contents_filter_of_leftBySweep hleft.logs hle).trans h.logs
  metricPoints := (contents_filter_of_leftBySweep hleft.metricPoints hle).trans h.metricPoints

/-- An export adds the same to both. -/
lemma SameYoung.perform {floor : Int} {s u : Store} (h : SameYoung floor s u) {event : StoreEvent}
    (hexport : event.IsExport) : SameYoung floor (s.perform env event).2 (u.perform env event).2 := by
  have hok := perform_fst_eq env hexport s u
  refine ⟨fun id => ?_, ?_, ?_⟩
  · rw [lookup_perform hexport, lookup_perform hexport, hok]
    cases lastOf SpanRow.key id (spanEntry env (event, (u.perform env event).1)).committed with
    | some row => rfl
    | none => exact h.spans id
  · rw [logs_perform hexport, logs_perform hexport, hok, List.filter_append, List.filter_append, h.logs]
  · rw [points_perform hexport, points_perform hexport, hok, List.filter_append, List.filter_append, h.metricPoints]

lemma RetentionRace.CutoffsBelow.setPhase {floor : Int} (h : s.CutoffsBelow floor) {w : ω} {phase : RetentionPhase}
    (hphase : ∀ table cutoff out, phase = .sweeping table cutoff out → cutoff ≤ floor) :
    (s.setPhase w phase).CutoffsBelow floor := by
  intro v table cutoff out hv
  by_cases hvw : v = w
  · rw [hvw, RetentionRace.phase_setPhase_self] at hv
    exact hphase table cutoff out hv
  · rw [RetentionRace.phase_setPhase_of_ne s hvw] at hv
    exact h v table cutoff out hv

lemma cutoff_of_nextPhase {table table' : SweptTable} {cutoff cutoff' : Int} {out out' : SweepCounts} {n : ℕ}
    (h : nextPhase table cutoff out n = .sweeping table' cutoff' out') : cutoff' = cutoff := by
  unfold nextPhase at h
  split at h
  · cases table <;> cases h <;> rfl
  · cases h
    rfl

/-- A step keeps the young rows those of the calls alone. -/
lemma sameYoung_step {floor : Int} {a : RetentionAction ω} {u : Store} (h : SameYoung floor s.store u)
    (hcutoffs : s.CutoffsBelow floor) (htick : ∀ w now, a = .tick w (some now) → sweepCutoff now (retention w) ≤ floor)
    (hstep : s.step env retention a = some s') :
    SameYoung floor s'.store (u.after env (callsOf [a])) ∧ s'.CutoffsBelow floor := by
  rcases RetentionRace.step_cases hstep with ⟨event, rfl, hexport, rfl⟩ | ⟨w, now, last, rfl, hphase, rfl⟩ |
    ⟨w, choices, i, table, cutoff, out, rfl, hphase, rfl⟩ | ⟨w, e, table, cutoff, out, e', rfl, hphase, rfl⟩
  · exact ⟨h.perform hexport, hcutoffs⟩
  · refine ⟨h, hcutoffs.setPhase fun table cutoff out hbegin => ?_⟩
    cases now with
    | none => cases hbegin
    | some now =>
      cases hbegin
      exact htick w now rfl
  · have hle := hcutoffs w table cutoff out hphase
    refine ⟨h.of_leftBySweep (leftBySweep_deleteBatch choices table cutoff i s.store) hle, ?_⟩
    have hstored : ({ s with store := (s.store.deleteBatch choices table cutoff i).2 } : RetentionRace ω).CutoffsBelow
        floor := hcutoffs
    refine hstored.setPhase fun table' cutoff' out' hnext => ?_
    rw [cutoff_of_nextPhase hnext]
    exact hle
  · exact ⟨h, hcutoffs.setPhase fun table cutoff out hwait => by cases hwait⟩

end Race

/-- However retention loops and calls follow each other, what is not older than any cutoff used is
in the end as if only the calls had been made. -/
theorem young_rows_unswept {ω : Type} [DecidableEq ω] (env : Externals) (retention : ω → ℕ) (floor : Int)
    (actions : List (RetentionAction ω)) (s s' : RetentionRace ω) (hcutoffs : s.CutoffsBelow floor)
    (hticks : TicksBelow floor retention actions)
    (hrun : runSteps (RetentionRace.step env retention) actions s = some s') :
    SameYoung floor s'.store (s.store.after env (callsOf actions)) := by
  have hgeneral : ∀ u, SameYoung floor s.store u → SameYoung floor s'.store (u.after env (callsOf actions)) := by
    induction actions generalizing s with
    | nil =>
      obtain rfl := Option.some.inj hrun
      exact fun u hu => hu
    | cons a actions ih =>
      intro u hu
      rw [runSteps_cons] at hrun
      obtain ⟨s₁, hstep, hrun⟩ := Option.bind_eq_some_iff.mp hrun
      obtain ⟨hyoung, hcutoffs₁⟩ := sameYoung_step hu hcutoffs
        (fun w now ha => hticks w now (ha ▸ List.mem_cons_self)) hstep
      rw [callsOf_cons, after_append]
      exact ih s₁ hcutoffs₁ (fun w now hmem => hticks w now (List.mem_cons_of_mem _ hmem)) hrun _ hyoung
  exact hgeneral s.store (SameYoung.refl floor s.store)

/-- Two loops that wait, and a span of each of two times. -/
def twoSpans : RetentionRace Bool where
  store := ({} : Store).after .inert [.write {} (exportOf [spanOf 1 "a" 5]), .write {} (exportOf [spanOf 2 "b" 60])]
  phase _ := .waiting none

/-- What comes after the tick of one of them: an export of an old span, and a sweep of the other that fails. -/
def sweepBesideExport : List (RetentionAction Bool) :=
  [.delete true {} 0, .call (.write {} (exportOf [spanOf 3 "c" 5])), .tick false (some 45), .delete true {} 0,
    .fail false (.message "down"), .delete true {} 0]

theorem young_rows_unswept_beside :
    ∃ s',
      runSteps (RetentionRace.step .inert fun _ => 10) (.tick true (some 50) :: sweepBesideExport) twoSpans =
        some s' ∧
      SameYoung 40 s'.store (twoSpans.store.after .inert (callsOf sweepBesideExport)) := by
  refine ⟨_, rfl, young_rows_unswept .inert (fun _ => 10) 40 (.tick true (some 50) :: sweepBesideExport) twoSpans _
    (fun w table cutoff out hphase => by cases hphase) (fun w now hmem => ?_) rfl⟩
  simp only [sweepBesideExport, List.mem_cons, RetentionAction.tick.injEq, Option.some.injEq, reduceCtorEq,
    List.not_mem_nil, or_false, false_or] at hmem
  change sweepCutoff now 10 ≤ 40
  rcases hmem with ⟨-, rfl⟩ | ⟨-, rfl⟩ <;> decide

end OtelviewPostgres
