import OtelviewPostgres.Proofs.RetentionRace

/-!
# What a sweep achieves beside exports

A sweep that ends has seen each table without expired rows, so that those which are there in the
end came while it ran. It ends after as many statements as it takes to delete in full batches
what was expired when it began and what was exported since, and three.
-/

namespace OtelviewPostgres

open Relational

/-- The rows of a table that are older than the cutoff are of some of the calls. -/
def OldRowsFrom (env : Externals) (cutoff : Int) (calls : List StoreEvent) (s : Store) : SweptTable → Prop
  | .spans => ∀ row ∈ s.spans.rows, row.startTime < cutoff →
    ∃ event ∈ calls, row ∈ (spanEntry env (event, true)).committed
  | .logs => ∀ row ∈ s.logs.contents, row.time < cutoff →
    ∃ event ∈ calls, row ∈ (logEntry env (event, true)).committed
  | .metricPoints => ∀ row ∈ s.metricPoints.contents, row.time < cutoff →
    ∃ event ∈ calls, row ∈ (pointEntry env (event, true)).committed

section Exports

variable {env : Externals} {s : Store} {event : StoreEvent}

/-- A row is there after an export only if it was there or is one of the export's. -/
lemma mem_perform_spans (hexport : event.IsExport) {row : SpanRow} (h : row ∈ (s.perform env event).2.spans.rows) :
    row ∈ s.spans.rows ∨ row ∈ (spanEntry env (event, true)).committed := by
  have hlookup := (KeyedTable.lookup_eq_some_iff _ row.key row).mpr ⟨h, rfl⟩
  rw [lookup_perform hexport, Option.or_eq_some_iff] at hlookup
  rcases hlookup with hlast | ⟨-, hold⟩
  · right
    have hmem := List.mem_reverse.mp (List.mem_of_find?_eq_some hlast)
    cases hok : (s.perform env event).1 with
    | true => rwa [hok] at hmem
    | false =>
      rw [hok] at hmem
      cases event <;> cases hmem
  · exact .inl ((KeyedTable.lookup_eq_some_iff _ _ _).mp hold).1

lemma mem_perform_logs (hexport : event.IsExport) {row : LogRow} (h : row ∈ (s.perform env event).2.logs.contents) :
    row ∈ s.logs.contents ∨ row ∈ (logEntry env (event, true)).committed := by
  rw [logs_perform hexport] at h
  refine (List.mem_append.mp h).imp_right fun hmem => ?_
  cases hok : (s.perform env event).1 with
  | true => rwa [hok] at hmem
  | false =>
    rw [hok] at hmem
    cases event <;> cases hmem

lemma mem_perform_points (hexport : event.IsExport) {row : MetricRow}
    (h : row ∈ (s.perform env event).2.metricPoints.contents) :
    row ∈ s.metricPoints.contents ∨ row ∈ (pointEntry env (event, true)).committed := by
  rw [points_perform hexport] at h
  refine (List.mem_append.mp h).imp_right fun hmem => ?_
  cases hok : (s.perform env event).1 with
  | true => rwa [hok] at hmem
  | false =>
    rw [hok] at hmem
    cases event <;> cases hmem

/-- Old rows after an export are old rows before it or of the export. -/
lemma OldRowsFrom.perform {cutoff : Int} {calls : List StoreEvent} {table : SweptTable}
    (h : OldRowsFrom env cutoff calls s table) (hexport : event.IsExport) :
    OldRowsFrom env cutoff (calls ++ [event]) (s.perform env event).2 table := by
  have hlast : event ∈ calls ++ [event] := List.mem_append_right _ (List.mem_singleton_self event)
  cases table with
  | spans =>
    intro row hrow hold
    rcases mem_perform_spans hexport hrow with hbefore | hnew
    · obtain ⟨e, he, hmem⟩ := h row hbefore hold
      exact ⟨e, List.mem_append_left _ he, hmem⟩
    · exact ⟨event, hlast, hnew⟩
  | logs =>
    intro row hrow hold
    rcases mem_perform_logs hexport hrow with hbefore | hnew
    · obtain ⟨e, he, hmem⟩ := h row hbefore hold
      exact ⟨e, List.mem_append_left _ he, hmem⟩
    · exact ⟨event, hlast, hnew⟩
  | metricPoints =>
    intro row hrow hold
    rcases mem_perform_points hexport hrow with hbefore | hnew
    · obtain ⟨e, he, hmem⟩ := h row hbefore hold
      exact ⟨e, List.mem_append_left _ he, hmem⟩
    · exact ⟨event, hlast, hnew⟩

lemma mem_contents_of_leftBySweep {ρ : Type} {time : Stored ρ → Int} {cutoff : Int} {ok : Bool} {t t' : IdentityTable ρ}
    (h : LeftBySweep time cutoff ok t t') {row : ρ} (hrow : row ∈ t'.contents) : row ∈ t.contents := by
  obtain ⟨left, hrows, -, -⟩ := h
  obtain ⟨r, hr, rfl⟩ := List.mem_map.mp hrow
  rw [hrows] at hr
  exact List.mem_map_of_mem (List.mem_filter.mp hr).1

/-- A statement of a sweep adds no row. -/
lemma OldRowsFrom.of_leftBySweep {s' : Store} {cutoff cutoff' : Int} {ok : Bool} {calls : List StoreEvent}
    {table : SweptTable} (h : OldRowsFrom env cutoff calls s table) (hleft : s.LeftBySweep cutoff' ok s') :
    OldRowsFrom env cutoff calls s' table := by
  cases table with
  | spans =>
    intro row hrow hold
    obtain ⟨left, hrows, -, -⟩ := hleft.spans
    rw [hrows] at hrow
    exact h row (List.mem_filter.mp hrow).1 hold
  | logs => exact fun row hrow hold => h row (mem_contents_of_leftBySweep hleft.logs hrow) hold
  | metricPoints => exact fun row hrow hold => h row (mem_contents_of_leftBySweep hleft.metricPoints hrow) hold

end Exports

/-- The tables that a sweep is done with. -/
def SweptTable.done : SweptTable → List SweptTable
  | .spans => []
  | .logs => [.spans]
  | .metricPoints => [.spans, .logs]

section Sweep

variable {ω : Type} [DecidableEq ω] {env : Externals} {retention : ω → ℕ} {s s' : RetentionRace ω}

/-- What is known of a sweep with the cutoff: the tables it is done with have no old rows but those of
the calls since. -/
def RetentionPhase.ClearedSince (env : Externals) (cutoff : Int) (calls : List StoreEvent) (store : Store) :
    RetentionPhase → Prop
  | .sweeping table cutoff' _ => cutoff' = cutoff ∧ ∀ table' ∈ table.done, OldRowsFrom env cutoff calls store table'
  | .waiting (some (.ok _)) => ∀ table, OldRowsFrom env cutoff calls store table
  | .waiting _ => True

lemma RetentionPhase.ClearedSince.imp {cutoff : Int} {calls calls' : List StoreEvent} {store store' : Store}
    {phase : RetentionPhase} (h : phase.ClearedSince env cutoff calls store)
    (himp : ∀ table, OldRowsFrom env cutoff calls store table → OldRowsFrom env cutoff calls' store' table) :
    phase.ClearedSince env cutoff calls' store' := by
  cases phase with
  | sweeping table cutoff' out => exact ⟨h.1, fun table' htable => himp table' (h.2 table' htable)⟩
  | waiting last =>
    cases last with
    | none => trivial
    | some res =>
      cases res with
      | error e => trivial
      | ok out => exact fun table => himp table (h table)

end Sweep

/-- The number of rows older than the cutoff. -/
def Store.expired (cutoff : Int) (s : Store) : ℕ :=
  s.spans.rows.countP (fun row => row.startTime < cutoff) + s.logs.contents.countP (fun row => row.time < cutoff) +
    s.metricPoints.contents.countP fun row => row.time < cutoff

/-- The number of rows older than the cutoff that an export sends, whether it succeeds or not. -/
def StoreEvent.expired (env : Externals) (cutoff : Int) (event : StoreEvent) : ℕ :=
  (spanEntry env (event, true)).committed.countP (fun row => row.startTime < cutoff) +
    (logEntry env (event, true)).committed.countP (fun row => row.time < cutoff) +
    (pointEntry env (event, true)).committed.countP fun row => row.time < cutoff

/-- The tables that a sweep is not done with. -/
def RetentionPhase.tablesLeft : RetentionPhase → ℕ
  | .waiting _ => 0
  | .sweeping .spans _ _ => 3
  | .sweeping .logs _ _ => 2
  | .sweeping .metricPoints _ _ => 1

/-- What is ahead of a sweep: the rows that are expired, and for each table a batch that is not full. -/
def RetentionRace.ahead {ω : Type} (w : ω) (cutoff : Int) (s : RetentionRace ω) : ℕ :=
  s.store.expired cutoff + batchRows * (s.phase w).tablesLeft

def RetentionAction.isDelete {ω : Type} [DecidableEq ω] (w : ω) : RetentionAction ω → Bool
  | .delete v _ _ => v = w
  | _ => false

section Expired

variable {env : Externals} {cutoff : Int} {s s' : Store} {event : StoreEvent}

lemma countP_committed_le {ρ : Type} (p : ρ → Bool) (rows : Bool → List ρ) (hfail : rows false = []) (ok : Bool) :
    (rows ok).countP p ≤ (rows true).countP p := by
  cases ok with
  | true => exact le_rfl
  | false =>
    rw [hfail]
    exact Nat.zero_le _

/-- An export adds at most its own rows to the expired ones. -/
lemma expired_perform_le (hexport : event.IsExport) :
    (s.perform env event).2.expired cutoff ≤ s.expired cutoff + event.expired env cutoff := by
  have hspans : (s.perform env event).2.spans.rows.countP (fun row => row.startTime < cutoff) ≤
      s.spans.rows.countP (fun row => row.startTime < cutoff) +
        (spanEntry env (event, true)).committed.countP fun row => row.startTime < cutoff := by
    rw [← List.countP_append, List.countP_eq_length_filter, List.countP_eq_length_filter]
    have hnodup : (s.perform env event).2.spans.rows.Nodup :=
      List.Nodup.of_map SpanRow.key (s.perform env event).2.spans.nodup_keys
    apply List.Subperm.length_le
    apply List.subperm_of_subset (hnodup.filter _)
    intro row hrow
    obtain ⟨hmem, hold⟩ := List.mem_filter.mp hrow
    rw [List.mem_filter, List.mem_append]
    exact ⟨mem_perform_spans hexport hmem, hold⟩
  have hlogs := countP_committed_le (fun row : LogRow => row.time < cutoff)
    (fun ok => (logEntry env (event, ok)).committed) (by cases event <;> rfl) (s.perform env event).1
  have hpoints := countP_committed_le (fun row : MetricRow => row.time < cutoff)
    (fun ok => (pointEntry env (event, ok)).committed) (by cases event <;> rfl) (s.perform env event).1
  unfold Store.expired StoreEvent.expired
  rw [logs_perform hexport, points_perform hexport, List.countP_append, List.countP_append]
  omega

/-- A statement of any sweep adds no expired row. -/
lemma expired_le_of_leftBySweep {cutoff' : Int} {ok : Bool} (h : s.LeftBySweep cutoff' ok s') :
    s'.expired cutoff ≤ s.expired cutoff := by
  obtain ⟨leftSpans, hspans, -, -⟩ := h.spans
  obtain ⟨leftLogs, hlogs, -, -⟩ := h.logs
  obtain ⟨leftPoints, hpoints, -, -⟩ := h.metricPoints
  unfold Store.expired IdentityTable.contents
  rw [hspans, hlogs, hpoints]
  apply Nat.add_le_add
  · apply Nat.add_le_add
    · exact List.filter_sublist.countP_le
    · exact (List.filter_sublist.map _).countP_le
  · exact (List.filter_sublist.map _).countP_le

/-- A statement of the sweep deletes as many expired rows as it affects. -/
lemma expired_deleteBatch (choices : BatchChoices) (table : SweptTable) (cutoff : Int) (i : ℕ) (s : Store) :
    (s.deleteBatch choices table cutoff i).2.expired cutoff + (s.deleteBatch choices table cutoff i).1 =
      s.expired cutoff := by
  unfold Store.expired IdentityTable.contents
  simp only [List.countP_map, Function.comp_def]
  cases table with
  | spans =>
    have hcount := countP_deleteBatch choices.spans SpanRow.startTime cutoff i s.spans
    dsimp only [Store.deleteBatch]
    omega
  | logs =>
    have hcount := countP_deleteBatch choices.logs (fun r : Stored LogRow => r.row.time) cutoff i s.logs
    dsimp only [Store.deleteBatch]
    omega
  | metricPoints =>
    have hcount := countP_deleteBatch choices.metricPoints (fun r : Stored MetricRow => r.row.time) cutoff i
      s.metricPoints
    dsimp only [Store.deleteBatch]
    omega

end Expired

section Statements

variable {ω : Type} [DecidableEq ω] {env : Externals} {retention : ω → ℕ} {s s' : RetentionRace ω} {w : ω}
  {cutoff : Int}

/-- A full batch takes as many rows as fit, and any other is the last of its table. -/
lemma tablesLeft_nextPhase (table : SweptTable) (cutoff : Int) (out : SweepCounts) (n : ℕ) :
    batchRows * (nextPhase table cutoff out n).tablesLeft + batchRows ≤
      n + batchRows * (RetentionPhase.sweeping table cutoff out).tablesLeft := by
  unfold nextPhase
  split
  · cases table <;> simp only [nextTable, RetentionPhase.tablesLeft] <;> omega
  · cases table <;> simp only [RetentionPhase.tablesLeft] <;> omega

/-- No step but a tick begins a sweep, or changes the cutoff of one. -/
lemma cutoff_of_step {a : RetentionAction ω} (hcutoff : ∀ table c out, s.phase w = .sweeping table c out → c = cutoff)
    (htick : ∀ now, a ≠ .tick w now) (hstep : s.step env retention a = some s') :
    ∀ table c out, s'.phase w = .sweeping table c out → c = cutoff := by
  intro table' c out' hphase'
  rcases RetentionRace.step_cases hstep with ⟨event, rfl, -, rfl⟩ | ⟨v, now, last, rfl, -, rfl⟩ |
    ⟨v, choices, i, table, c', out, rfl, hphase, rfl⟩ | ⟨v, e, table, c', out, e', rfl, -, rfl⟩
  · exact hcutoff table' c out' hphase'
  · have hne : w ≠ v := by
      rintro rfl
      exact htick now rfl
    rw [RetentionRace.phase_setPhase_of_ne s hne] at hphase'
    exact hcutoff table' c out' hphase'
  · by_cases hwv : w = v
    · subst hwv
      rw [RetentionRace.phase_setPhase_self] at hphase'
      rw [cutoff_of_nextPhase hphase']
      exact hcutoff table c' out hphase
    · rw [RetentionRace.phase_setPhase_of_ne _ hwv] at hphase'
      exact hcutoff table' c out' hphase'
  · by_cases hwv : w = v
    · subst hwv
      rw [RetentionRace.phase_setPhase_self] at hphase'
      cases hphase'
    · rw [RetentionRace.phase_setPhase_of_ne _ hwv] at hphase'
      exact hcutoff table' c out' hphase'

/-- A statement of the sweep brings it closer to its end by a full batch, and only exports of expired
rows set it back. -/
lemma ahead_step {a : RetentionAction ω} (hcutoff : ∀ table c out, s.phase w = .sweeping table c out → c = cutoff)
    (htick : ∀ now, a ≠ .tick w now) (hstep : s.step env retention a = some s') :
    s'.ahead w cutoff + batchRows * [a].countP (RetentionAction.isDelete w) ≤
      s.ahead w cutoff + ((callsOf [a]).map (StoreEvent.expired env cutoff)).sum := by
  unfold RetentionRace.ahead
  rcases RetentionRace.step_cases hstep with ⟨event, rfl, hexport, rfl⟩ | ⟨v, now, last, rfl, -, rfl⟩ |
    ⟨v, choices, i, table, c, out, rfl, hphase, rfl⟩ | ⟨v, e, table, c, out, e', rfl, hphase, rfl⟩
  · have hadded : (s.store.perform env event).2.expired cutoff ≤ s.store.expired cutoff + event.expired env cutoff :=
      expired_perform_le hexport
    have hcall : callsOf [RetentionAction.call (ω := ω) event] = [event] := rfl
    have hnone : [RetentionAction.call (ω := ω) event].countP (RetentionAction.isDelete w) = 0 := rfl
    rw [hcall, hnone, List.map_singleton, List.sum_singleton]
    dsimp only
    omega
  · have hne : w ≠ v := by
      rintro rfl
      exact htick now rfl
    rw [RetentionRace.phase_setPhase_of_ne s hne, RetentionRace.store_setPhase]
    exact Nat.le_add_right _ _
  · have hcalls : callsOf [RetentionAction.delete v choices i] = [] := rfl
    rw [RetentionRace.store_setPhase, hcalls, List.map_nil, List.sum_nil, Nat.add_zero]
    by_cases hwv : w = v
    · subst hwv
      obtain rfl := hcutoff table c out hphase
      have hone : [RetentionAction.delete w choices i].countP (RetentionAction.isDelete w) = 1 := by
        simp [RetentionAction.isDelete]
      have hrows := expired_deleteBatch choices table c i s.store
      have hleft := tablesLeft_nextPhase table c out (s.store.deleteBatch choices table c i).1
      rw [RetentionRace.phase_setPhase_self, hphase, hone]
      dsimp only
      omega
    · have hnone : [RetentionAction.delete v choices i].countP (RetentionAction.isDelete w) = 0 := by
        simp [RetentionAction.isDelete, Ne.symm hwv]
      have hrows : (s.store.deleteBatch choices table c i).2.expired cutoff ≤ s.store.expired cutoff :=
        expired_le_of_leftBySweep (leftBySweep_deleteBatch choices table c i s.store)
      rw [RetentionRace.phase_setPhase_of_ne _ hwv, hnone]
      dsimp only
      omega
  · have hcalls : callsOf [RetentionAction.fail v e] = [] := rfl
    have hnone : [RetentionAction.fail v e].countP (RetentionAction.isDelete w) = 0 := rfl
    rw [RetentionRace.store_setPhase, hcalls, hnone, List.map_nil, List.sum_nil]
    by_cases hwv : w = v
    · subst hwv
      rw [RetentionRace.phase_setPhase_self]
      dsimp only [RetentionPhase.tablesLeft]
      omega
    · rw [RetentionRace.phase_setPhase_of_ne _ hwv]
      exact Nat.le_refl _

end Statements

/-- However other loops and calls come in between, a sweep takes at most as many statements as it takes to
delete the expired rows in full batches, those that exports send meanwhile included, and three. -/
theorem sweep_statements_bounded {ω : Type} [DecidableEq ω] (env : Externals) (retention : ω → ℕ) (w : ω) (now : ℕ)
    (during : List (RetentionAction ω)) (s s' : RetentionRace ω) (hsame : ∀ now', .tick w now' ∉ during)
    (hrun : runSteps (RetentionRace.step env retention) (.tick w (some now) :: during) s = some s') :
    batchRows * during.countP (RetentionAction.isDelete w) ≤
      s.store.expired (sweepCutoff now (retention w)) +
        ((callsOf during).map (StoreEvent.expired env (sweepCutoff now (retention w)))).sum + 3 * batchRows := by
  have hgeneral : ∀ s : RetentionRace ω,
      (∀ table c out, s.phase w = .sweeping table c out → c = sweepCutoff now (retention w)) →
      runSteps (RetentionRace.step env retention) during s = some s' →
      s'.ahead w (sweepCutoff now (retention w)) + batchRows * during.countP (RetentionAction.isDelete w) ≤
        s.ahead w (sweepCutoff now (retention w)) +
          ((callsOf during).map (StoreEvent.expired env (sweepCutoff now (retention w)))).sum := by
    clear hrun s
    induction during with
    | nil =>
      intro s _ hrun
      obtain rfl := Option.some.inj hrun
      exact Nat.le_add_right _ _
    | cons a during ih =>
      intro s hcutoff hrun
      rw [runSteps_cons] at hrun
      obtain ⟨s₁, hstep, hrun⟩ := Option.bind_eq_some_iff.mp hrun
      have htick : ∀ now', a ≠ .tick w now' := fun now' ha => hsame now' (ha ▸ List.mem_cons_self)
      have hone := ahead_step hcutoff htick hstep
      have hrest := ih (fun now' hmem => hsame now' (List.mem_cons_of_mem _ hmem)) s₁
        (cutoff_of_step hcutoff htick hstep) hrun
      rw [callsOf_cons, List.map_append, List.sum_append, ← List.singleton_append, List.countP_append, Nat.mul_add]
      omega
  rw [runSteps_cons] at hrun
  obtain ⟨s₁, hstep, hrun⟩ := Option.bind_eq_some_iff.mp hrun
  rcases RetentionRace.step_cases hstep with ⟨event, hcase, -⟩ | ⟨v, now', last, hcase, -, rfl⟩ |
    ⟨v, choices, i, table, cutoff, out, hcase, -⟩ | ⟨v, e, table, cutoff, out, e', hcase, -⟩
  · cases hcase
  · obtain ⟨rfl, rfl⟩ := RetentionAction.tick.inj hcase
    have hbegin : ∀ table c out, (s.setPhase w (beginSweep (retention w) (some now))).phase w = .sweeping table c out →
        c = sweepCutoff now (retention w) := by
      intro table c out hphase
      rw [RetentionRace.phase_setPhase_self] at hphase
      cases hphase
      rfl
    have hbound := hgeneral _ hbegin hrun
    have hstart : (s.setPhase w (beginSweep (retention w) (some now))).ahead w (sweepCutoff now (retention w)) =
        s.store.expired (sweepCutoff now (retention w)) + batchRows * 3 := by
      unfold RetentionRace.ahead
      rw [RetentionRace.phase_setPhase_self, RetentionRace.store_setPhase]
      rfl
    omega
  · cases hcase
  · cases hcase

theorem sweep_statements_bounded_beside :
    batchRows * 3 ≤ twoSpans.store.expired (sweepCutoff 50 10) +
      ((callsOf sweepBesideExport).map (StoreEvent.expired .inert (sweepCutoff 50 10))).sum + 3 * batchRows :=
  sweep_statements_bounded .inert (fun _ => 10) true 50 sweepBesideExport twoSpans _
    (fun now' hmem => by simp [sweepBesideExport] at hmem) rfl

end OtelviewPostgres
