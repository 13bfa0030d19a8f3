import OtelviewPostgres.Model.History
import OtelviewPostgres.Proofs.RecordIngest
import OtelviewPostgres.Proofs.SpanIngest
import OtelviewPostgres.Proofs.Sweep
import OtelviewPostgres.Relational.Journal

/-!
# The store as its history says

What a store holds is known from the calls and their answers alone. An export that was
accepted has committed the rows of its items, a sweep that succeeded has deleted all rows older
than its cutoff, and one that failed may have deleted some of them.
-/

namespace OtelviewPostgres

open Relational

/-- A sweep deletes rows older than its cutoff: all of them if it succeeded. -/
def sweepEntry {ρ : Type} (time : ρ → Int) (run : SweepRun) (retention : ℕ) (ok : Bool) : JournalEntry ρ where
  mayDelete r := run.nowNanos.any fun now => time r < sweepCutoff now retention
  deletes r := ok && run.nowNanos.any fun now => time r < sweepCutoff now retention

/-- The rows of those items that have one. -/
def rowsOf {ι ρ : Type} (row : ι → Except Error ρ) (items : List ι) : List ρ :=
  items.filterMap fun x => (row x).toOption

section Entries

variable (env : Externals)

/-- What a call did to the spans. -/
def spanEntry : StoreEvent × Bool → JournalEntry SpanRow
  | (.write _ data, true) =>
    .commit (rowsOf (spanItemRow env) ((spanItems data).filter fun x => !malformedIds x.item))
  | (.sweep run retention, ok) => sweepEntry SpanRow.startTime run retention ok
  | _ => {}

/-- What a call did to the logs. -/
def logEntry : StoreEvent × Bool → JournalEntry LogRow
  | (.writeLogs _ data, true) => .commit (rowsOf (logItemRow env) (logItems data))
  | (.sweep run retention, ok) => sweepEntry LogRow.time run retention ok
  | _ => {}

/-- What a call did to the metric points. -/
def pointEntry : StoreEvent × Bool → JournalEntry MetricRow
  | (.writeMetrics _ data, true) => .commit (rowsOf (pointItemRow env) (pointItems data))
  | (.sweep run retention, ok) => sweepEntry MetricRow.time run retention ok
  | _ => {}

end Entries

lemma rowsOf_eq_of_mapM {ι ρ : Type} {row : ι → Except Error ρ} {items : List ι} {rows : List ρ}
    (h : items.mapM row = .ok rows) : rowsOf row items = rows := by
  have hrows := mapM_eq_ok_iff.mp h
  induction hrows with
  | nil => rfl
  | @cons x r items rows hx _ ih =>
    have htail : rowsOf row items = rows := ih (mapM_eq_ok_iff.mpr ‹_›)
    rw [← htail]
    unfold rowsOf
    rw [List.filterMap_cons, hx]
    rfl

/-- Of the rows of a table some are left in their order: all that are not older than the cutoff,
and none that are if nothing failed. -/
def LeftBySweep {ρ κ : Type} {key : ρ → κ} (time : ρ → Int) (cutoff : Int) (ok : Bool) (t t' : KeyedTable key) :
    Prop :=
  ∃ left : ρ → Bool, t'.rows = t.rows.filter left ∧ (∀ r, cutoff ≤ time r → left r = true) ∧
    (ok = true → ∀ r, left r = true → cutoff ≤ time r)

section Table

variable {ρ κ : Type} {key : ρ → κ} {time : ρ → Int} {cutoff : Int} {t t' : KeyedTable key}

lemma leftBySweep_self : LeftBySweep time cutoff false t t :=
  ⟨fun _ => true, (List.filter_eq_self.mpr fun _ _ => rfl).symm, fun _ _ => rfl, fun h => by cases h⟩

lemma LeftBySweep.weaken {ok : Bool} (h : LeftBySweep time cutoff ok t t') : LeftBySweep time cutoff false t t' := by
  obtain ⟨left, hrows, hleft, -⟩ := h
  exact ⟨left, hrows, hleft, fun h => by cases h⟩

lemma leftBySweep_sweepTable [DecidableEq κ] {table : String} {faults : ℕ → Option Error}
    {choice : BatchChoice κ batchRows} {res : Except Error ℕ}
    (h : sweepTable table faults choice time cutoff t = some (res, t')) : LeftBySweep time cutoff res.isOk t t' := by
  cases res with
  | ok n =>
    have hclean := (sweptClean_sweepTable h).rows_eq
    exact ⟨_, hclean, fun r hr => decide_eq_true hr, fun _ r hr => of_decide_eq_true hr⟩
  | error e =>
    obtain ⟨left, hrows, hleft⟩ := KeyedTable.exists_filter_drain h
    refine ⟨left, hrows, fun r hr => hleft r ?_, fun h => by cases h⟩
    simpa using hr

end Table

/-- The same of all three tables. -/
structure Store.LeftBySweep (cutoff : Int) (ok : Bool) (s s' : Store) : Prop where
  spans : OtelviewPostgres.LeftBySweep SpanRow.startTime cutoff ok s.spans s'.spans
  logs : OtelviewPostgres.LeftBySweep (fun r : Stored LogRow => r.row.time) cutoff ok s.logs s'.logs
  metricPoints : OtelviewPostgres.LeftBySweep (fun r : Stored MetricRow => r.row.time) cutoff ok s.metricPoints
    s'.metricPoints

/-- A sweep fails for want of a clock and does nothing, or it leaves of each table what it should. -/
theorem sweepExpired_left {run : SweepRun} {retention : ℕ} {s s' : Store} {res : Except Error (ℕ × ℕ × ℕ)}
    (h : sweepExpired run retention s = some (res, s')) :
    (run.nowNanos = none ∧ res.isOk = false ∧ s' = s) ∨
      ∃ now, run.nowNanos = some now ∧ s.LeftBySweep (sweepCutoff now retention) res.isOk s' := by
  unfold sweepExpired at h
  cases hnow : run.nowNanos with
  | none =>
    rw [hnow] at h
    cases h
    exact .inl ⟨rfl, rfl, rfl⟩
  | some now =>
    right
    refine ⟨now, rfl, ?_⟩
    simp only [hnow] at h
    obtain ⟨⟨r1, spans⟩, h1, h⟩ := Option.bind_eq_some_iff.mp h
    have hspans := leftBySweep_sweepTable h1
    cases r1 with
    | error e =>
      cases h
      exact ⟨hspans, leftBySweep_self, leftBySweep_self⟩
    | ok n =>
      obtain ⟨⟨r2, logs⟩, h2, h⟩ := Option.bind_eq_some_iff.mp h
      have hlogs := leftBySweep_sweepTable h2
      cases r2 with
      | error e =>
        cases h
        exact ⟨hspans.weaken, hlogs, leftBySweep_self⟩
      | ok m =>
        obtain ⟨⟨r3, points⟩, h3, h⟩ := Option.bind_eq_some_iff.mp h
        have hpoints := leftBySweep_sweepTable h3
        cases r3 with
        | error e =>
          cases h
          exact ⟨hspans.weaken, hlogs.weaken, hpoints⟩
        | ok k =>
          cases h
          exact ⟨hspans, hlogs, hpoints⟩

/-- What a sweep leaves of a table is what its entry says. -/
lemma sweepEntry_left {ρ κ : Type} {key : ρ → κ} {time : ρ → Int} {run : SweepRun} {retention : ℕ} {ok : Bool}
    {t t' : KeyedTable key} (h : (run.nowNanos = none ∧ ok = false ∧ t' = t) ∨
      ∃ now, run.nowNanos = some now ∧ LeftBySweep time (sweepCutoff now retention) ok t t') :
    ∃ left : ρ → Bool, t'.rows = t.rows.filter left ∧
      (∀ r, (sweepEntry time run retention ok).mayDelete r = false → left r = true) ∧
      ∀ r, (sweepEntry time run retention ok).deletes r = true → left r = false := by
  unfold sweepEntry
  rcases h with ⟨hnow, rfl, rfl⟩ | ⟨now, hnow, left, hrows, hlive, hall⟩
  · refine ⟨fun _ => true, (List.filter_eq_self.mpr fun _ _ => rfl).symm, fun _ _ => rfl, fun r hr => ?_⟩
    cases hr
  · refine ⟨left, hrows, fun r hr => ?_, fun r hr => ?_⟩
    · simp only [hnow, Option.any_some, decide_eq_false_iff_not, not_lt] at hr
      exact hlive r hr
    · simp only [hnow, Option.any_some, Bool.and_eq_true, decide_eq_true_iff] at hr
      by_contra hleft
      exact absurd (hall hr.1 r (Bool.eq_true_of_not_eq_false hleft)) (not_le.mpr hr.2)

section Perform

variable (env : Externals) (s : Store)

/-- A sweep leaves of every table what its entry says. -/
lemma perform_sweep (run : SweepRun) (retention : ℕ) :
    ∃ ok s', s.perform env (.sweep run retention) = (ok, s') ∧
      ((run.nowNanos = none ∧ ok = false ∧ s' = s) ∨
        ∃ now, run.nowNanos = some now ∧ s.LeftBySweep (sweepCutoff now retention) ok s') := by
  obtain ⟨res, s', hsweep⟩ := exists_sweepExpired run retention s
  refine ⟨res.isOk, s', ?_, sweepExpired_left hsweep⟩
  simp only [Store.perform, hsweep]

lemma changes_nothing {ρ κ : Type} [DecidableEq κ] {key : ρ → κ} (t : KeyedTable key) :
    JournalEntry.Changes {} t t :=
  JournalEntry.changes_of_filter rfl (List.filter_eq_self.mpr fun _ _ => rfl).symm (fun _ _ => rfl)
    fun _ h => by cases h

lemma appends_nothing {ρ : Type} (rows : List ρ) : JournalEntry.Appends {} rows rows rows := by
  have happend := JournalEntry.appends_commit rows []
  rwa [List.append_nil] at happend

/-- A call changes the spans by what its entry says. -/
lemma changes_perform (event : StoreEvent) :
    (spanEntry env (event, (s.perform env event).1)).Changes s.spans (s.perform env event).2.spans := by
  cases event with
  | write server data =>
    simp only [Store.perform]
    rcases write_cases env server data s.spans with ⟨e, hwrite⟩ | ⟨batch, hb, -, hwrite⟩
    · rw [hwrite]
      exact changes_nothing s.spans
    · rw [hwrite]
      have hrows := rowsOf_eq_of_mapM (collectSpans_eq_ok env hb).1
      have hchange := JournalEntry.changes_upsertAll spanConflict spanConflict_overwrites s.spans batch.rows
      rw [← hrows] at hchange
      apply hchange.congr
      intro k
      rw [hrows]
      exact lookup_upsertAll_keepLast spanConflict spanConflict_overwrites s.spans batch.rows k
  | writeLogs server data => exact changes_nothing s.spans
  | writeMetrics server data => exact changes_nothing s.spans
  | sweep run retention =>
    obtain ⟨ok, s', hperform, hleft⟩ := perform_sweep env s run retention
    rw [hperform]
    have hspans : (run.nowNanos = none ∧ ok = false ∧ s'.spans = s.spans) ∨ ∃ now, run.nowNanos = some now ∧
        LeftBySweep SpanRow.startTime (sweepCutoff now retention) ok s.spans s'.spans :=
      hleft.imp (fun h => ⟨h.1, h.2.1, congrArg Store.spans h.2.2⟩) fun ⟨now, hnow, h⟩ => ⟨now, hnow, h.spans⟩
    obtain ⟨left, hrows, hmay, hdeletes⟩ := sweepEntry_left hspans
    exact JournalEntry.changes_of_filter rfl hrows hmay hdeletes

/-- A write of records appends those of its items, if it succeeds. -/
lemma appends_writeRecords {ι ρ : Type} (row : ι → Except Error ρ) (items : List ι) (server : Server ρ)
    (t : IdentityTable ρ) :
    (bif (writeRecords server (items.mapM row) t).1.isOk then JournalEntry.commit (rowsOf row items) else {}).Appends
      t.contents (writeRecords server (items.mapM row) t).2.contents t.contents := by
  rcases writeRecords_cases server (items.mapM row) t with ⟨e, hwrite⟩ | ⟨rows, hrows, -, hwrite⟩
  · rw [hwrite]
    exact appends_nothing t.contents
  · rw [hwrite, IdentityTable.contents_insertAll, rowsOf_eq_of_mapM hrows]
    exact JournalEntry.appends_commit t.contents rows

/-- A sweep leaves of the records what its entry says. -/
lemma appends_sweep {ρ : Type} {time : ρ → Int} {run : SweepRun} {retention : ℕ} {ok : Bool} {t t' : IdentityTable ρ}
    (h : (run.nowNanos = none ∧ ok = false ∧ t' = t) ∨ ∃ now, run.nowNanos = some now ∧
      LeftBySweep (fun r : Stored ρ => time r.row) (sweepCutoff now retention) ok t t') :
    (sweepEntry time run retention ok).Appends t.contents t'.contents t'.contents := by
  obtain ⟨left, hrows, hmay, hdeletes⟩ := sweepEntry_left h
  exact JournalEntry.appends_of_filter rfl hrows hmay hdeletes

/-- A call changes the logs by what its entry says. -/
lemma exists_appends_perform_logs (event : StoreEvent) :
    ∃ kept, (logEntry env (event, (s.perform env event).1)).Appends s.logs.contents
      (s.perform env event).2.logs.contents kept := by
  cases event with
  | write server data => exact ⟨_, appends_nothing s.logs.contents⟩
  | writeLogs server data =>
    have happend := appends_writeRecords (logItemRow env) (logItems data) server s.logs
    rw [← collectLogs_eq_mapM] at happend
    simp only [Store.perform]
    unfold writeLogs
    cases hok : (writeRecords server (collectLogs env data) s.logs).1.isOk with
    | true =>
      rw [hok] at happend
      exact ⟨_, happend⟩
    | false =>
      rw [hok] at happend
      exact ⟨_, happend⟩
  | writeMetrics server data => exact ⟨_, appends_nothing s.logs.contents⟩
  | sweep run retention =>
    obtain ⟨ok, s', hperform, hleft⟩ := perform_sweep env s run retention
    rw [hperform]
    exact ⟨_, appends_sweep (hleft.imp (fun h => ⟨h.1, h.2.1, congrArg Store.logs h.2.2⟩)
      fun ⟨now, hnow, h⟩ => ⟨now, hnow, h.logs⟩)⟩

/-- A call changes the metric points by what its entry says. -/
lemma exists_appends_perform_points (event : StoreEvent) :
    ∃ kept, (pointEntry env (event, (s.perform env event).1)).Appends s.metricPoints.contents
      (s.perform env event).2.metricPoints.contents kept := by
  cases event with
  | write server data => exact ⟨_, appends_nothing s.metricPoints.contents⟩
  | writeLogs server data => exact ⟨_, appends_nothing s.metricPoints.contents⟩
  | writeMetrics server data =>
    have happend := appends_writeRecords (pointItemRow env) (pointItems data) server s.metricPoints
    rw [← collectMetrics_eq_mapM] at happend
    simp only [Store.perform]
    unfold writeMetrics
    cases hok : (writeRecords server (collectMetrics env data) s.metricPoints).1.isOk with
    | true =>
      rw [hok] at happend
      exact ⟨_, happend⟩
    | false =>
      rw [hok] at happend
      exact ⟨_, happend⟩
  | sweep run retention =>
    obtain ⟨ok, s', hperform, hleft⟩ := perform_sweep env s run retention
    rw [hperform]
    exact ⟨_, appends_sweep (hleft.imp (fun h => ⟨h.1, h.2.1, congrArg Store.metricPoints h.2.2⟩)
      fun ⟨now, hnow, h⟩ => ⟨now, hnow, h.metricPoints⟩)⟩

end Perform

section Runs

variable (env : Externals)

lemma after_append_singleton (s : Store) (events : List StoreEvent) (event : StoreEvent) :
    s.after env (events ++ [event]) = ((s.after env events).perform env event).2 := by
  unfold Store.after
  rw [List.foldl_append, List.foldl_cons, List.foldl_nil]

lemma history_append_singleton (s : Store) (events : List StoreEvent) (event : StoreEvent) :
    s.history env (events ++ [event]) =
      s.history env events ++ [(event, ((s.after env events).perform env event).1)] := by
  induction events generalizing s with
  | nil => rfl
  | cons e events ih => exact congrArg _ (ih (s.perform env e).2)

/-- The reachable stores are those that runs of calls leave. -/
theorem reachable_iff_exists_after {s : Store} : s.Reachable env ↔ ∃ events, s = ({} : Store).after env events := by
  constructor
  · intro h
    induction h with
    | empty => exact ⟨[], rfl⟩
    | write server data _ ih =>
      obtain ⟨events, rfl⟩ := ih
      exact ⟨events ++ [.write server data], by rw [after_append_singleton]; rfl⟩
    | writeLogs server data _ ih =>
      obtain ⟨events, rfl⟩ := ih
      exact ⟨events ++ [.writeLogs server data], by rw [after_append_singleton]; rfl⟩
    | writeMetrics server data _ ih =>
      obtain ⟨events, rfl⟩ := ih
      exact ⟨events ++ [.writeMetrics server data], by rw [after_append_singleton]; rfl⟩
    | sweep run retention _ hsweep ih =>
      obtain ⟨events, rfl⟩ := ih
      refine ⟨events ++ [.sweep run retention], ?_⟩
      rw [after_append_singleton]
      simp only [Store.perform, hsweep]
  · rintro ⟨events, rfl⟩
    induction events using List.reverseRecOn with
    | nil => exact .empty
    | append_singleton events event ih =>
      rw [after_append_singleton]
      cases event with
      | write server data => exact .write server data ih
      | writeLogs server data => exact .writeLogs server data ih
      | writeMetrics server data => exact .writeMetrics server data ih
      | sweep run retention =>
        obtain ⟨res, s', hsweep⟩ := exists_sweepExpired run retention (({} : Store).after env events)
        simp only [Store.perform, hsweep]
        exact .sweep run retention ih hsweep

/-- What the calls of a run did to each table. -/
def spanJournal (events : List StoreEvent) : List (JournalEntry SpanRow) :=
  (({} : Store).history env events).map (spanEntry env)

def logJournal (events : List StoreEvent) : List (JournalEntry LogRow) :=
  (({} : Store).history env events).map (logEntry env)

def pointJournal (events : List StoreEvent) : List (JournalEntry MetricRow) :=
  (({} : Store).history env events).map (pointEntry env)

/-- Every sweep of the run succeeded. -/
def SweepsSucceed (events : List StoreEvent) : Prop :=
  ∀ run retention ok, (.sweep run retention, ok) ∈ ({} : Store).history env events → ok = true

/-- A journal goes on with what the calls did. -/
lemma journaled_after {s : Store} {es : List (JournalEntry SpanRow)} (h : Journaled es s.spans)
    (events : List StoreEvent) :
    Journaled (es ++ (s.history env events).map (spanEntry env)) (s.after env events).spans := by
  induction events using List.reverseRecOn with
  | nil => rwa [Store.history, List.map_nil, List.append_nil]
  | append_singleton events event ih =>
    rw [history_append_singleton, List.map_append, after_append_singleton, ← List.append_assoc]
    exact .step ih (changes_perform env _ event)

lemma journaled_spans (events : List StoreEvent) :
    Journaled (spanJournal env events) (({} : Store).after env events).spans := by
  have hempty : Journaled [] ({} : Store).spans := .empty
  exact journaled_after env hempty events

lemma journaled_logs (events : List StoreEvent) :
    JournaledRows (logJournal env events) (({} : Store).after env events).logs.contents := by
  unfold logJournal
  induction events using List.reverseRecOn with
  | nil => exact .empty
  | append_singleton events event ih =>
    obtain ⟨kept, happend⟩ := exists_appends_perform_logs env (({} : Store).after env events) event
    rw [history_append_singleton, List.map_append, after_append_singleton]
    exact .step ih happend

lemma journaled_points (events : List StoreEvent) :
    JournaledRows (pointJournal env events) (({} : Store).after env events).metricPoints.contents := by
  unfold pointJournal
  induction events using List.reverseRecOn with
  | nil => exact .empty
  | append_singleton events event ih =>
    obtain ⟨kept, happend⟩ := exists_appends_perform_points env (({} : Store).after env events) event
    rw [history_append_singleton, List.map_append, after_append_singleton]
    exact .step ih happend

variable {env}

/-- Where every sweep succeeded, it is known of each call what it deleted. -/
lemma mayDelete_eq_deletes {ρ : Type} {entry : StoreEvent × Bool → JournalEntry ρ} {events : List StoreEvent}
    (hsucceed : SweepsSucceed env events)
    (hentry : ∀ event ok, (∀ run retention, event = .sweep run retention → ok = true) →
      (entry (event, ok)).mayDelete = (entry (event, ok)).deletes) :
    ∀ e ∈ (({} : Store).history env events).map entry, e.mayDelete = e.deletes := by
  intro e he
  obtain ⟨⟨event, ok⟩, hcall, rfl⟩ := List.mem_map.mp he
  apply hentry
  rintro run retention rfl
  exact hsucceed run retention ok hcall

lemma logEntry_mayDelete_eq (event : StoreEvent) (ok : Bool)
    (hok : ∀ run retention, event = .sweep run retention → ok = true) :
    (logEntry env (event, ok)).mayDelete = (logEntry env (event, ok)).deletes := by
  cases event with
  | sweep run retention =>
    rw [hok run retention rfl]
    rfl
  | writeLogs server data => cases ok <;> rfl
  | _ => rfl

lemma pointEntry_mayDelete_eq (event : StoreEvent) (ok : Bool)
    (hok : ∀ run retention, event = .sweep run retention → ok = true) :
    (pointEntry env (event, ok)).mayDelete = (pointEntry env (event, ok)).deletes := by
  cases event with
  | sweep run retention =>
    rw [hok run retention rfl]
    rfl
  | writeMetrics server data => cases ok <;> rfl
  | _ => rfl

end Runs

/-- After any run of calls there is under each id the version that was accepted last, or nothing
where a sweep came after it whose cutoff is past its start. Where such a sweep succeeded there is
nothing for certain. -/
theorem spans_of_history (env : Externals) (events : List StoreEvent) (id : Bytes × Bytes) :
    (lastVersion SpanRow.key id (spanJournal env events) = none →
        (({} : Store).after env events).spans.lookup id = none) ∧
      ∀ row later, lastVersion SpanRow.key id (spanJournal env events) = some (row, later) →
        VersionFound row later ((({} : Store).after env events).spans.lookup id) :=
  (journaled_spans env events).lookup id

/-- After any run of calls the logs and the metric points are the accepted ones in the order in
which they came, without those that a later sweep deleted: all that no later cutoff is past, none
that the cutoff of a sweep is past which succeeded, and exactly those if every sweep did. -/
theorem records_of_history (env : Externals) (events : List StoreEvent) :
    (surviving JournalEntry.mayDelete (logJournal env events)).Sublist (({} : Store).after env events).logs.contents ∧
      (({} : Store).after env events).logs.contents.Sublist (surviving JournalEntry.deletes (logJournal env events)) ∧
      (surviving JournalEntry.mayDelete (pointJournal env events)).Sublist
        (({} : Store).after env events).metricPoints.contents ∧
      (({} : Store).after env events).metricPoints.contents.Sublist
        (surviving JournalEntry.deletes (pointJournal env events)) ∧
      (SweepsSucceed env events →
        (({} : Store).after env events).logs.contents = surviving JournalEntry.deletes (logJournal env events) ∧
          (({} : Store).after env events).metricPoints.contents =
            surviving JournalEntry.deletes (pointJournal env events)) := by
  have hlogs := journaled_logs env events
  have hpoints := journaled_points env events
  refine ⟨hlogs.sublists.1, hlogs.sublists.2, hpoints.sublists.1, hpoints.sublists.2, fun hsucceed => ⟨?_, ?_⟩⟩
  · exact hlogs.eq_surviving (mayDelete_eq_deletes hsucceed logEntry_mayDelete_eq)
  · exact hpoints.eq_surviving (mayDelete_eq_deletes hsucceed pointEntry_mayDelete_eq)

end OtelviewPostgres
