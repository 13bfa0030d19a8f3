import OtelviewPostgres.Model.Logs
import OtelviewPostgres.Model.Metrics
import OtelviewPostgres.Relational.Traversal

/-!
# Log and metric exports as appended rows

An export of logs is a list of records and one of metrics a list of data points, each in
its context. Writing one appends a row for each of them, in that order, or does nothing.
-/

namespace OtelviewPostgres

open Relational

section Records

variable {ρ : Type} {server : Server ρ} {rows : List ρ} {t : IdentityTable ρ}

lemma flatten_recordChunks (rows : List ρ) : (recordChunks rows).flatten = rows :=
  flatten_chunks (by decide) rows

lemma insertRecords_eq_ok {chunk : List ρ} {t' : IdentityTable ρ} (h : insertRecords server chunk t = .ok t') :
    t' = t.insertAll chunk ∧ ∀ row ∈ chunk, server.refuses row = none := by
  unfold insertRecords at h
  split at h
  · cases h
  · rename_i hrefuses
    cases h
    exact ⟨rfl, List.findSome?_eq_none_iff.mp hrefuses⟩

lemma foldlM_insertRecords_eq_ok {batches : List (List ρ)} {t' : IdentityTable ρ}
    (h : (batches.map (insertRecords server)).foldlM (fun t statement => statement t) t = .ok t') :
    t' = t.insertAll batches.flatten ∧ ∀ row ∈ batches.flatten, server.refuses row = none := by
  rw [IdentityTable.insertAll_flatten]
  exact foldlM_batches_eq_ok (fun _ _ _ hc => insertRecords_eq_ok hc) h

lemma foldlM_insertRecords {batches : List (List ρ)} (h : ∀ row ∈ batches.flatten, server.refuses row = none) :
    (batches.map (insertRecords server)).foldlM (fun t statement => statement t) t =
      .ok (t.insertAll batches.flatten) := by
  rw [IdentityTable.insertAll_flatten]
  apply foldlM_batches
  intro chunk hchunk t
  have hrows : ∀ row ∈ chunk, server.refuses row = none :=
    fun row hrow => h row (List.mem_flatten_of_mem hchunk hrow)
  rw [insertRecords, List.findSome?_eq_none_iff.mpr hrows]

/-- A write of rows reports an error and leaves the table alone, or it appends all of them. -/
lemma writeRecords_cases (server : Server ρ) (collected : Except Error (List ρ)) (t : IdentityTable ρ) :
    (∃ e, writeRecords server collected t = (.error e, t)) ∨
      ∃ rows, collected = .ok rows ∧ (∀ row ∈ rows, server.refuses row = none) ∧
        writeRecords server collected t = (.ok rows.length, t.insertAll rows) := by
  cases collected with
  | error e => exact .inl ⟨e, rfl⟩
  | ok rows =>
    unfold writeRecords
    cases rows with
    | nil => exact .inr ⟨[], rfl, List.forall_mem_nil _, rfl⟩
    | cons r rs =>
      simp only [List.isEmpty_cons, Bool.false_eq_true, if_false]
      rcases runTransaction_cases server.faults ((recordChunks (r :: rs)).map (insertRecords server)) t with
        ⟨e, hrun⟩ | ⟨t', hfold, hrun⟩
      · rw [hrun]
        exact .inl ⟨e, rfl⟩
      · obtain ⟨ht, hrefuses⟩ := foldlM_insertRecords_eq_ok hfold
        rw [flatten_recordChunks] at ht hrefuses
        rw [hrun, ht]
        exact .inr ⟨r :: rs, rfl, hrefuses, rfl⟩

theorem writeRecords_eq_ok {collected : Except Error (List ρ)} {n : ℕ}
    (h : (writeRecords server collected t).1 = .ok n) :
    ∃ rows, collected = .ok rows ∧ n = rows.length ∧ (writeRecords server collected t).2 = t.insertAll rows ∧
      ∀ row ∈ rows, server.refuses row = none := by
  rcases writeRecords_cases server collected t with ⟨e, hwrite⟩ | ⟨rows, hrows, hrefuses, hwrite⟩
  · rw [hwrite] at h
    cases h
  · rw [hwrite] at h ⊢
    exact ⟨rows, hrows, (Except.ok.inj h).symm, rfl, hrefuses⟩

theorem writeRecords_eq_error {collected : Except Error (List ρ)} {e : Error}
    (h : (writeRecords server collected t).1 = .error e) : (writeRecords server collected t).2 = t := by
  rcases writeRecords_cases server collected t with ⟨e', hwrite⟩ | ⟨rows, -, -, hwrite⟩
  · rw [hwrite]
  · rw [hwrite] at h
    cases h

/-- A steady server that refuses none of the rows appends them. -/
theorem writeRecords_of_steady (hserver : server.Steady) (h : ∀ row ∈ rows, server.refuses row = none) :
    writeRecords server (.ok rows) t = (.ok rows.length, t.insertAll rows) := by
  unfold writeRecords
  cases rows with
  | nil => rfl
  | cons r rs =>
    rw [← flatten_recordChunks (r :: rs)] at h
    have hfold := foldlM_insertRecords (t := t) h
    rw [flatten_recordChunks] at hfold
    simp only [List.isEmpty_cons, Bool.false_eq_true, if_false]
    rw [hserver, runTransaction_of_no_faults hfold]

end Records

/-- The records of an export in order, each with the context its payload keeps. -/
def logItems (data : LogsData) : List (InContext LogRecord) :=
  data.resourceLogs.flatMap fun rl => rl.scopeLogs.flatMap fun sl => sl.logRecords.map fun record =>
    { resource := rl.resource, resourceSchemaUrl := rl.schemaUrl, scope := sl.scope
      scopeSchemaUrl := sl.schemaUrl, item := record }

section Logs

variable (env : Externals)

/-- The row of one record in its context. -/
def logItemRow (x : InContext LogRecord) : Except Error LogRow :=
  logRow env { resource := x.resource, scopeLogs := [], schemaUrl := x.resourceSchemaUrl }
    { scope := x.scope, logRecords := [], schemaUrl := x.scopeSchemaUrl } x.item
    (serviceName (resourceAttributes x.resource)) (resourceAttributes x.resource)

lemma collectLogs_eq_mapM (data : LogsData) : collectLogs env data = (logItems data).mapM (logItemRow env) := by
  have hpush := foldlM_push (logItemRow env) (logItems data) []
  simp only [List.nil_append, bind_pure] at hpush
  rw [← hpush]
  unfold logItems
  simp only [foldlM_flatMap, List.foldlM_map]
  rfl

variable {env} {server : Server LogRow} {data : LogsData} {t : LogsTable}

theorem writeLogs_eq_ok {n : ℕ} (h : (writeLogs env server data t).1 = .ok n) :
    ∃ rows, (logItems data).mapM (logItemRow env) = .ok rows ∧ n = rows.length ∧
      (writeLogs env server data t).2 = t.insertAll rows ∧ ∀ row ∈ rows, server.refuses row = none := by
  rw [← collectLogs_eq_mapM]
  exact writeRecords_eq_ok h

end Logs

/-- The data points of an export in order, each with the context its payload keeps. -/
def pointItems (data : MetricsData) : List (InContext FlatPoint) :=
  data.resourceMetrics.flatMap fun rm => rm.scopeMetrics.flatMap fun sm => sm.metrics.flatMap fun metric =>
    (flattenMetric metric).map fun point =>
      { resource := rm.resource, resourceSchemaUrl := rm.schemaUrl, scope := sm.scope
        scopeSchemaUrl := sm.schemaUrl, item := point }

section Metrics

variable (env : Externals)

/-- The row of one data point in its context. -/
def pointItemRow (x : InContext FlatPoint) : Except Error MetricRow :=
  metricRow env { resource := x.resource, scopeMetrics := [], schemaUrl := x.resourceSchemaUrl }
    { scope := x.scope, metrics := [], schemaUrl := x.scopeSchemaUrl } x.item
    (serviceName (resourceAttributes x.resource)) (resourceAttributes x.resource)

lemma collectMetrics_eq_mapM (data : MetricsData) :
    collectMetrics env data = (pointItems data).mapM (pointItemRow env) := by
  have hpush := foldlM_push (pointItemRow env) (pointItems data) []
  simp only [List.nil_append, bind_pure] at hpush
  rw [← hpush]
  unfold pointItems
  simp only [foldlM_flatMap, List.foldlM_map]
  rfl

variable {env} {server : Server MetricRow} {data : MetricsData} {t : MetricsTable}

theorem writeMetrics_eq_ok {n : ℕ} (h : (writeMetrics env server data t).1 = .ok n) :
    ∃ rows, (pointItems data).mapM (pointItemRow env) = .ok rows ∧ n = rows.length ∧
      (writeMetrics env server data t).2 = t.insertAll rows ∧ ∀ row ∈ rows, server.refuses row = none := by
  rw [← collectMetrics_eq_mapM]
  exact writeRecords_eq_ok h

end Metrics

end OtelviewPostgres
