import OtelviewPostgres.Proofs.RecordIngest
import OtelviewPostgres.Proofs.SpanIngest

/-!
# All-or-nothing writes

The three writers build their rows before they open a transaction, and send all chunks in
that one transaction. Whatever fails, and however far the chunks got, an error means that
the table is as it was; success means that every chunk has been stored.
-/

namespace OtelviewPostgres

open Relational

/-- A write that reports an error has changed nothing, and one that reports success has
left what it should. -/
def AllOrNothing {α τ : Type} (before : τ) (outcome : Except Error α × τ) (stored : α → τ → Prop) : Prop :=
  (∀ e, outcome.1 = .error e → outcome.2 = before) ∧ ∀ a, outcome.1 = .ok a → stored a outcome.2

section Stored

variable (env : Externals)

/-- The chunks partition the last rows of the ids and have been upserted one after another. -/
def SpansStored (data : TracesData) (before after : SpansTable) : Prop :=
  ∃ batch, collectSpans env data = .ok batch ∧
    (spanChunks batch).flatten = keepLast SpanRow.key batch.rows ∧
    after = (spanChunks batch).foldl (fun t chunk => t.upsertAll spanConflict chunk) before ∧
    ∀ row ∈ keepLast SpanRow.key batch.rows, after.lookup row.key = some row

/-- The chunks partition the collected rows and have been appended one after another. -/
def RecordsStored {ρ : Type} (collected : Except Error (List ρ)) (before : IdentityTable ρ) (n : ℕ)
    (after : IdentityTable ρ) : Prop :=
  ∃ rows, collected = .ok rows ∧ (recordChunks rows).flatten = rows ∧
    after = (recordChunks rows).foldl IdentityTable.insertAll before ∧
    after.contents = before.contents ++ rows ∧ n = rows.length

lemma allOrNothing_write (server : Server SpanRow) (data : TracesData) (t : SpansTable) :
    AllOrNothing t (write env server data t) (fun _ => SpansStored env data t) := by
  refine ⟨fun e he => write_eq_error he, fun res hres => ?_⟩
  obtain ⟨batch, hb, -, ht, -⟩ := write_eq_ok hres
  refine ⟨batch, hb, flatten_spanChunks batch, ?_, fun row hrow => ?_⟩
  · rw [ht, ← flatten_spanChunks, KeyedTable.upsertAll_flatten]
  · rw [ht]
    have hnodup := nodup_keys_keepLast SpanRow.key batch.rows
    exact KeyedTable.lookup_upsertAll_of_mem spanConflict spanConflict_overwrites t hnodup hrow

lemma allOrNothing_writeRecords {ρ : Type} (server : Server ρ) (collected : Except Error (List ρ))
    (t : IdentityTable ρ) : AllOrNothing t (writeRecords server collected t) (RecordsStored collected t) := by
  refine ⟨fun e he => writeRecords_eq_error he, fun n hn => ?_⟩
  obtain ⟨rows, hrows, hlen, ht, -⟩ := writeRecords_eq_ok hn
  refine ⟨rows, hrows, flatten_recordChunks rows, ?_, ?_, hlen⟩
  · rw [ht, ← IdentityTable.insertAll_flatten, flatten_recordChunks]
  · rw [ht, IdentityTable.contents_insertAll]

end Stored

/-- Each writer leaves its table as it was when it fails, at whatever point, and has stored
every chunk when it succeeds. -/
theorem writes_all_or_nothing (env : Externals) :
    (∀ (server : Server SpanRow) (data : TracesData) (t : SpansTable),
      AllOrNothing t (write env server data t) (fun _ => SpansStored env data t)) ∧
    (∀ (server : Server LogRow) (data : LogsData) (t : LogsTable),
      AllOrNothing t (writeLogs env server data t) (RecordsStored (collectLogs env data) t)) ∧
    ∀ (server : Server MetricRow) (data : MetricsData) (t : MetricsTable),
      AllOrNothing t (writeMetrics env server data t) (RecordsStored (collectMetrics env data) t) :=
  ⟨allOrNothing_write env, fun server data t => allOrNothing_writeRecords server (collectLogs env data) t,
    fun server data t => allOrNothing_writeRecords server (collectMetrics env data) t⟩

/-- A row that a later span of the export overwrites is in no chunk of a successful write. -/
theorem overwritten_row_in_no_chunk :
    (write .inert {} (exportOf [spanOf 1 "a" 5, spanOf 1 "b" 6]) ∅).1 = .ok (0, []) ∧
      ∃ batch, collectSpans .inert (exportOf [spanOf 1 "a" 5, spanOf 1 "b" 6]) = .ok batch ∧
        ∃ row ∈ batch.rows, ∀ chunk ∈ spanChunks batch, row ∉ chunk := by
  refine ⟨rfl, _, rfl, _, List.mem_cons_self, fun chunk hchunk hrow => ?_⟩
  have hnames : ∀ r ∈ chunk, r.operation = "b" := by
    clear hrow
    revert chunk
    decide
  have hname := hnames _ hrow
  revert hname
  decide

end OtelviewPostgres
