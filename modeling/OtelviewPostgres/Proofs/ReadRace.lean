import OtelviewPostgres.Model.ReadRace
import OtelviewPostgres.Proofs.ExportOrder
import OtelviewPostgres.Proofs.ListingRace
import OtelviewPostgres.Proofs.Streaming

/-!
# Reads beside exports and sweeps

Between the search for traces and the reading of their spans the store may change. What is streamed
are whole traces as they are when they are read, and exports alone make no trace disappear that was
found. The count of services is exact for the moments at which the tables are listed.
-/

namespace OtelviewPostgres

open Channels Relational

section Searches

variable {env : Externals} {maxSearchDepth : ℕ} {search : TraceSearch} {query : TraceQueryParameters}

/-- What is found are the traces that the search lists. -/
lemma exists_listed_of_searchIds (hsearch : search.Answered) {t : SpansTable} {found : List FoundTraceId}
    (hfound : searchIds env maxSearchDepth search (some query) t = .ok found) :
    ∃ conditions, found.map FoundTraceId.traceId = search.listed env maxSearchDepth query conditions t := by
  have hids := hfound
  rw [searchIds_some, mapError_eq_ok] at hids
  obtain ⟨conditions, happly, -⟩ := bind_eq_ok.mp hids
  obtain ⟨found', hfound', hlisted⟩ := searchIds_eq env maxSearchDepth t hsearch.findFault happly
  rw [hfound] at hfound'
  obtain rfl := Except.ok.inj hfound'
  exact ⟨conditions, hlisted⟩

/-- Each trace that is found has a span. -/
lemma exists_row_of_searchIds (hsearch : search.Answered) {t : SpansTable} {found : List FoundTraceId}
    (hfound : searchIds env maxSearchDepth search (some query) t = .ok found) {id : Bytes}
    (hid : id ∈ found.map FoundTraceId.traceId) : ∃ row ∈ t.rows, row.traceId = id := by
  obtain ⟨conditions, hlisted⟩ := exists_listed_of_searchIds hsearch hfound
  rw [hlisted] at hid
  obtain ⟨row, hrow, hrowid, -⟩ := exists_of_mem_listedTraces hid
  exact ⟨row, hrow, hrowid⟩

/-- Exports leave a span under every id that has one. -/
lemma isSome_lookup_after (env : Externals) {events : List StoreEvent} (hexports : ∀ event ∈ events, event.IsExport)
    {s : Store} {id : Bytes × Bytes} (h : (s.spans.lookup id).isSome) :
    ((s.after env events).spans.lookup id).isSome := by
  induction events generalizing s with
  | nil => exact h
  | cons event events ih =>
    rw [List.forall_mem_cons] at hexports
    apply ih hexports.2
    rw [lookup_perform hexports.1, Option.isSome_or, h, Bool.or_true]

lemma exists_key_after (env : Externals) {events : List StoreEvent} (hexports : ∀ event ∈ events, event.IsExport)
    {s : Store} {row : SpanRow} (hrow : row ∈ s.spans.rows) :
    ∃ row' ∈ (s.after env events).spans.rows, row'.key = row.key := by
  have hbefore : (s.spans.lookup row.key).isSome := by
    rw [(KeyedTable.lookup_eq_some_iff _ row.key row).mpr ⟨hrow, rfl⟩]
    rfl
  obtain ⟨row', hrow'⟩ := Option.isSome_iff_exists.mp (isSome_lookup_after env hexports hbefore)
  obtain ⟨hmem, hkey⟩ := (KeyedTable.lookup_eq_some_iff _ row.key row').mp hrow'
  exact ⟨row', hmem, hkey⟩

/-- After exports every trace that was found is still there. -/
lemma exists_row_after (hsearch : search.Answered) {s : Store} {found : List FoundTraceId}
    (hfound : searchIds env maxSearchDepth search (some query) s.spans = .ok found) {events : List StoreEvent}
    (hexports : ∀ event ∈ events, event.IsExport) {id : Bytes} (hid : id ∈ found.map FoundTraceId.traceId) :
    ∃ row ∈ (s.after env events).spans.rows, row.traceId = id := by
  obtain ⟨row, hrow, rfl⟩ := exists_row_of_searchIds hsearch hfound hid
  obtain ⟨row', hrow', hkey⟩ := exists_key_after env hexports hrow
  exact ⟨row', hrow', congrArg Prod.fst hkey⟩

end Searches

/-- A search for traces, its spans read after exports and sweeps have changed the store, streams of
each trace that was found all spans that are there, in their last accepted versions. If there were
only exports no trace is missing, and the client receives the messages in this order, whatever the
order in which it and the task take their steps. -/
theorem found_traces_across (env : Externals) (henv : env.traces.Lossless) (maxSearchDepth : ℕ) (search : TraceSearch)
    (hsearch : search.Answered) (query : TraceQueryParameters) (s : Store) (hs : s.Reachable env)
    (during : List StoreEvent) (found : List FoundTraceId)
    (hfound : searchIds env maxSearchDepth search (some query) s.spans = .ok found) :
    ∃ (rows : List SpanRow) (items : List (InContext Span)),
      TraceReader.findTracesAcross env maxSearchDepth search (some query) s.spans (s.after env during).spans =
        .ok (items.map fun x => .ok (spanMessage x)) ∧
      List.Forall₂ (ReadsBack env) rows items ∧ (items.map spanId).Nodup ∧
      WholeTraces (s.after env during).spans rows ∧
      (∀ row, row ∈ rows ↔
        row ∈ (s.after env during).spans.rows ∧ row.traceId ∈ found.map FoundTraceId.traceId) ∧
      (∀ id : Bytes × Bytes, id.1 ∈ found.map FoundTraceId.traceId → ∀ row later,
        lastVersion SpanRow.key id (.commit s.spans.rows :: (s.history env during).map (spanEntry env)) =
          some (row, later) → VersionFound row later (rows.find? fun row => row.key = id)) ∧
      ((∀ event ∈ during, event.IsExport) → ∀ trace ∈ found, ∃ row ∈ rows, row.traceId = trace.traceId) ∧
      ∀ actions p, runSteps (streamIdsStep env) actions (streamIdsTask (rows.map rowToSpan)) = some p →
        p.taken <+: (items.map fun x => .ok (spanMessage x)) ∧
        p.Delivers (spanMessageOf env) idsCapacity (rows.map rowToSpan) := by
  have hjournal : Journaled (.commit s.spans.rows :: (s.history env during).map (spanEntry env))
      (s.after env during).spans := journaled_after env (journaled_commit s.spans) during
  have hreads : ∀ row ∈ (s.after env during).spans.rows, ∃ x, ReadsBack env row x := by
    obtain ⟨events, rfl⟩ := (reachable_iff_exists_after env).mp hs
    rw [← after_append]
    exact exists_readsBack henv ((reachable_iff_exists_after env).mpr ⟨_, rfl⟩)
  obtain ⟨items, hstream, hitems, hnodup, hversions⟩ :=
    streamIds_of_journaled hsearch.spansFault hreads hjournal (found.map FoundTraceId.traceId)
  refine ⟨_, items, ?_, hitems, hnodup, wholeTraces_traceRows, fun row => mem_traceRows,
    fun id hid => (hversions id hid).2, fun hexports trace htrace => ?_, fun actions p hrun => ?_⟩
  · rw [TraceReader.findTracesAcross, hfound]
    exact hstream
  · obtain ⟨row, hrow, hid⟩ := exists_row_after hsearch hfound hexports (List.mem_map_of_mem htrace)
    exact ⟨row, mem_traceRows.mpr ⟨hrow, hid ▸ List.mem_map_of_mem htrace⟩, hid⟩
  · obtain ⟨hdelivers, -⟩ := Pipe.delivers_of_run (by decide) hrun
    refine ⟨?_, hdelivers⟩
    rw [← map_decodePayload_readsBack hitems]
    exact hdelivers.taken

/-- Two traces in the store, of which one is exported anew. -/
noncomputable def tracesFound : Store :=
  ({} : Store).after countingTraces [.write {} (exportOf [spanOf 1 "a" 5, spanOf 2 "b" 6])]

lemma exists_found_tracesFound :
    ∃ found, searchIds countingTraces 20 .stable (some {}) tracesFound.spans = .ok found := by
  obtain ⟨found, hfound, -⟩ :=
    searchIds_eq countingTraces 20 tracesFound.spans answered_stable.findFault applyQuery_none
  exact ⟨found, hfound⟩

theorem found_traces_across_rewritten :
    ∃ found rows items,
      searchIds countingTraces 20 .stable (some {}) tracesFound.spans = .ok found ∧
      TraceReader.findTracesAcross countingTraces 20 .stable (some {}) tracesFound.spans
          (tracesFound.after countingTraces [.write {} (exportOf [spanOf 1 "c" 7])]).spans =
        .ok (items.map fun x => .ok (spanMessage x)) ∧
      List.Forall₂ (ReadsBack countingTraces) rows items := by
  obtain ⟨found, hfound⟩ := exists_found_tracesFound
  have hreachable : tracesFound.Reachable countingTraces := (reachable_iff_exists_after countingTraces).mpr ⟨_, rfl⟩
  obtain ⟨rows, items, hstream, hitems, -⟩ := found_traces_across countingTraces (Codec.lossless_counting TracesData) 20
    .stable answered_stable {} tracesFound hreachable [.write {} (exportOf [spanOf 1 "c" 7])] found hfound
  exact ⟨found, rows, items, hfound, hstream, hitems⟩

section Summaries

variable {env : Externals}

/-- Exports leave at least as many spans of a trace as there were. -/
lemma countP_traceId_after_le {events : List StoreEvent} (hexports : ∀ event ∈ events, event.IsExport) (s : Store)
    (id : Bytes) :
    s.spans.rows.countP (fun row => row.traceId = id) ≤
      (s.after env events).spans.rows.countP fun row => row.traceId = id := by
  have hsubset : (s.spans.rows.filter fun row => row.traceId = id).map SpanRow.key ⊆
      ((s.after env events).spans.rows.filter fun row => row.traceId = id).map SpanRow.key := by
    intro key hkey
    obtain ⟨row, hrow, rfl⟩ := List.mem_map.mp hkey
    obtain ⟨hmem, hid⟩ := List.mem_filter.mp hrow
    obtain ⟨row', hmem', hkey'⟩ := exists_key_after env hexports hmem
    have hid' : row'.traceId = id := (congrArg Prod.fst hkey').trans (of_decide_eq_true hid)
    exact List.mem_map.mpr ⟨row', List.mem_filter.mpr ⟨hmem', decide_eq_true hid'⟩, hkey'⟩
  have hnodup : ((s.spans.rows.filter fun row => row.traceId = id).map SpanRow.key).Nodup :=
    s.spans.nodup_keys.sublist (List.filter_sublist.map _)
  have hle := (List.subperm_of_subset hnodup hsubset).length_le
  rwa [List.length_map, List.length_map, ← List.countP_eq_length_filter, ← List.countP_eq_length_filter] at hle

end Summaries

/-- A search for summaries, its spans read after exports and sweeps have changed the store, answers
with one summary of each trace that was found and is still there, of all spans that are there. If
there were only exports it is one of each trace, of at least as many spans as when it was found. -/
theorem found_summaries_across (env : Externals) (maxSearchDepth : ℕ) (search : TraceSearch)
    (hsearch : search.Answered) (query : TraceQueryParameters) (s : Store) (during : List StoreEvent)
    (found : List FoundTraceId) (hfound : searchIds env maxSearchDepth search (some query) s.spans = .ok found) :
    ∃ sums : List TraceSummary,
      TraceReader.findTraceSummariesAcross env maxSearchDepth search (some query) s.spans (s.after env during).spans =
        .ok [.ok sums] ∧
      (sums.map TraceSummary.traceId).Nodup ∧
      (∀ id, id ∈ sums.map TraceSummary.traceId ↔
        id ∈ found.map FoundTraceId.traceId ∧ ∃ row ∈ (s.after env during).spans.rows, row.traceId = id) ∧
      (∀ summary ∈ sums, summary.spanCount =
        .ofNat ((s.after env during).spans.rows.countP fun row => row.traceId = summary.traceId)) ∧
      ((∀ event ∈ during, event.IsExport) →
        (sums.map TraceSummary.traceId).Perm (found.map FoundTraceId.traceId) ∧
        ∀ summary ∈ sums, s.spans.rows.countP (fun row => row.traceId = summary.traceId) ≤
          (s.after env during).spans.rows.countP fun row => row.traceId = summary.traceId) := by
  have hids : ∀ id, id ∈ (traceRows search.spans (found.map FoundTraceId.traceId) (s.after env during).spans).map
      SpanRow.traceId ↔
        id ∈ found.map FoundTraceId.traceId ∧ ∃ row ∈ (s.after env during).spans.rows, row.traceId = id := by
    intro id
    rw [List.mem_map]
    constructor
    · rintro ⟨row, hrow, rfl⟩
      obtain ⟨hmem, hid⟩ := mem_traceRows.mp hrow
      exact ⟨hid, row, hmem, rfl⟩
    · rintro ⟨hid, row, hmem, rfl⟩
      exact ⟨row, mem_traceRows.mpr ⟨hmem, hid⟩, rfl⟩
  generalize hrows : traceRows search.spans (found.map FoundTraceId.traceId) (s.after env during).spans = rows at hids
  have hanswer : TraceReader.findTraceSummariesAcross env maxSearchDepth search (some query) s.spans
      (s.after env during).spans = .ok [.ok (summaries search.traces search.services (rows.map rowToSpan))] := by
    have hspans : TraceReader.findTraceSummariesAcross env maxSearchDepth search (some query) s.spans
        (s.after env during).spans = (do
          let spans ← (spansForIds search.spansFault search.spans (found.map FoundTraceId.traceId)
            (s.after env during).spans).mapError internal
          return [.ok (summaries search.traces search.services spans)]) := by
      rw [TraceReader.findTraceSummariesAcross, hfound]
      rfl
    rw [hspans, hsearch.spansFault, spansForIds_eq, hrows]
    rfl
  have hsums : ∀ id, id ∈ (summaries search.traces search.services (rows.map rowToSpan)).map TraceSummary.traceId ↔
      id ∈ found.map FoundTraceId.traceId ∧ ∃ row ∈ (s.after env during).spans.rows, row.traceId = id :=
    fun id => (mem_summaries_iff id).trans (hids id)
  have hnodup : ((summaries search.traces search.services (rows.map rowToSpan)).map TraceSummary.traceId).Nodup :=
    map_traceId_summaries_perm.nodup_iff.mpr (List.nodup_dedup _)
  refine ⟨_, hanswer, hnodup, hsums, fun summary hsummary => ?_, fun hexports => ⟨?_, fun summary _ => ?_⟩⟩
  · have hcount : (rows.map rowToSpan).countP (fun span => span.traceId = summary.traceId) =
        rows.countP fun row => row.traceId = summary.traceId := by
      rw [List.countP_map]
      rfl
    have hwhole : WholeTraces (s.after env during).spans rows := hrows ▸ wholeTraces_traceRows
    rw [spanCount_of_mem_summaries hsummary, hcount, hwhole.countP_eq (traceId_mem_of_mem_summaries hsummary)]
  · obtain ⟨conditions, hlisted⟩ := exists_listed_of_searchIds hsearch hfound
    have hfoundNodup : (found.map FoundTraceId.traceId).Nodup := by
      rw [hlisted]
      exact nodup_listedTraces
    rw [List.perm_ext_iff_of_nodup hnodup hfoundNodup]
    intro id
    rw [hsums id]
    constructor
    · exact And.left
    · exact fun hid => ⟨hid, exists_row_after hsearch hfound hexports hid⟩
  · exact countP_traceId_after_le hexports s summary.traceId

theorem found_summaries_across_rewritten :
    ∃ found sums,
      searchIds countingTraces 20 .stable (some {}) tracesFound.spans = .ok found ∧
      TraceReader.findTraceSummariesAcross countingTraces 20 .stable (some {}) tracesFound.spans
          (tracesFound.after countingTraces [.write {} (exportOf [spanOf 1 "c" 7])]).spans = .ok [.ok sums] ∧
      (sums.map TraceSummary.traceId).Perm (found.map FoundTraceId.traceId) := by
  obtain ⟨found, hfound⟩ := exists_found_tracesFound
  obtain ⟨sums, hsums, -, -, -, hexports⟩ := found_summaries_across countingTraces 20 .stable answered_stable {}
    tracesFound [.write {} (exportOf [spanOf 1 "c" 7])] found hfound
  refine ⟨found, sums, hfound, hsums, (hexports fun event hevent => ?_).1⟩
  rw [List.mem_singleton.mp hevent]
  trivial

lemma mem_distinctIndexed {c : Collation} {ρ : Type} {column : ρ → String} {fault : Option Error}
    {order : OrderBy ρ (ColumnLe c.lt column)} {rows : List ρ} {names : List String}
    (h : distinctIndexed fault order rows = .ok names) (name : String) :
    name ∈ names ↔ ∃ r ∈ rows, column r = name := by
  cases fault with
  | some e => cases h
  | none =>
    rw [distinctIndexed, distinctValues_eq] at h
    obtain rfl := Except.ok.inj h
    exact mem_selectDistinct rows name

/-- Exports keep the logs and the metric points. -/
lemma contents_after (env : Externals) {events : List StoreEvent} (hexports : ∀ event ∈ events, event.IsExport)
    (s : Store) : s.logs.contents ⊆ (s.after env events).logs.contents ∧
      s.metricPoints.contents ⊆ (s.after env events).metricPoints.contents := by
  induction events generalizing s with
  | nil => exact ⟨List.Subset.refl _, List.Subset.refl _⟩
  | cons event events ih =>
    rw [List.forall_mem_cons] at hexports
    obtain ⟨hlogs, hpoints⟩ := ih hexports.2 (s.perform env event).2
    rw [logs_perform hexports.1] at hlogs
    rw [points_perform hexports.1] at hpoints
    exact ⟨List.Subset.trans (List.subset_append_left _ _) hlogs,
      List.Subset.trans (List.subset_append_left _ _) hpoints⟩

/-- Some row of the store names the service. -/
def Store.NamesService (s : Store) (name : String) : Prop :=
  (∃ row ∈ s.spans.rows, row.service = name) ∨ (∃ row ∈ s.logs.contents, row.service = name) ∨
    ∃ row ∈ s.metricPoints.contents, row.service = name

/-- The services that are counted, while the store changes, are those that some row names when its
table is listed, each once. If there are only exports meanwhile, none is missed that a row names when
the count begins. -/
theorem stats_services_across {c : Collation} (env : Externals) (read : StatsRead c) (s : Store)
    (during later : List StoreEvent) (res : Stats)
    (h : stats read s.spans (s.after env during).logs (s.after env (during ++ later)).metricPoints = .ok res) :
    ∃ names : Finset String, res.services = .ofNat names.card ∧
      (∀ name, name ∈ names ↔ (∃ row ∈ s.spans.rows, row.service = name) ∨
        (∃ row ∈ (s.after env during).logs.contents, row.service = name) ∨
        ∃ row ∈ (s.after env (during ++ later)).metricPoints.contents, row.service = name) ∧
      ((∀ event ∈ during ++ later, event.IsExport) → ∀ name, s.NamesService name → name ∈ names) := by
  have hnames : ∃ names : Finset String, res.services = .ofNat names.card ∧
      ∀ name, name ∈ names ↔ (∃ row ∈ s.spans.rows, row.service = name) ∨
        (∃ row ∈ (s.after env during).logs.contents, row.service = name) ∨
        ∃ row ∈ (s.after env (during ++ later)).metricPoints.contents, row.service = name := by
    unfold stats at h
    split at h
    · cases h
    · obtain ⟨spanServices, hspans, h⟩ := bind_eq_ok.mp h
      obtain ⟨logServices, hlogs, h⟩ := bind_eq_ok.mp h
      obtain ⟨metricServices, hpoints, h⟩ := bind_eq_ok.mp h
      obtain rfl := Except.ok.inj h
      refine ⟨_, rfl, fun name => ?_⟩
      rw [List.mem_toFinset, List.mem_append, List.mem_append, mem_distinctIndexed hspans, mem_distinctIndexed hlogs,
        mem_distinctIndexed hpoints, or_assoc]
      simp only [IdentityTable.contents, List.mem_map, exists_exists_and_eq_and]
  obtain ⟨names, hcount, hmem⟩ := hnames
  refine ⟨names, hcount, hmem, fun hexports name hname => (hmem name).mpr ?_⟩
  have hduring := (contents_after env (List.forall_mem_append.mp hexports).1 s).1
  have hlater := (contents_after env hexports s).2
  rcases hname with hspan | ⟨row, hrow, hservice⟩ | ⟨row, hrow, hservice⟩
  · exact .inl hspan
  · exact .inr (.inl ⟨row, hduring hrow, hservice⟩)
  · exact .inr (.inr ⟨row, hlater hrow, hservice⟩)

def StatsRead.first (c : Collation) : StatsRead c where
  spans := .stable _
  logs := .stable _
  metricPoints := .stable _

/-- A store with one log record. -/
def oneLog : Store := ({} : Store).after .inert [.writeLogs {} (logsAt "a" 1 3)]

theorem stats_services_across_export :
    ∃ (res : Stats) (names : Finset String),
      stats (.first .codePoints) oneLog.spans (oneLog.after .inert [.writeLogs {} (logsAt "b" 4 2)]).logs
        (oneLog.after .inert [.writeLogs {} (logsAt "b" 4 2)]).metricPoints = .ok res ∧
      res.services = .ofNat names.card ∧ ∀ name, oneLog.NamesService name → name ∈ names := by
  obtain ⟨names, hcount, -, hexports⟩ := stats_services_across .inert (.first .codePoints) oneLog
    [.writeLogs {} (logsAt "b" 4 2)] [] _ rfl
  refine ⟨_, names, rfl, hcount, hexports fun event hevent => ?_⟩
  rw [List.append_nil] at hevent
  rw [List.mem_singleton.mp hevent]
  trivial

end OtelviewPostgres
