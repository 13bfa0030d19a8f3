import OtelviewPostgres.Proofs.Codecs
import OtelviewPostgres.Proofs.RecordIngest
import OtelviewPostgres.Proofs.Streams

/-!
# Logs come back as they were exported

A record is stored with a payload of its own. A search without filters, deep enough to reach
all records, streams each record of every accepted export once, in its context, and the
newest first.
-/

namespace OtelviewPostgres

open Relational

/-- The time a record is ordered by. -/
def effectiveTime (record : LogRecord) : UInt64 :=
  if record.timeUnixNano ≠ 0 then record.timeUnixNano else record.observedTimeUnixNano

/-- The table after a sequence of accepted exports, and refused ones between them. -/
inductive LogsExported (env : Externals) : List LogsData → LogsTable → Prop
  | nothing : LogsExported env [] ∅
  | accepted {exports : List LogsData} {t : LogsTable} (server : Server LogRow) (data : LogsData) (n : ℕ) :
    LogsExported env exports t → (writeLogs env server data t).1 = .ok n →
      LogsExported env (exports ++ [data]) (writeLogs env server data t).2
  | refused {exports : List LogsData} {t : LogsTable} (server : Server LogRow) (data : LogsData) (e : Error) :
    LogsExported env exports t → (writeLogs env server data t).1 = .error e →
      LogsExported env exports (writeLogs env server data t).2

structure LogQueryParameters.Unfiltered (query : LogQueryParameters) : Prop where
  serviceName : query.serviceName = ""
  minSeverity : query.minSeverity ≤ 0
  traceId : query.traceId = ""
  timeMin : query.timeMin = none
  timeMax : query.timeMax = none
  search : query.search = ""

variable {env : Externals}

lemma logItemRow_eq_ok {x : InContext LogRecord} {row : LogRow} (h : logItemRow env x = .ok row) :
    row.time = (effectiveTime x.item).toNat ∧
      row.payload = env.logs.encodeToVec (logSingletonPayload
        { resource := x.resource, scopeLogs := [], schemaUrl := x.resourceSchemaUrl }
        { scope := x.scope, logRecords := [], schemaUrl := x.scopeSchemaUrl } x.item) := by
  obtain ⟨time, htime, h⟩ := bind_eq_ok.mp h
  obtain ⟨observed, -, h⟩ := bind_eq_ok.mp h
  obtain rfl := Except.ok.inj h
  exact ⟨(u64ToI64_eq_ok htime).1, rfl⟩

/-- What a payload is taken apart into. -/
def payloadItems (env : Externals) (payload : Bytes) : List (InContext LogRecord) :=
  ((env.logs.decode payload).map logItems).getD []

lemma decode_logItemRow (henv : env.logs.Lossless) {x : InContext LogRecord} {row : LogRow}
    (h : logItemRow env x = .ok row) :
    (env.logs.decode row.payload).isSome ∧ payloadItems env row.payload = [x] := by
  rw [payloadItems, (logItemRow_eq_ok h).2, henv]
  exact ⟨rfl, rfl⟩

/-- The payloads of rows are taken apart into what the rows were made from. -/
lemma flatMap_payloadItems (henv : env.logs.Lossless) {items : List (InContext LogRecord)} {rows : List LogRow}
    (h : items.mapM (logItemRow env) = .ok rows) : (rows.map LogRow.payload).flatMap (payloadItems env) = items := by
  have hsingle : List.Forall₂ (fun row x => payloadItems env row.payload = [x]) rows items :=
    ((mapM_eq_ok_iff.mp h).imp fun _ _ hx => (decode_logItemRow henv hx).2).flip
  apply flatMap_eq_of_forall₂
  rwa [List.forall₂_map_left_iff]

lemma pairwise_effectiveTime {items : List (InContext LogRecord)} {rows : List LogRow}
    (h : items.mapM (logItemRow env) = .ok rows) (hrows : rows.Pairwise fun row row' => row'.time ≤ row.time) :
    items.Pairwise fun x y => effectiveTime y.item ≤ effectiveTime x.item := by
  have htimes := map_eq_map_of_mapM LogRow.time (fun x => ((effectiveTime x.item).toNat : Int)) h
    fun _ _ hx => (logItemRow_eq_ok hx).1
  have hsorted : (rows.map LogRow.time).Pairwise fun n m => m ≤ n := List.pairwise_map.mpr hrows
  rw [htimes, List.pairwise_map] at hsorted
  exact hsorted.imp fun hle => UInt64.le_iff_toNat_le.mpr (Int.ofNat_le.mp hle)

/-- The rows of the table are those of the records that were accepted. -/
lemma contents_of_exported {exports : List LogsData} {t : LogsTable} (h : LogsExported env exports t) :
    (exports.flatMap logItems).mapM (logItemRow env) = .ok t.contents := by
  induction h with
  | nothing => rfl
  | accepted server data n _ haccepted ih =>
    obtain ⟨rows, hrows, -, htable, -⟩ := writeLogs_eq_ok haccepted
    rw [htable, IdentityTable.contents_insertAll, List.flatMap_append, List.flatMap_singleton]
    exact mapM_append_eq_ok ih hrows
  | refused server data e _ hrefused ih =>
    rw [writeLogs, writeRecords_eq_error hrefused]
    exact ih

/-- The record of every accepted export is stored. -/
lemma exists_stored_of_exported {exports : List LogsData} {t : LogsTable} (h : LogsExported env exports t)
    {x : InContext LogRecord} (hx : x ∈ exports.flatMap logItems) :
    ∃ r ∈ t.rows, logItemRow env x = .ok r.row := by
  obtain ⟨row, hrow, hstored⟩ := exists_mem_of_mapM (contents_of_exported h) hx
  obtain ⟨r, hr, rfl⟩ := List.mem_map.mp hrow
  exact ⟨r, hr, hstored⟩

lemma logConditions_of_unfiltered {query : LogQueryParameters} (h : query.Unfiltered) :
    logConditions query = .ok [] := by
  have hseverity : ¬ 0 < query.minSeverity := Int32.not_lt.mpr h.minSeverity
  rw [logConditions, h.serviceName, h.traceId, h.timeMin, h.timeMax, h.search, if_neg hseverity]
  rfl

lemma findLogs_of_unfiltered (env : Externals) (fold : Char → Char) {maxSearchDepth : ℕ}
    (order : OrderBy (Stored LogRow) NewerLog) {query : LogQueryParameters} {t : LogsTable} (h : query.Unfiltered)
    (hdepth : t.rows.length ≤ searchDepth maxSearchDepth query.searchDepth) :
    findLogs env fold maxSearchDepth none none order query t =
      .ok (((order.sort t.rows).map Stored.row).map LogRow.payload) := by
  have hrows : logRows env fold order (searchDepth maxSearchDepth query.searchDepth) [] t = order.sort t.rows := by
    have hall : (t.rows.filter fun r => ([] : List LogCondition).all fun condition => condition.holds env fold r.row) =
        t.rows := List.filter_eq_self.mpr fun _ _ => rfl
    rw [logRows, hall]
    apply List.take_of_length_le
    rwa [OrderBy.length_sort]
  rw [findLogs, logConditions_of_unfiltered h, ← hrows, List.map_map]
  rfl

lemma exists_mergeLogs {group : List Bytes} (h : ∀ payload ∈ group, (env.logs.decode payload).isSome) :
    ∃ message, mergeLogs env group = .ok message ∧ logItems message = group.flatMap (payloadItems env) := by
  obtain ⟨out, hout, hitems⟩ := exists_merged (f := LogsData.resourceLogs) h []
  refine ⟨{ resourceLogs := out }, ?_, ?_⟩
  · rw [mergeLogs, hout]
    rfl
  · exact hitems _

lemma findLogs_stream {fold : Char → Char} {maxSearchDepth : ℕ} {order : OrderBy (Stored LogRow) NewerLog}
    {query : LogQueryParameters} {t : LogsTable} {payloads : List Bytes}
    (h : findLogs env fold maxSearchDepth none none order query t = .ok payloads) :
    LogReader.findLogs env maxSearchDepth fold none none order (some query) t =
      .ok (streamChunks payloads (mergeLogs env)) := by
  change ((findLogs env fold maxSearchDepth none none order query t).mapError (Failure.map invalidOrInternal) >>=
    fun payloads => pure (streamChunks payloads (mergeLogs env))) = _
  rw [h]
  rfl

/-- A search without filters that reaches all records streams each record of the accepted
exports once, in its context, in chunks of bounded size and the newest first. -/
theorem logs_read_back (henv : env.logs.Lossless) {exports : List LogsData} {t : LogsTable}
    (hexported : LogsExported env exports t) (fold : Char → Char) (maxSearchDepth : ℕ)
    (order : OrderBy (Stored LogRow) NewerLog) (query : LogQueryParameters) (hquery : query.Unfiltered)
    (hdepth : t.rows.length ≤ searchDepth maxSearchDepth query.searchDepth) :
    ∃ messages items, LogReader.findLogs env maxSearchDepth fold none none order (some query) t =
        .ok (messages.map .ok) ∧
      StreamsItems logItems items messages ∧
      items.Perm (exports.flatMap logItems) ∧
      items.Pairwise fun x y => effectiveTime y.item ≤ effectiveTime x.item := by
  have hfind := findLogs_of_unfiltered env fold order hquery hdepth
  have hperm : t.contents.Perm ((order.sort t.rows).map Stored.row) := ((order.sort_perm t.rows).map Stored.row).symm
  obtain ⟨items, hitems, hrows⟩ := exists_perm_mapM (contents_of_exported hexported) hperm
  have hdecode : ∀ payload ∈ ((order.sort t.rows).map Stored.row).map LogRow.payload,
      (env.logs.decode payload).isSome ∧ (payloadItems env payload).length = 1 := by
    intro payload hpayload
    obtain ⟨row, hrow, rfl⟩ := List.mem_map.mp hpayload
    obtain ⟨x, -, hx⟩ := exists_of_mem_mapM hrows hrow
    obtain ⟨hsome, hitem⟩ := decode_logItemRow henv hx
    rw [hitem]
    exact ⟨hsome, rfl⟩
  obtain ⟨messages, hmessages, hstream⟩ := streamChunks_eq logItems (payloadItems env)
    (fun group hgroup => exists_mergeLogs fun payload hpayload => (hdecode payload (hgroup hpayload)).1)
    fun payload hpayload => (hdecode payload hpayload).2
  rw [flatMap_payloadItems henv hrows] at hstream
  refine ⟨messages, items, ?_, hstream, hitems, ?_⟩
  · rw [findLogs_stream hfind, ← hmessages]
  · exact pairwise_effectiveTime hrows (List.pairwise_map.mpr (order.pairwise_sort t.rows))

noncomputable def countingLogs : Externals := { Externals.inert with logs := .counting LogsData }

/-- Records at the times, the first of which was not sent. -/
def logsAt (schemaUrl : String) (observed time : UInt64) : LogsData where
  resourceLogs := [{ scopeLogs := [{ logRecords := [{ observedTimeUnixNano := observed }, { timeUnixNano := time }] }]
                     schemaUrl }]

/-- The table after two exports. -/
noncomputable def twoExports : LogsTable :=
  (writeLogs countingLogs {} (logsAt "b" 4 2) (writeLogs countingLogs {} (logsAt "a" 1 3) ∅).2).2

theorem two_exports_read_back :
    ∃ messages items,
      LogReader.findLogs countingLogs 20 Char.toLower none none (.stable NewerLog) (some {}) twoExports =
        .ok (messages.map .ok) ∧
      StreamsItems logItems items messages ∧
      items.Perm ([logsAt "a" 1 3, logsAt "b" 4 2].flatMap logItems) ∧
      items.Pairwise fun x y => effectiveTime y.item ≤ effectiveTime x.item :=
  logs_read_back (Codec.lossless_counting LogsData)
    (.accepted {} (logsAt "b" 4 2) 2 (.accepted {} (logsAt "a" 1 3) 2 .nothing rfl) rfl) Char.toLower 20 _ {}
    ⟨rfl, by decide, rfl, rfl, rfl, rfl⟩ (by decide)

end OtelviewPostgres
