import OtelviewPostgres.Proofs.Dependencies
import OtelviewPostgres.Proofs.FoundBounds
import OtelviewPostgres.Proofs.Streaming
import OtelviewPostgres.Relational.Windows

/-!
# Reading window by window

Every search for a time reads a half-open window, so a client can read a long one in adjacent pieces.
Records come once each and in order although the store changes in between, traces are those that one
search finds, and the calls of the dependency graph add up.
-/

namespace OtelviewPostgres

open Relational

/-- The times between which the windows lie. -/
def nanosOf (cut : ℕ → Timestamp) (i : ℕ) : Int := (cut i).exactNanos

def LogQueryParameters.within (query : LogQueryParameters) (start stop : Timestamp) : LogQueryParameters :=
  { query with timeMin := some start, timeMax := some stop }

def LogQueryParameters.untimed (query : LogQueryParameters) : LogQueryParameters :=
  { query with timeMin := none, timeMax := none }

section Logs

variable {env : Externals} {fold : Char → Char} {query : LogQueryParameters}

lemma logTimeBound_some {ts : Timestamp} {condition : Int → LogCondition} {bound : List LogCondition}
    (h : logTimeBound (some ts) condition = .ok bound) : bound = [condition ts.exactNanos] := by
  obtain ⟨n, hn, h⟩ := bind_eq_ok.mp h
  rw [mapError_eq_ok] at hn
  rw [← eq_exactNanos hn]
  exact (Except.ok.inj h).symm

/-- A window only adds its bounds to what the rest of the query asks for. -/
lemma matches_within_iff {start stop : Timestamp} {conditions : List LogCondition}
    (h : logConditions (query.within start stop) = .ok conditions) (row : LogRow) :
    (query.within start stop).Matches env fold row ↔
      query.untimed.Matches env fold row ∧ start.exactNanos ≤ row.time ∧ row.time < stop.exactNanos := by
  rw [matches_iff_all h]
  obtain ⟨traceId, htraceId, h⟩ := bind_eq_ok.mp h
  obtain ⟨timeMin, hmin, h⟩ := bind_eq_ok.mp h
  obtain ⟨timeMax, hmax, h⟩ := bind_eq_ok.mp h
  obtain rfl := Except.ok.inj h
  obtain rfl := logTimeBound_some hmin
  obtain rfl := logTimeBound_some hmax
  have huntimed : logConditions query.untimed = .ok
      ((if query.serviceName.isEmpty then [] else [.serviceName query.serviceName]) ++
        (if 0 < query.minSeverity then [.minSeverity query.minSeverity] else []) ++ traceId ++ [] ++ [] ++
        if query.search.isEmpty then [] else [.search ("%" ++ escapeLike query.search ++ "%")]) := by
    change (traceIdConditions query.traceId >>= _) = _
    change traceIdConditions query.traceId = _ at htraceId
    rw [htraceId]
    rfl
  rw [matches_iff_all huntimed]
  simp only [LogQueryParameters.within, List.all_append, List.all_cons, List.all_nil, Bool.and_true, Bool.and_eq_true,
    LogCondition.holds, decide_eq_true_iff]
  constructor
  · rintro ⟨⟨⟨h, hstart⟩, hstop⟩, hsearch⟩
    exact ⟨⟨h, hsearch⟩, hstart, hstop⟩
  · rintro ⟨⟨h, hsearch⟩, hstart, hstop⟩
    exact ⟨⟨⟨h, hstart⟩, hstop⟩, hsearch⟩

/-- A list that is not full has every record that matches. -/
lemma FoundLogs.mem_iff {depth : ℕ} {t : LogsTable} {rows : List (Stored LogRow)}
    (h : FoundLogs env fold depth query t rows) (hshort : rows.length < depth) (r : Stored LogRow) :
    r ∈ rows ↔ r ∈ t.rows ∧ query.Matches env fold r.row := by
  constructor
  · exact h.stored r
  · rintro ⟨hstored, hmatch⟩
    by_contra hout
    exact absurd (h.newest r hstored hmatch hout).1 hshort.ne

/-- The records that a search of one window finds, if the list is not full. -/
structure PageOf (env : Externals) (fold : Char → Char) (query : LogQueryParameters) (t : LogsTable) (start stop : Int)
    (payloads : List Bytes) (rows : List (Stored LogRow)) : Prop where
  payloads_eq : payloads = rows.map fun r => r.row.payload
  nodup : rows.Nodup
  newestFirst : rows.Pairwise NewerLog
  mem_iff : ∀ r, r ∈ rows ↔
    r ∈ t.rows ∧ query.untimed.Matches env fold r.row ∧ start ≤ r.row.time ∧ r.row.time < stop

lemma exists_pageOf {maxSearchDepth : ℕ} {order : OrderBy (Stored LogRow) NewerLog} {start stop : Timestamp}
    {t : LogsTable} {payloads : List Bytes}
    (h : findLogs env fold maxSearchDepth none none order (query.within start stop) t = .ok payloads)
    (hshort : payloads.length < searchDepth maxSearchDepth query.searchDepth) :
    ∃ rows, PageOf env fold query t start.exactNanos stop.exactNanos payloads rows := by
  obtain ⟨rows, hpayloads, hfound⟩ := foundLogs_of_findLogs h
  obtain ⟨conditions, hconditions, -⟩ := bind_eq_ok.mp h
  rw [hpayloads, List.length_map] at hshort
  refine ⟨rows, hpayloads, hfound.nodup, hfound.newestFirst, fun r => ?_⟩
  rw [hfound.mem_iff hshort, matches_within_iff hconditions]

variable (env) in
/-- A call keeps the records that its entry does not delete. -/
lemma mem_logs_perform_of_not_mayDelete {s : Store} {event : StoreEvent} {r : Stored LogRow} (hr : r ∈ s.logs.rows)
    (hkeeps : (logEntry env (event, (s.perform env event).1)).mayDelete r.row = false) :
    r ∈ (s.perform env event).2.logs.rows := by
  cases event with
  | write server data => exact hr
  | writeLogs server data =>
    simp only [Store.perform]
    unfold writeLogs
    rcases writeRecords_cases server (collectLogs env data) s.logs with ⟨e, hwrite⟩ | ⟨rows, -, -, hwrite⟩
    · rw [hwrite]
      exact hr
    · rw [hwrite]
      exact IdentityTable.mem_insertAll_of_mem hr rows
  | writeMetrics server data => exact hr
  | sweep run retention =>
    obtain ⟨ok, s', hperform, hleft⟩ := perform_sweep env s run retention
    rw [hperform] at hkeeps ⊢
    have hlogs : (run.nowNanos = none ∧ ok = false ∧ s'.logs = s.logs) ∨ ∃ now, run.nowNanos = some now ∧
        LeftBySweep (fun r : Stored LogRow => r.row.time) (sweepCutoff now retention) ok s.logs s'.logs := by
      rcases hleft with ⟨hnow, hok, rfl⟩ | ⟨now, hnow, h⟩
      · exact .inl ⟨hnow, hok, rfl⟩
      · exact .inr ⟨now, hnow, h.logs⟩
    obtain ⟨left, hrows, hmay, -⟩ := sweepEntry_left hlogs
    rw [hrows]
    exact List.mem_filter.mpr ⟨hr, hmay r hkeeps⟩

lemma mem_logs_after_of_not_mayDelete {s : Store} {events : List StoreEvent} {r : Stored LogRow}
    (hr : r ∈ s.logs.rows) (hkeeps : ∀ e ∈ (s.history env events).map (logEntry env), e.mayDelete r.row = false) :
    r ∈ (s.after env events).logs.rows := by
  induction events generalizing s with
  | nil => exact hr
  | cons event events ih =>
    rw [Store.history, List.map_cons, List.forall_mem_cons] at hkeeps
    exact ih (mem_logs_perform_of_not_mayDelete env hr hkeeps.1) hkeeps.2

end Logs

/-- A client that goes back through adjacent windows of logs, each answered with fewer records than the
depth, while exports and sweeps change the store in between, receives the records newest first and each
once: those that are there when their window is read, and so all that were there from the start and were
not swept. -/
theorem log_windows_across (env : Externals) (fold : Char → Char) (maxSearchDepth : ℕ) (query : LogQueryParameters)
    (cut : ℕ → Timestamp) (n : ℕ) (hcut : RisesTo (nanosOf cut) n) (s : Store) (events : ℕ → List StoreEvent)
    (orders : ℕ → OrderBy (Stored LogRow) NewerLog) (parts : ℕ → List Bytes)
    (hparts : ∀ i < n, findLogs env fold maxSearchDepth none none (orders i) (query.within (cut i) (cut (i + 1)))
      (s.after env (events i)).logs = .ok (parts i))
    (hshort : ∀ i < n, (parts i).length < searchDepth maxSearchDepth query.searchDepth) :
    ∃ rows : List (Stored LogRow),
      (List.range n).reverse.flatMap parts = rows.map (fun r => r.row.payload) ∧
      rows.Nodup ∧ rows.Pairwise NewerLog ∧
      (∀ r, r ∈ rows ↔ ∃ i < n, r ∈ (s.after env (events i)).logs.rows ∧ query.untimed.Matches env fold r.row ∧
        InWindow (nanosOf cut) i r.row.time) ∧
      ∀ r ∈ s.logs.rows, query.untimed.Matches env fold r.row →
        nanosOf cut 0 ≤ r.row.time → r.row.time < nanosOf cut n →
        (∀ i < n, ∀ e ∈ (s.history env (events i)).map (logEntry env), e.mayDelete r.row = false) → r ∈ rows := by
  have hpart : ∀ i, ∃ rows, i < n → PageOf env fold query (s.after env (events i)).logs (nanosOf cut i)
      (nanosOf cut (i + 1)) (parts i) rows := by
    intro i
    by_cases hi : i < n
    · obtain ⟨rows, hpage⟩ := exists_pageOf (hparts i hi) (hshort i hi)
      exact ⟨rows, fun _ => hpage⟩
    · exact ⟨[], fun h => absurd h hi⟩
  choose rows hrows using hpart
  have hin : ∀ i < n, ∀ r ∈ rows i, InWindow (nanosOf cut) i r.row.time :=
    fun i hi r hr => (((hrows i hi).mem_iff r).mp hr).2.2
  have hmem : ∀ r, r ∈ (List.range n).reverse.flatMap rows ↔ ∃ i < n, r ∈ (s.after env (events i)).logs.rows ∧
      query.untimed.Matches env fold r.row ∧ InWindow (nanosOf cut) i r.row.time := by
    intro r
    simp only [List.mem_flatMap, List.mem_reverse, List.mem_range]
    exact exists_congr fun i => and_congr_right fun hi => (hrows i hi).mem_iff r
  refine ⟨(List.range n).reverse.flatMap rows, ?_, hcut.nodup_flatMap (fun i hi => (hrows i hi).nodup) hin,
    hcut.pairwise_flatMap (fun i hi => (hrows i hi).newestFirst) hin, hmem, fun r hr hmatch hstart hstop hkeeps => ?_⟩
  · rw [List.map_flatMap]
    apply List.flatMap_congr
    intro i hi
    exact (hrows i (List.mem_range.mp (List.mem_reverse.mp hi))).payloads_eq
  · obtain ⟨i, hi, hwindow⟩ := (hcut.exists_inWindow_iff r.row.time).mpr ⟨hstart, hstop⟩
    exact (hmem r).mpr ⟨i, hi, mem_logs_after_of_not_mayDelete hr (hkeeps i hi), hmatch, hwindow⟩

/-- The first two windows of two nanoseconds. -/
def everyTwoNanos (i : ℕ) : Timestamp where
  seconds := 0
  nanos := .ofNat (2 * i)

lemma risesTo_everyTwoNanos : RisesTo (nanosOf everyTwoNanos) 2 := by
  intro i hi
  interval_cases i <;> decide

/-- Two records, and then two more before the second window is read. -/
def logExports : ℕ → List StoreEvent
  | 0 => [.writeLogs {} (logsAt "a" 1 3)]
  | _ => [.writeLogs {} (logsAt "a" 1 3), .writeLogs {} (logsAt "b" 0 2)]

theorem log_windows_across_two :
    ∃ (parts : ℕ → List Bytes) (rows : List (Stored LogRow)),
      (∀ i < 2, findLogs .inert Char.toLower 20 none none (.stable NewerLog)
        (({} : LogQueryParameters).within (everyTwoNanos i) (everyTwoNanos (i + 1)))
        (({} : Store).after .inert (logExports i)).logs = .ok (parts i)) ∧
      (List.range 2).reverse.flatMap parts = rows.map (fun r => r.row.payload) ∧ rows.Nodup ∧
      rows.Pairwise NewerLog := by
  have hfind : ∀ i < 2, ∃ payloads, findLogs .inert Char.toLower 20 none none (.stable NewerLog)
      (({} : LogQueryParameters).within (everyTwoNanos i) (everyTwoNanos (i + 1)))
      (({} : Store).after .inert (logExports i)).logs = .ok payloads ∧ payloads.length < 20 := by
    intro i hi
    interval_cases i
    · exact ⟨_, rfl, by decide⟩
    · exact ⟨_, rfl, by decide⟩
  choose! parts hparts hshort using hfind
  obtain ⟨rows, hpages, hnodup, hsorted, -⟩ := log_windows_across .inert Char.toLower 20 {} everyTwoNanos 2
    risesTo_everyTwoNanos {} logExports (fun _ => .stable NewerLog) parts hparts hshort
  exact ⟨parts, rows, hparts, hpages, hnodup, hsorted⟩

def TraceQueryParameters.within (query : TraceQueryParameters) (start stop : Timestamp) : TraceQueryParameters :=
  { query with startTimeMin := some start, startTimeMax := some stop }

section Traces

variable {env : Externals} {query : TraceQueryParameters} {t : SpansTable} {id : Bytes}

variable (env query t id) in
/-- The spans of a trace that start in the window and meet what else the query asks for. -/
def spansWithin (start stop : Int) : Set SpanRow :=
  {row | row ∈ t.rows ∧ row.traceId = id ∧ row.MeetsUntimed env query ∧ start ≤ row.startTime ∧ row.startTime < stop}

lemma matchingSpans_within {start stop : Timestamp} {conditions : List SpanCondition}
    (h : applyQuery (query.within start stop) = .ok conditions) :
    matchingSpans env conditions t id = spansWithin env query t id start.exactNanos stop.exactNanos := by
  have hholds : ∀ row : SpanRow, (∀ c ∈ conditions, c.holds env row = true) ↔ row.MeetsUntimed env query ∧
      start.exactNanos ≤ row.startTime ∧ row.startTime < stop.exactNanos := by
    intro row
    rw [holds_iff_meetsUntimed h]
    simp only [TraceQueryParameters.within, Option.mem_some_iff, forall_eq']
    exact Iff.rfl
  ext row
  exact and_congr_right fun _ => and_congr_right fun _ => hholds row

lemma spansWithin_eq_iUnion {cut : ℕ → Int} {n : ℕ} (hcut : RisesTo cut n) :
    spansWithin env query t id (cut 0) (cut n) =
      ⋃ i, {row | i < n ∧ row ∈ spansWithin env query t id (cut i) (cut (i + 1))} := by
  ext row
  rw [Set.mem_iUnion]
  constructor
  · rintro ⟨hrow, hid, hmeets, hwindow⟩
    obtain ⟨i, hi, hin⟩ := (hcut.exists_inWindow_iff row.startTime).mpr hwindow
    exact ⟨i, hi, hrow, hid, hmeets, hin⟩
  · rintro ⟨i, hi, hrow, hid, hmeets, hin⟩
    exact ⟨hrow, hid, hmeets, (hcut.exists_inWindow_iff row.startTime).mp ⟨i, hi, hin⟩⟩

/-- What a search of one window reports of a trace. -/
lemma reported_within (hfits : SpansTable.TimesFit t) {maxSearchDepth : ℕ}
    {groups : OrderBy TraceGroup TraceGroup.NotOlder} {start stop : Timestamp} {found : List FoundTraceId}
    (h : findIds env maxSearchDepth none groups (query.within start stop) t = .ok found) :
    (∀ trace ∈ found,
      IsLeast (SpanRow.startTime '' spansWithin env query t trace.traceId start.exactNanos stop.exactNanos)
        trace.start.exactNanos ∧
      IsGreatest (SpanRow.endTime '' spansWithin env query t trace.traceId start.exactNanos stop.exactNanos)
        trace.stop.exactNanos) ∧
    (found.length < searchDepth maxSearchDepth query.searchDepth →
      ∀ id, (spansWithin env query t id start.exactNanos stop.exactNanos).Nonempty →
        ∃ trace ∈ found, trace.traceId = id) := by
  obtain ⟨conditions, happly, -⟩ := map_traceId_findIds h
  refine ⟨fun trace htrace => ?_, fun hshort id ⟨row, hrow⟩ => ?_⟩
  · obtain ⟨first, hfirst, last, hlast, hstart, hstop, hall⟩ := bounds_of_findIds h happly trace htrace
    rw [hstart, hstop, exactNanos_of_lt (hfits first hfirst.1).1.1 (hfits first hfirst.1).1.2,
      exactNanos_of_lt (hfits last hlast.1).2.1 (hfits last hlast.1).2.2]
    rw [matchingSpans_within happly] at hfirst hlast hall
    refine ⟨⟨⟨first, hfirst, rfl⟩, ?_⟩, ⟨last, hlast, rfl⟩, ?_⟩
    · rintro _ ⟨row, hrow, rfl⟩
      exact (hall row hrow).1
    · rintro _ ⟨row, hrow, rfl⟩
      exact (hall row hrow).2
  · rw [← matchingSpans_within happly] at hrow
    exact exists_found_of_short h happly hshort hrow

end Traces

/-- Adjacent windows of traces, each answered with fewer traces than the depth: every trace that one
search of them all finds is found in some, its start and end are the extremes of those reported there, and
unless that search is cut at its depth it finds every trace of theirs. -/
theorem trace_windows_tile (env : Externals) (s : Store) (hs : s.Reachable env) (maxSearchDepth : ℕ)
    (query : TraceQueryParameters) (cut : ℕ → Timestamp) (n : ℕ) (hcut : RisesTo (nanosOf cut) n)
    (orders : ℕ → OrderBy TraceGroup TraceGroup.NotOlder) (order : OrderBy TraceGroup TraceGroup.NotOlder)
    (parts : ℕ → List FoundTraceId) (whole : List FoundTraceId)
    (hparts : ∀ i < n, findIds env maxSearchDepth none (orders i) (query.within (cut i) (cut (i + 1))) s.spans =
      .ok (parts i))
    (hshort : ∀ i < n, (parts i).length < searchDepth maxSearchDepth query.searchDepth)
    (hwhole : findIds env maxSearchDepth none order (query.within (cut 0) (cut n)) s.spans = .ok whole) :
    (∀ trace ∈ whole,
      IsLeast {v | ∃ i < n, ∃ part ∈ parts i, part.traceId = trace.traceId ∧ part.start.exactNanos = v}
        trace.start.exactNanos ∧
      IsGreatest {v | ∃ i < n, ∃ part ∈ parts i, part.traceId = trace.traceId ∧ part.stop.exactNanos = v}
        trace.stop.exactNanos) ∧
    (whole.length < searchDepth maxSearchDepth query.searchDepth →
      ∀ i < n, ∀ part ∈ parts i, ∃ trace ∈ whole, trace.traceId = part.traceId) := by
  have hfits := timesFit_of_reachable hs
  have hreported := reported_within hfits hwhole
  have hpieces : ∀ id, spansWithin env query s.spans id (cut 0).exactNanos (cut n).exactNanos =
      ⋃ i, {row | i < n ∧ row ∈ spansWithin env query s.spans id (nanosOf cut i) (nanosOf cut (i + 1))} :=
    fun id => spansWithin_eq_iUnion hcut
  refine ⟨fun trace htrace => ?_, fun hwholeShort i hi part hpart => ?_⟩
  · obtain ⟨hleast, hgreatest⟩ := hreported.1 trace htrace
    have hset : ∀ time : FoundTraceId → Int,
        {v | ∃ i < n, ∃ part ∈ parts i, part.traceId = trace.traceId ∧ time part = v} =
          ⋃ i, {v | i < n ∧ ∃ part ∈ parts i, part.traceId = trace.traceId ∧ time part = v} := by
      intro time
      ext v
      rw [Set.mem_iUnion]
      exact Iff.rfl
    have hfound : ∀ i, {row | i < n ∧ row ∈ spansWithin env query s.spans trace.traceId (nanosOf cut i)
        (nanosOf cut (i + 1))}.Nonempty → ∃ part ∈ parts i, i < n ∧ part.traceId = trace.traceId := by
      rintro i ⟨row, hi, hrow⟩
      obtain ⟨part, hpart, hid⟩ := (reported_within hfits (hparts i hi)).2 (hshort i hi) trace.traceId ⟨row, hrow⟩
      exact ⟨part, hpart, hi, hid⟩
    have hpart : ∀ i, i < n → {row | i < n ∧ row ∈ spansWithin env query s.spans trace.traceId (nanosOf cut i)
        (nanosOf cut (i + 1))} = spansWithin env query s.spans trace.traceId (nanosOf cut i) (nanosOf cut (i + 1)) :=
      fun i hi => Set.ext fun row => and_iff_right hi
    rw [hset, hset]
    constructor
    · apply isLeast_iUnion_reports hleast (hpieces trace.traceId)
      · intro i hne
        obtain ⟨part, hmem, hi, hid⟩ := hfound i hne
        exact ⟨_, hi, part, hmem, hid, rfl⟩
      · rintro i _ ⟨hi, part, hmem, hid, rfl⟩
        rw [hpart i hi, ← hid]
        exact ((reported_within hfits (hparts i hi)).1 part hmem).1
    · apply isGreatest_iUnion_reports hgreatest (hpieces trace.traceId)
      · intro i hne
        obtain ⟨part, hmem, hi, hid⟩ := hfound i hne
        exact ⟨_, hi, part, hmem, hid, rfl⟩
      · rintro i _ ⟨hi, part, hmem, hid, rfl⟩
        rw [hpart i hi, ← hid]
        exact ((reported_within hfits (hparts i hi)).1 part hmem).2
  · obtain ⟨row, hrow, -⟩ := ((reported_within hfits (hparts i hi)).1 part hpart).1.1
    apply hreported.2 hwholeShort
    rw [hpieces]
    exact ⟨row, Set.mem_iUnion_of_mem i ⟨hi, hrow⟩⟩

/-- Two spans of a trace that start in different windows. -/
def startsApart : Store where
  spans := (write .inert {} (exportOf [spanOf 1 "a" 1, { spanOf 1 "b" 3 with spanId := .replicate 8 9 }]) ∅).2

theorem trace_windows_tile_two :
    ∃ (parts : ℕ → List FoundTraceId) (whole : List FoundTraceId),
      (∀ i < 2, findIds .inert 20 none (.stable TraceGroup.NotOlder)
        (({} : TraceQueryParameters).within (everyTwoNanos i) (everyTwoNanos (i + 1))) startsApart.spans =
          .ok (parts i)) ∧
      findIds .inert 20 none (.stable TraceGroup.NotOlder)
        (({} : TraceQueryParameters).within (everyTwoNanos 0) (everyTwoNanos 2)) startsApart.spans = .ok whole ∧
      ∀ trace ∈ whole, IsLeast {v | ∃ i < 2, ∃ part ∈ parts i, part.traceId = trace.traceId ∧
        part.start.exactNanos = v} trace.start.exactNanos := by
  have hs : startsApart.Reachable .inert :=
    .write {} (exportOf [spanOf 1 "a" 1, { spanOf 1 "b" 3 with spanId := .replicate 8 9 }]) .empty
  have hfind : ∀ i < 2, ∃ found, findIds .inert 20 none (.stable TraceGroup.NotOlder)
      (({} : TraceQueryParameters).within (everyTwoNanos i) (everyTwoNanos (i + 1))) startsApart.spans = .ok found ∧
        found.length < 20 := by
    intro i hi
    interval_cases i
    · exact ⟨_, rfl, by decide⟩
    · exact ⟨_, rfl, by decide⟩
  choose! parts hparts hshort using hfind
  have hwhole := trace_windows_tile .inert startsApart hs 20 {} everyTwoNanos 2 risesTo_everyTwoNanos
    (fun _ => .stable TraceGroup.NotOlder) (.stable TraceGroup.NotOlder) parts _ hparts hshort rfl
  exact ⟨parts, _, hparts, rfl, fun trace htrace => (hwhole.1 trace htrace).1⟩

/-- The calls that an answer counts between two services. -/
def callsBetween (listed : List Dependency) (parent child : String) : ℕ :=
  ((listed.filter fun d => d.parent = parent ∧ d.child = child).map fun d => d.callCount.toNat).sum

section Calls

variable {t : SpansTable}

lemma filter_eq_singleton {α κ : Type} [DecidableEq κ] (key : α → κ) {l : List α} (h : (l.map key).Nodup) {a : α}
    (ha : a ∈ l) : l.filter (fun b => key b = key a) = [a] := by
  induction l with
  | nil => cases ha
  | cons b l ih =>
    rw [List.map_cons, List.nodup_cons] at h
    rcases List.mem_cons.mp ha with rfl | ha
    · have hnone : l.filter (fun b => key b = key a) = [] := by
        rw [List.filter_eq_nil_iff]
        intro b hb hkey
        exact h.1 (of_decide_eq_true hkey ▸ List.mem_map_of_mem hb)
      have hself : decide (key a = key a) = true := decide_eq_true rfl
      rw [List.filter_cons, if_pos hself, hnone]
    · have hne : ¬ key b = key a := fun heq => h.1 (heq ▸ List.mem_map_of_mem ha)
      rw [List.filter_cons_of_neg (by simpa using hne), ih h.2 ha]

lemma toNat_clampToU64_of_lt {n : ℕ} (h : n < 2 ^ 64) : (clampToU64 (n : Int)).toNat = n := by
  rw [clampToU64, max_eq_left (Int.natCast_nonneg n), Int.toNat_natCast, UInt64.toNat_ofNat']
  exact Nat.mod_eq_of_lt h

/-- An answer counts between two services the calls of its window. -/
lemma callsBetween_eq (hsize : t.rows.length < 2 ^ 64) {order : OrderBy DependencyRow NotFewerCalls} {start stop : Int}
    {parent child : String} :
    callsBetween ((order.sort (dependencyRows start stop t)).map fun d =>
        { parent := d.parent, child := d.child, callCount := clampToU64 d.calls, source := "postgres" }) parent child =
      if parent = child then 0 else t.rows.countP fun row => IsCall t start stop parent child row := by
  have hperm := (((order.sort_perm (dependencyRows start stop t)).filter fun d =>
    (d.parent, d.child) = (parent, child)).map fun d => (clampToU64 d.calls).toNat).sum_eq
  have hsum : callsBetween ((order.sort (dependencyRows start stop t)).map fun d =>
        { parent := d.parent, child := d.child, callCount := clampToU64 d.calls, source := "postgres" }) parent child =
      (((dependencyRows start stop t).filter fun d => (d.parent, d.child) = (parent, child)).map fun d =>
        (clampToU64 d.calls).toNat).sum := by
    rw [← hperm, callsBetween, List.filter_map, List.map_map]
    simp only [Prod.mk.injEq]
    rfl
  rw [hsum]
  by_cases hlisted : ∃ d ∈ dependencyRows start stop t, (d.parent, d.child) = (parent, child)
  · obtain ⟨d, hd, hkey⟩ := hlisted
    cases hkey
    obtain ⟨hne, -, hcalls⟩ := mem_dependencyRows.mp hd
    rw [filter_eq_singleton (fun d : DependencyRow => (d.parent, d.child)) nodup_dependencyRows hd,
      if_neg hne, List.map_singleton, List.sum_singleton, hcalls]
    exact toNat_clampToU64_of_lt (lt_of_le_of_lt List.countP_le_length hsize)
  · have hnone : (dependencyRows start stop t).filter (fun d => (d.parent, d.child) = (parent, child)) = [] := by
      rw [List.filter_eq_nil_iff]
      intro d hd hkey
      exact hlisted ⟨d, hd, of_decide_eq_true hkey⟩
    rw [hnone]
    split
    next => rfl
    next hne =>
      by_contra hcount
      have hpos := Nat.pos_of_ne_zero (Ne.symm hcount)
      exact hlisted ⟨{ parent, child, calls := t.rows.countP fun row => IsCall t start stop parent child row },
        mem_dependencyRows.mpr ⟨hne, Int.natCast_pos.mpr hpos, rfl⟩, rfl⟩

/-- The calls of adjacent windows are those of the whole. -/
lemma countP_isCall_eq_sum {cut : ℕ → Int} {n : ℕ} (hcut : RisesTo cut n) (parent child : String) :
    t.rows.countP (fun row => IsCall t (cut 0) (cut n) parent child row) =
      ((List.range n).map fun i => t.rows.countP fun row => IsCall t (cut i) (cut (i + 1)) parent child row).sum := by
  have hwindow : ∀ start stop, t.rows.countP (fun row => IsCall t start stop parent child row) =
      t.rows.countP fun row => (row.service = child ∧
        ∃ p ∈ t.rows, p.traceId = row.traceId ∧ p.spanId = row.parentSpanId ∧ p.service = parent) ∧
        start ≤ row.startTime ∧ row.startTime < stop := by
    intro start stop
    apply List.countP_congr
    intro row _
    rw [decide_eq_true_iff, decide_eq_true_iff]
    constructor
    · rintro ⟨hservice, hstart, hstop, hparent⟩
      exact ⟨⟨hservice, hparent⟩, hstart, hstop⟩
    · rintro ⟨⟨hservice, hparent⟩, hstart, hstop⟩
      exact ⟨hservice, hstart, hstop, hparent⟩
  simp only [hwindow]
  exact hcut.countP_eq_sum _ SpanRow.startTime t.rows

/-- An answer is the graph of a window that is not empty. -/
lemma getDependencies_eq_ok {order : OrderBy DependencyRow NotFewerCalls} {start stop : Timestamp}
    {listed : List Dependency}
    (h : DependencyReader.getDependencies none order { startTime := some start, endTime := some stop } t =
      .ok listed) :
    start.exactNanos < stop.exactNanos ∧
      listed = (order.sort (dependencyRows start.exactNanos stop.exactNanos t)).map fun d =>
        { parent := d.parent, child := d.child, callCount := clampToU64 d.calls, source := "postgres" } := by
  obtain ⟨a, ha, h⟩ := bind_eq_ok.mp h
  obtain ⟨b, hb, h⟩ := bind_eq_ok.mp h
  rw [requireTimestamp, mapError_eq_ok] at ha hb
  obtain rfl := eq_exactNanos ha
  obtain rfl := eq_exactNanos hb
  change (if start.exactNanos ≥ stop.exactNanos then _ else _) = _ at h
  split at h
  next => cases h
  next hlt =>
    rw [dependencies_eq] at h
    exact ⟨not_le.mp hlt, (Except.ok.inj h).symm⟩

end Calls

/-- The calls between two services that the answers for adjacent windows count add up to those that
the answer for the whole counts. -/
theorem dependency_windows_add (t : SpansTable) (hsize : t.rows.length < 2 ^ 64) (cut : ℕ → Timestamp) (n : ℕ)
    (orders : ℕ → OrderBy DependencyRow NotFewerCalls) (order : OrderBy DependencyRow NotFewerCalls)
    (parts : ℕ → List Dependency) (whole : List Dependency)
    (hparts : ∀ i < n, DependencyReader.getDependencies none (orders i)
      { startTime := some (cut i), endTime := some (cut (i + 1)) } t = .ok (parts i))
    (hwhole : DependencyReader.getDependencies none order { startTime := some (cut 0), endTime := some (cut n) } t =
      .ok whole) (parent child : String) :
    callsBetween whole parent child = ((List.range n).map fun i => callsBetween (parts i) parent child).sum := by
  have hcut : RisesTo (nanosOf cut) n := fun i hi => (getDependencies_eq_ok (hparts i hi)).1.le
  have hpart : ∀ i ∈ List.range n, callsBetween (parts i) parent child = if parent = child then 0 else
      t.rows.countP fun row => IsCall t (nanosOf cut i) (nanosOf cut (i + 1)) parent child row := by
    intro i hi
    rw [(getDependencies_eq_ok (hparts i (List.mem_range.mp hi))).2, callsBetween_eq hsize]
    rfl
  rw [(getDependencies_eq_ok hwhole).2, callsBetween_eq hsize, List.map_congr_left hpart]
  split
  next => simp
  next => exact countP_isCall_eq_sum hcut parent child

/-- The spans of a service. -/
def ofService (service : String) (spans : List Span) : TracesData where
  resourceSpans := [{
    resource := some { attributes := [⟨"service.name", some (.stringValue service)⟩] }
    scopeSpans := [{ spans := spans }] }]

/-- A call of another service in each of two windows. -/
def twoCalls : SpansTable :=
  (write .inert {} (ofService "callee" [
      { spanOf 1 "b" 1 with spanId := .replicate 8 2, parentSpanId := .replicate 8 1 },
      { spanOf 1 "c" 3 with spanId := .replicate 8 3, parentSpanId := .replicate 8 1 }])
    (write .inert {} (ofService "caller" [spanOf 1 "a" 1]) ∅).2).2

theorem dependency_windows_add_two :
    ∃ (parts : ℕ → List Dependency) (whole : List Dependency),
      (∀ i < 2, DependencyReader.getDependencies none (.stable NotFewerCalls)
        { startTime := some (everyTwoNanos i), endTime := some (everyTwoNanos (i + 1)) } twoCalls = .ok (parts i)) ∧
      DependencyReader.getDependencies none (.stable NotFewerCalls)
        { startTime := some (everyTwoNanos 0), endTime := some (everyTwoNanos 2) } twoCalls = .ok whole ∧
      callsBetween whole "caller" "callee" = 2 ∧
      callsBetween whole "caller" "callee" =
        ((List.range 2).map fun i => callsBetween (parts i) "caller" "callee").sum := by
  have hgraph : ∀ i < 2, ∃ listed, DependencyReader.getDependencies none (.stable NotFewerCalls)
      { startTime := some (everyTwoNanos i), endTime := some (everyTwoNanos (i + 1)) } twoCalls = .ok listed := by
    intro i hi
    interval_cases i
    · exact ⟨_, rfl⟩
    · exact ⟨_, rfl⟩
  have hwhole : ∃ listed, DependencyReader.getDependencies none (.stable NotFewerCalls)
      { startTime := some (everyTwoNanos 0), endTime := some (everyTwoNanos 2) } twoCalls = .ok listed ∧
        callsBetween listed "caller" "callee" = 2 := ⟨_, rfl, by decide⟩
  choose! parts hparts using hgraph
  obtain ⟨whole, hwhole, htwo⟩ := hwhole
  exact ⟨parts, whole, hparts, hwhole, htwo, dependency_windows_add twoCalls (by decide) everyTwoNanos 2
    (fun _ => .stable NotFewerCalls) (.stable NotFewerCalls) parts whole hparts hwhole "caller" "callee"⟩

end OtelviewPostgres
