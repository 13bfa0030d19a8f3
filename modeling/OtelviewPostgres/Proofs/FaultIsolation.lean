import OtelviewPostgres.Proofs.RecordIngest
import OtelviewPostgres.Proofs.SpanIngest

/-!
# One more item in an export

Two runs of each writer, on an export and on the same export with one more item. The second
run stores what the first one does exactly when the extra item is skipped for its ids or
has a row that can be built and stored: a time or a count of `2 ^ 63` or more, or a value
the database refuses, takes the whole export with it.
-/

namespace OtelviewPostgres

open Relational

/-- The list `items'` is `items` with `x` inserted somewhere. -/
def Inserted {α : Type} (items items' : List α) (x : α) : Prop :=
  ∃ l₁ l₂, items = l₁ ++ l₂ ∧ items' = l₁ ++ x :: l₂

section Inserted

variable {α β : Type}

lemma Inserted.middle (l₁ l₂ : List α) (x : α) : Inserted (l₁ ++ l₂) (l₁ ++ x :: l₂) x := ⟨l₁, l₂, rfl, rfl⟩

lemma Inserted.map {items items' : List α} {x : α} (h : Inserted items items' x) (f : α → β) :
    Inserted (items.map f) (items'.map f) (f x) := by
  obtain ⟨l₁, l₂, rfl, rfl⟩ := h
  exact ⟨l₁.map f, l₂.map f, List.map_append, by rw [List.map_append, List.map_cons]⟩

lemma Inserted.flatMap {f : β → List α} {b b' : β} {x : α} (h : Inserted (f b) (f b') x) (before after : List β) :
    Inserted ((before ++ b :: after).flatMap f) ((before ++ b' :: after).flatMap f) x := by
  obtain ⟨l₁, l₂, hb, hb'⟩ := h
  refine ⟨before.flatMap f ++ l₁, l₂ ++ after.flatMap f, ?_, ?_⟩
  · simp only [List.flatMap_append, List.flatMap_cons, hb, List.append_assoc]
  · simp only [List.flatMap_append, List.flatMap_cons, hb', List.append_assoc, List.cons_append]

lemma Inserted.mem {items items' : List α} {x : α} (h : Inserted items items' x) : x ∈ items' := by
  obtain ⟨l₁, l₂, -, rfl⟩ := h
  simp

end Inserted

/-- A span put anywhere among the spans of a scope is inserted into the export. -/
lemma inserted_spanItems (before after : List ResourceSpans) (rs : ResourceSpans) (above below : List ScopeSpans)
    (ss : ScopeSpans) (left right : List Span) (span : Span) :
    Inserted
      (spanItems ⟨before ++ { rs with scopeSpans := above ++ { ss with spans := left ++ right } :: below } :: after⟩)
      (spanItems ⟨before ++
        { rs with scopeSpans := above ++ { ss with spans := left ++ span :: right } :: below } :: after⟩)
      { resource := rs.resource, resourceSchemaUrl := rs.schemaUrl, scope := ss.scope
        scopeSchemaUrl := ss.schemaUrl, item := span } := by
  unfold spanItems
  apply Inserted.flatMap
  apply Inserted.flatMap
  exact (Inserted.middle left right span).map _

lemma inserted_logItems (before after : List ResourceLogs) (rl : ResourceLogs) (above below : List ScopeLogs)
    (sl : ScopeLogs) (left right : List LogRecord) (record : LogRecord) :
    Inserted
      (logItems ⟨before ++ { rl with scopeLogs := above ++ { sl with logRecords := left ++ right } :: below } :: after⟩)
      (logItems ⟨before ++
        { rl with scopeLogs := above ++ { sl with logRecords := left ++ record :: right } :: below } :: after⟩)
      { resource := rl.resource, resourceSchemaUrl := rl.schemaUrl, scope := sl.scope
        scopeSchemaUrl := sl.schemaUrl, item := record } := by
  unfold logItems
  apply Inserted.flatMap
  apply Inserted.flatMap
  exact (Inserted.middle left right record).map _

lemma inserted_pointItems (before after : List ResourceMetrics) (rm : ResourceMetrics)
    (above below : List ScopeMetrics) (sm : ScopeMetrics) (left right : List Metric) {metric metric' : Metric}
    {point : FlatPoint} (h : Inserted (flattenMetric metric) (flattenMetric metric') point) :
    Inserted
      (pointItems ⟨before ++
        { rm with scopeMetrics := above ++ { sm with metrics := left ++ metric :: right } :: below } :: after⟩)
      (pointItems ⟨before ++
        { rm with scopeMetrics := above ++ { sm with metrics := left ++ metric' :: right } :: below } :: after⟩)
      { resource := rm.resource, resourceSchemaUrl := rm.schemaUrl, scope := sm.scope
        scopeSchemaUrl := sm.schemaUrl, item := point } := by
  unfold pointItems
  apply Inserted.flatMap
  apply Inserted.flatMap
  apply Inserted.flatMap
  exact h.map _

/-- The ids of a span, which its row is stored under. -/
def spanIds (x : InContext Span) : Bytes × Bytes := (x.item.traceId, x.item.spanId)

section Spans

variable (env : Externals) (server : Server SpanRow)

/-- The export with the extra span succeeds, and stores every original span as it was. -/
def SpansIsolated (data data' : TracesData) (t : SpansTable) : Prop :=
  (∃ res, (write env server data' t).1 = .ok res) ∧
    ∀ y ∈ spanItems data, (write env server data' t).2.lookup (spanIds y) =
      (write env server data t).2.lookup (spanIds y)

/-- The span is skipped, or its times are `BIGINT`s and the database takes its row. -/
def SpanHarmless (x : InContext Span) : Prop :=
  malformedIds x.item = true ∨
    x.item.startTimeUnixNano.toNat < 2 ^ 63 ∧ x.item.endTimeUnixNano.toNat < 2 ^ 63 ∧
      ∀ row, spanItemRow env x = .ok row → server.refuses row = none

variable {env server} {data data' : TracesData} {t : SpansTable} {x : InContext Span}

lemma exists_spanItemRow (hstart : x.item.startTimeUnixNano.toNat < 2 ^ 63)
    (hend : x.item.endTimeUnixNano.toNat < 2 ^ 63) : ∃ row, spanItemRow env x = .ok row := by
  unfold spanItemRow spanRow
  rw [u64ToI64_of_lt _ hstart, u64ToI64_of_lt _ hend]
  exact ⟨_, rfl⟩

/-- A harmless span adds no row, or one row of its own that the database takes. -/
lemma exists_mapM_of_harmless (hx : SpanHarmless env server x) :
    ∃ mid, (([x].filter (fun x => !malformedIds x.item)).mapM (spanItemRow env)) = .ok mid ∧
      ∀ row ∈ mid, row.key = spanIds x ∧ server.refuses row = none := by
  cases hids : malformedIds x.item with
  | true => exact ⟨[], by simp [hids, pure, Except.pure], by simp⟩
  | false =>
    rcases hx with hx | ⟨hstart, hend, hrefuses⟩
    · rw [hids] at hx
      cases hx
    · obtain ⟨row, hrow⟩ : ∃ row, spanItemRow env x = .ok row := exists_spanItemRow hstart hend
      refine ⟨[row], ?_, ?_⟩
      · rw [List.filter_cons_of_pos (by simpa using hids), List.filter_nil, mapM_eq_ok_iff]
        exact .cons hrow .nil
      · intro r hr
        obtain rfl := List.mem_singleton.mp hr
        exact ⟨(spanItemRow_eq_ok env hrow).2.2.2.2, hrefuses _ hrow⟩

lemma spansIsolated_of_harmless (hserver : server.Steady) (hins : Inserted (spanItems data) (spanItems data') x)
    (hids : ∀ y ∈ spanItems data, spanIds y ≠ spanIds x) {res : ℕ × List String}
    (hok : (write env server data t).1 = .ok res) (hx : SpanHarmless env server x) :
    SpansIsolated env server data data' t := by
  obtain ⟨l₁, l₂, hl, hl'⟩ := hins
  obtain ⟨mid, hmid, hkeys⟩ := exists_mapM_of_harmless hx
  obtain ⟨batch, hb, -, htable, hrefuses⟩ := write_eq_ok hok
  have hrows := (collectSpans_eq_ok env hb).1
  have hkey : ∀ row ∈ batch.rows, row.key ≠ spanIds x := by
    intro row hrow
    obtain ⟨y, hy, hyr⟩ := exists_of_mem_mapM hrows hrow
    rw [(spanItemRow_eq_ok env hyr).2.2.2.2]
    exact hids y (List.mem_filter.mp hy).1
  rw [hl, List.filter_append] at hrows
  obtain ⟨rows₁, rows₂, h₁, h₂, hsplit⟩ := mapM_append_split hrows
  have hrows' : ((spanItems data').filter (fun x => !malformedIds x.item)).mapM (spanItemRow env) =
      .ok (rows₁ ++ (mid ++ rows₂)) := by
    rw [hl', ← List.singleton_append, List.filter_append, List.filter_append]
    exact mapM_append_eq_ok h₁ (mapM_append_eq_ok hmid h₂)
  obtain ⟨batch', hb', hbatch'⟩ := exists_collectSpans env hrows'
  -- keys other than that of the extra span have the same last row in both runs
  have hlast : ∀ k, k ≠ spanIds x → (batch'.rows.reverse.find? (fun r => SpanRow.key r = k)) =
      batch.rows.reverse.find? (fun r => SpanRow.key r = k) := by
    intro k hk
    rw [hbatch', hsplit]
    exact find?_reverse_insert SpanRow.key (fun r hr => (hkeys r hr).1.trans_ne hk.symm) rows₁ rows₂
  have hrefuses' : ∀ row ∈ keepLast SpanRow.key batch'.rows, server.refuses row = none := by
    intro row hrow
    rw [hbatch'] at hrow
    rcases mem_keepLast_insert SpanRow.key (fun r hr => (hkeys r hr).1) (hsplit ▸ hkey) hrow with h | h
    · exact (hkeys row h).2
    · exact hrefuses row (hsplit ▸ h)
  have hwrite := write_of_steady (t := t) hb' hserver hrefuses'
  refine ⟨⟨_, congrArg Prod.fst hwrite⟩, fun y hy => ?_⟩
  rw [hwrite, htable, lookup_upsertAll_keepLast spanConflict spanConflict_overwrites,
    lookup_upsertAll_keepLast spanConflict spanConflict_overwrites,
    KeyedTable.lookup_upsertAll spanConflict spanConflict_overwrites,
    KeyedTable.lookup_upsertAll spanConflict spanConflict_overwrites, hlast _ (hids y hy)]

lemma harmless_of_spansIsolated (hins : Inserted (spanItems data) (spanItems data') x)
    (hids : ∀ y ∈ spanItems data, spanIds y ≠ spanIds x) {res : ℕ × List String}
    (hok : (write env server data' t).1 = .ok res) : SpanHarmless env server x := by
  cases hmal : malformedIds x.item with
  | true => exact .inl hmal
  | false =>
    obtain ⟨batch, hb, -, -, hrefuses⟩ := write_eq_ok hok
    have hrows := (collectSpans_eq_ok env hb).1
    have hx : x ∈ (spanItems data').filter (fun x => !malformedIds x.item) :=
      List.mem_filter.mpr ⟨hins.mem, by simpa using hmal⟩
    obtain ⟨row, hrow, hxr⟩ := exists_mem_of_mapM hrows hx
    obtain ⟨hstart, hend, -, -, hkey⟩ := spanItemRow_eq_ok env hxr
    refine .inr ⟨hstart, hend, fun row' hrow' => ?_⟩
    obtain rfl : row = row' := Except.ok.inj (hxr.symm.trans hrow')
    apply hrefuses
    -- no other row has the key, so the row of the extra span is kept
    rw [mem_keepLast_iff]
    cases hfind : batch.rows.reverse.find? (fun r => SpanRow.key r = row.key) with
    | none => simpa using (List.find?_eq_none.mp hfind) row (List.mem_reverse.mpr hrow)
    | some r =>
      have hrkey : r.key = row.key := by simpa using List.find?_some hfind
      have hr : r ∈ batch.rows := List.mem_reverse.mp (List.mem_of_find?_eq_some hfind)
      obtain ⟨y, hy, hyr⟩ := exists_of_mem_mapM hrows hr
      have hykey : r.key = spanIds y := (spanItemRow_eq_ok env hyr).2.2.2.2
      have hyx : spanIds y = spanIds x := hykey.symm.trans (hrkey.trans hkey)
      obtain ⟨l₁, l₂, hl, hl'⟩ := hins
      have hy' : y ∈ l₁ ++ x :: l₂ := hl' ▸ (List.mem_filter.mp hy).1
      rw [hl] at hids
      rcases List.mem_append.mp hy' with h | h
      · exact absurd hyx (hids y (List.mem_append_left _ h))
      · rcases List.mem_cons.mp h with rfl | h
        · rw [Except.ok.inj (hyr.symm.trans hxr)]
        · exact absurd hyx (hids y (List.mem_append_right _ h))

end Spans

section Records

variable {α ρ : Type} {f : α → Except Error ρ} {server : Server ρ} {items items' : List α} {x : α}
  {t : IdentityTable ρ}

/-- The write of `collected'` succeeds and adds everything that the one of `collected` adds. -/
def RecordsIsolated (server : Server ρ) (collected collected' : Except Error (List ρ)) (t : IdentityTable ρ) : Prop :=
  (∃ n, (writeRecords server collected' t).1 = .ok n) ∧
    (writeRecords server collected t).2.contents.Sublist (writeRecords server collected' t).2.contents

lemma recordsIsolated_iff (hserver : server.Steady) (hins : Inserted items items' x)
    (hok : ∃ n, (writeRecords server (items.mapM f) t).1 = .ok n) :
    RecordsIsolated server (items.mapM f) (items'.mapM f) t ↔ ∃ row, f x = .ok row ∧ server.refuses row = none := by
  constructor
  · rintro ⟨⟨n, hn⟩, -⟩
    obtain ⟨rows, hrows, -, -, hrefuses⟩ := writeRecords_eq_ok hn
    obtain ⟨row, hrow, hxr⟩ := exists_mem_of_mapM hrows hins.mem
    exact ⟨row, hxr, hrefuses row hrow⟩
  · rintro ⟨row, hxr, hrow⟩
    obtain ⟨n, hn⟩ := hok
    obtain ⟨l₁, l₂, rfl, rfl⟩ := hins
    obtain ⟨rows, hrows, -, htable, hrefuses⟩ := writeRecords_eq_ok hn
    obtain ⟨rows₁, rows₂, h₁, h₂, rfl⟩ := mapM_append_split hrows
    have hrows' : (l₁ ++ x :: l₂).mapM f = .ok (rows₁ ++ row :: rows₂) := by
      rw [mapM_eq_ok_iff] at h₂
      exact mapM_append_eq_ok h₁ (mapM_eq_ok_iff.mpr (.cons hxr h₂))
    have hrefuses' : ∀ r ∈ rows₁ ++ row :: rows₂, server.refuses r = none := by
      intro r hr
      rcases List.mem_append.mp hr with h | h
      · exact hrefuses r (List.mem_append_left _ h)
      · rcases List.mem_cons.mp h with rfl | h
        · exact hrow
        · exact hrefuses r (List.mem_append_right _ h)
    have hwrite := writeRecords_of_steady (t := t) hserver hrefuses'
    rw [RecordsIsolated, hrows', hwrite, htable]
    refine ⟨⟨_, rfl⟩, ?_⟩
    rw [IdentityTable.contents_insertAll, IdentityTable.contents_insertAll]
    have hsub : (rows₁ ++ rows₂).Sublist (rows₁ ++ row :: rows₂) :=
      (List.Sublist.refl rows₁).append (List.sublist_cons_self row rows₂)
    exact (List.Sublist.refl t.contents).append hsub

end Records

section Logs

variable (env : Externals) (server : Server LogRow)

/-- The export with the extra record succeeds and stores every original record as it was. -/
def LogsIsolated (data data' : LogsData) (t : LogsTable) : Prop :=
  (∃ n, (writeLogs env server data' t).1 = .ok n) ∧
    (writeLogs env server data t).2.contents.Sublist (writeLogs env server data' t).2.contents

/-- The times of the record are `BIGINT`s and the database takes its row. -/
def LogHarmless (x : InContext LogRecord) : Prop :=
  x.item.timeUnixNano.toNat < 2 ^ 63 ∧ x.item.observedTimeUnixNano.toNat < 2 ^ 63 ∧
    ∀ row, logItemRow env x = .ok row → server.refuses row = none

variable {env server}

variable (env) in
lemma exists_logItemRow_iff {x : InContext LogRecord} :
    (∃ row, logItemRow env x = .ok row) ↔
      x.item.timeUnixNano.toNat < 2 ^ 63 ∧ x.item.observedTimeUnixNano.toNat < 2 ^ 63 := by
  have htime : x.item.timeUnixNano = 0 → x.item.timeUnixNano.toNat < 2 ^ 63 := by
    intro h
    rw [h]
    decide
  unfold logItemRow logRow
  dsimp only
  constructor
  · rintro ⟨row, h⟩
    obtain ⟨time, ht, h⟩ := bind_eq_ok.mp h
    obtain ⟨observed, ho, -⟩ := bind_eq_ok.mp h
    refine ⟨?_, (u64ToI64_eq_ok ho).2⟩
    by_cases h0 : x.item.timeUnixNano = 0
    · exact htime h0
    · rw [if_pos h0] at ht
      exact (u64ToI64_eq_ok ht).2
  · rintro ⟨ht, ho⟩
    by_cases h0 : x.item.timeUnixNano = 0
    · rw [if_neg (not_not.mpr h0), u64ToI64_of_lt _ ho, u64ToI64_of_lt _ ho]
      exact ⟨_, rfl⟩
    · rw [if_pos h0, u64ToI64_of_lt _ ht, u64ToI64_of_lt _ ho]
      exact ⟨_, rfl⟩

lemma logsIsolated_iff {data data' : LogsData} {t : LogsTable} {x : InContext LogRecord} (hserver : server.Steady)
    (hins : Inserted (logItems data) (logItems data') x) (hok : ∃ n, (writeLogs env server data t).1 = .ok n) :
    LogsIsolated env server data data' t ↔ LogHarmless env server x := by
  unfold LogsIsolated writeLogs at *
  rw [collectLogs_eq_mapM] at hok ⊢
  rw [collectLogs_eq_mapM]
  refine (recordsIsolated_iff hserver hins hok).trans ?_
  rw [LogHarmless, ← and_assoc, ← exists_logItemRow_iff env]
  exact exists_ok_and_iff

end Logs

section Metrics

variable (env : Externals) (server : Server MetricRow)

/-- The export with the extra data point succeeds and stores every original one as it was. -/
def PointsIsolated (data data' : MetricsData) (t : MetricsTable) : Prop :=
  (∃ n, (writeMetrics env server data' t).1 = .ok n) ∧
    (writeMetrics env server data t).2.contents.Sublist (writeMetrics env server data' t).2.contents

/-- The time and the count of the point are `BIGINT`s and the database takes its row. -/
def PointHarmless (x : InContext FlatPoint) : Prop :=
  x.item.time.toNat < 2 ^ 63 ∧ x.item.count.toNat < 2 ^ 63 ∧
    ∀ row, pointItemRow env x = .ok row → server.refuses row = none

variable {env server}

lemma metricTypeStr_of_mem_flattenMetric {metric : Metric} {point : FlatPoint} (h : point ∈ flattenMetric metric) :
    metricTypeStr point.metric = metricTypeStr metric ∧ (metricTypeStr metric).isSome := by
  unfold flattenMetric at h
  split at h
  all_goals first
    | cases h
    | rename_i hdata
      obtain ⟨dp, -, rfl⟩ := List.mem_map.mp h
      simp [metricTypeStr, hdata]

variable (env) in
lemma exists_pointItemRow_iff {x : InContext FlatPoint} (htype : (metricTypeStr x.item.metric).isSome) :
    (∃ row, pointItemRow env x = .ok row) ↔ x.item.time.toNat < 2 ^ 63 ∧ x.item.count.toNat < 2 ^ 63 := by
  obtain ⟨s, hs⟩ := Option.isSome_iff_exists.mp htype
  unfold pointItemRow metricRow
  constructor
  · rintro ⟨row, h⟩
    obtain ⟨time, ht, h⟩ := bind_eq_ok.mp h
    obtain ⟨count, hc, -⟩ := bind_eq_ok.mp h
    exact ⟨(u64ToI64_eq_ok ht).2, (u64ToI64_eq_ok hc).2⟩
  · rintro ⟨ht, hc⟩
    rw [u64ToI64_of_lt _ ht, u64ToI64_of_lt _ hc, hs]
    exact ⟨_, rfl⟩

lemma metricTypeStr_of_mem_pointItems {data : MetricsData} {x : InContext FlatPoint} (h : x ∈ pointItems data) :
    (metricTypeStr x.item.metric).isSome := by
  simp only [pointItems, List.mem_flatMap, List.mem_map] at h
  obtain ⟨rm, -, sm, -, metric, -, point, hpoint, rfl⟩ := h
  obtain ⟨heq, hsome⟩ := metricTypeStr_of_mem_flattenMetric hpoint
  rwa [heq]

lemma pointsIsolated_iff {data data' : MetricsData} {t : MetricsTable} {x : InContext FlatPoint}
    (hserver : server.Steady) (hins : Inserted (pointItems data) (pointItems data') x)
    (hok : ∃ n, (writeMetrics env server data t).1 = .ok n) :
    PointsIsolated env server data data' t ↔ PointHarmless env server x := by
  have htype := metricTypeStr_of_mem_pointItems hins.mem
  unfold PointsIsolated writeMetrics at *
  rw [collectMetrics_eq_mapM] at hok ⊢
  rw [collectMetrics_eq_mapM]
  refine (recordsIsolated_iff hserver hins hok).trans ?_
  rw [PointHarmless, ← and_assoc, ← exists_pointItemRow_iff env htype]
  exact exists_ok_and_iff

end Metrics

/-- An accepted export with one more item stores what it stored before exactly when the
item is harmless. -/
theorem isolated_iff_harmless (env : Externals) :
    (∀ (server : Server SpanRow) (data data' : TracesData) (t : SpansTable) (x : InContext Span),
      server.Steady → Inserted (spanItems data) (spanItems data') x →
      (∀ y ∈ spanItems data, spanIds y ≠ spanIds x) → (∃ res, (write env server data t).1 = .ok res) →
      (SpansIsolated env server data data' t ↔ SpanHarmless env server x)) ∧
    (∀ (server : Server LogRow) (data data' : LogsData) (t : LogsTable) (x : InContext LogRecord),
      server.Steady → Inserted (logItems data) (logItems data') x →
      (∃ n, (writeLogs env server data t).1 = .ok n) →
      (LogsIsolated env server data data' t ↔ LogHarmless env server x)) ∧
    ∀ (server : Server MetricRow) (data data' : MetricsData) (t : MetricsTable) (x : InContext FlatPoint),
      server.Steady → Inserted (pointItems data) (pointItems data') x →
      (∃ n, (writeMetrics env server data t).1 = .ok n) →
      (PointsIsolated env server data data' t ↔ PointHarmless env server x) := by
  refine ⟨?_, ?_, ?_⟩
  · intro server data data' t x hserver hins hids ⟨res, hok⟩
    constructor
    · rintro ⟨⟨res', hok'⟩, -⟩
      exact harmless_of_spansIsolated hins hids hok'
    · exact spansIsolated_of_harmless hserver hins hids hok
  · intro server data data' t x hserver hins hok
    exact logsIsolated_iff hserver hins hok
  · intro server data data' t x hserver hins hok
    exact pointsIsolated_iff hserver hins hok

/-- A span with malformed ids does not disturb its neighbour, an extra record without times
neither, nor an extra point. -/
theorem isolated_small_exports :
    SpansIsolated .inert {} (exportOf [spanOf 1 "a" 5])
        (exportOf [spanOf 1 "a" 5, { spanOf 2 "b" 6 with traceId := [] }]) ∅ ∧
      LogsIsolated .inert {} ⟨[{ scopeLogs := [{ logRecords := [{}] }] }]⟩
        ⟨[{ scopeLogs := [{ logRecords := [{}, { timeUnixNano := 3 }] }] }]⟩ ∅ ∧
      PointsIsolated .inert {} ⟨[{ scopeMetrics := [{ metrics := [{ data := some (.gauge ⟨[{}]⟩) }] }] }]⟩
        ⟨[{ scopeMetrics := [{ metrics := [{ data := some (.gauge ⟨[{}, { timeUnixNano := 3 }]⟩) }] }] }]⟩ ∅ := by
  obtain ⟨hspans, hlogs, hpoints⟩ := isolated_iff_harmless .inert
  have hspan := inserted_spanItems [] [] { scopeSpans := [] } [] [] { spans := [] } [spanOf 1 "a" 5] []
    { spanOf 2 "b" 6 with traceId := [] }
  have hlog := inserted_logItems [] [] { scopeLogs := [] } [] [] { logRecords := [] } [{}] [] { timeUnixNano := 3 }
  have hgauge : Inserted (flattenMetric { data := some (.gauge ⟨[{}]⟩) })
      (flattenMetric { data := some (.gauge ⟨[{}, { timeUnixNano := 3 }]⟩) }) _ := ⟨[_], [], rfl, rfl⟩
  have hpoint := inserted_pointItems [] [] { scopeMetrics := [] } [] [] { metrics := [] } [] [] hgauge
  exact ⟨(hspans {} _ _ ∅ _ rfl hspan (by decide) ⟨_, rfl⟩).mpr (.inl rfl),
    (hlogs {} _ _ ∅ _ rfl hlog ⟨_, rfl⟩).mpr ⟨by decide, by decide, fun _ _ => rfl⟩,
    (hpoints {} _ _ ∅ _ rfl hpoint ⟨_, rfl⟩).mpr ⟨by decide, by decide, fun _ _ => rfl⟩⟩

/-- One span that starts too late for a `BIGINT` keeps its neighbour from being stored. -/
theorem late_span_not_isolated :
    (write .inert {} (exportOf [spanOf 1 "a" 5]) ∅).1 = .ok (0, []) ∧
      Inserted (spanItems (exportOf [spanOf 1 "a" 5]))
        (spanItems (exportOf [spanOf 1 "a" 5, spanOf 2 "b" 0x8000000000000000]))
        { resource := none, resourceSchemaUrl := "", scope := none, scopeSchemaUrl := ""
          item := spanOf 2 "b" 0x8000000000000000 } ∧
      (write .inert {} (exportOf [spanOf 1 "a" 5, spanOf 2 "b" 0x8000000000000000]) ∅).1 =
        .error (.message "start timestamp exceeds PostgreSQL BIGINT") ∧
      ¬ SpansIsolated .inert {} (exportOf [spanOf 1 "a" 5])
        (exportOf [spanOf 1 "a" 5, spanOf 2 "b" 0x8000000000000000]) ∅ := by
  refine ⟨rfl, inserted_spanItems [] [] { scopeSpans := [] } [] [] { spans := [] } [spanOf 1 "a" 5] [] _,
    by decide, ?_⟩
  rintro ⟨⟨res, hres⟩, -⟩
  have herror : (write .inert {} (exportOf [spanOf 1 "a" 5, spanOf 2 "b" 0x8000000000000000]) ∅).1 =
      .error (.message "start timestamp exceeds PostgreSQL BIGINT") := by decide
  rw [herror] at hres
  cases hres

end OtelviewPostgres
