import OtelviewPostgres.Model.Spans
import OtelviewPostgres.Relational.Traversal

/-!
# Span exports as upserts

An export is a list of spans, each in its context. Batching a write, with its collapse
of repeated ids and its chunks, has the effect of upserting these spans one at a time,
and no statement it sends can be refused for touching a row twice.
-/

namespace OtelviewPostgres

open Relational

/-- The spans of an export in arrival order, each with the context its payload keeps. -/
def spanItems (data : TracesData) : List (InContext Span) :=
  data.resourceSpans.flatMap fun rs => rs.scopeSpans.flatMap fun ss => ss.spans.map fun span =>
    { resource := rs.resource, resourceSchemaUrl := rs.schemaUrl, scope := ss.scope
      scopeSchemaUrl := ss.schemaUrl, item := span }

section Items

variable (env : Externals)

/-- The row of one span in its context. -/
def spanItemRow (x : InContext Span) : Except Error SpanRow :=
  spanRow env { resource := x.resource, scopeSpans := [], schemaUrl := x.resourceSchemaUrl }
    { scope := x.scope, spans := [], schemaUrl := x.scopeSchemaUrl } x.item
    (serviceName (resourceAttributes x.resource)) (resourceAttributes x.resource) (scopeAttributes x.scope)

def collectSpanItem (batch : SpanBatch) (x : InContext Span) : Except Error SpanBatch :=
  if malformedIds x.item then
    .ok { batch with
      rejected := batch.rejected + 1
      errors := if batch.errors.length < 5 then batch.errors ++ [rejection env x.item] else batch.errors }
  else do
    let row ← spanItemRow env x
    return { batch with rows := batch.rows ++ [row] }

lemma collectSpans_eq_foldlM (data : TracesData) :
    collectSpans env data = (spanItems data).foldlM (collectSpanItem env) {} := by
  unfold spanItems
  simp only [foldlM_flatMap, List.foldlM_map]
  rfl

lemma append_take_five {α : Type} (errors : List α) (e : α) (es : List α) :
    (if errors.length < 5 then errors ++ [e] else errors) ++
        es.take (5 - (if errors.length < 5 then errors ++ [e] else errors).length) =
      errors ++ (e :: es).take (5 - errors.length) := by
  by_cases h : errors.length < 5
  · obtain ⟨k, hk⟩ : ∃ k, 5 - errors.length = k + 1 := ⟨4 - errors.length, by omega⟩
    have hk' : 5 - (errors ++ [e]).length = k := by
      rw [List.length_append, List.length_singleton]
      omega
    rw [if_pos h, hk', hk, List.take_succ_cons, List.append_assoc, List.singleton_append]
  · have hk : 5 - errors.length = 0 := by omega
    rw [if_neg h, hk, List.take_zero, List.take_zero]

/-- What the row-building loops gather: the rows of the well-formed spans in arrival
order, the number of the others, and a message for the first five of these. -/
lemma foldlM_collectSpanItem (items : List (InContext Span)) (batch : SpanBatch) :
    items.foldlM (collectSpanItem env) batch = (do
      let rows ← (items.filter (fun x => !malformedIds x.item)).mapM (spanItemRow env)
      return {
        rejected := batch.rejected + items.countP (fun x => malformedIds x.item)
        errors := batch.errors ++
          ((items.filter (fun x => malformedIds x.item)).map (fun x => rejection env x.item)).take
            (5 - batch.errors.length)
        rows := batch.rows ++ rows }) := by
  induction items generalizing batch with
  | nil => simp [pure, Except.pure, bind, Except.bind]
  | cons x items ih =>
    rw [List.foldlM_cons]
    cases hx : malformedIds x.item with
    | true =>
      simp only [collectSpanItem, hx, if_true, bind, Except.bind, ih, List.filter_cons, Bool.not_true,
        Bool.false_eq_true, if_false, List.countP_cons, List.map_cons]
      congr 1
      funext rows
      congr 2
      · omega
      · exact append_take_five batch.errors (rejection env x.item) _
    | false =>
      simp only [collectSpanItem, hx, Bool.false_eq_true, if_false, List.filter_cons, Bool.not_false,
        if_true, List.mapM_cons, List.countP_cons, bind_assoc, pure_bind]
      cases spanItemRow env x with
      | error e => rfl
      | ok row =>
        simp only [bind, Except.bind, pure, Except.pure] at ih ⊢
        rw [ih]
        cases List.mapM (spanItemRow env) (items.filter (fun x => !malformedIds x.item)) with
        | error e => rfl
        | ok rows => simp

lemma collectSpans_eq_ok {data : TracesData} {batch : SpanBatch} (h : collectSpans env data = .ok batch) :
    ((spanItems data).filter (fun x => !malformedIds x.item)).mapM (spanItemRow env) = .ok batch.rows ∧
      batch.rejected = (spanItems data).countP (fun x => malformedIds x.item) := by
  rw [collectSpans_eq_foldlM, foldlM_collectSpanItem] at h
  obtain ⟨rows, hrows, h⟩ := bind_eq_ok.mp h
  obtain rfl := Except.ok.inj h
  simpa using hrows

lemma exists_collectSpans {data : TracesData} {rows : List SpanRow}
    (h : ((spanItems data).filter (fun x => !malformedIds x.item)).mapM (spanItemRow env) = .ok rows) :
    ∃ batch, collectSpans env data = .ok batch ∧ batch.rows = rows := by
  rw [collectSpans_eq_foldlM, foldlM_collectSpanItem, h]
  exact ⟨_, rfl, rfl⟩

lemma spanItemRow_eq_ok {x : InContext Span} {row : SpanRow} (h : spanItemRow env x = .ok row) :
    x.item.startTimeUnixNano.toNat < 2 ^ 63 ∧ x.item.endTimeUnixNano.toNat < 2 ^ 63 ∧
      row.startTime = x.item.startTimeUnixNano.toNat ∧ row.endTime = x.item.endTimeUnixNano.toNat ∧
      row.key = (x.item.traceId, x.item.spanId) := by
  unfold spanItemRow spanRow at h
  obtain ⟨start, hs, h⟩ := bind_eq_ok.mp h
  obtain ⟨stop, he, h⟩ := bind_eq_ok.mp h
  obtain rfl := Except.ok.inj h
  have hstart := u64ToI64_eq_ok hs
  have hend := u64ToI64_eq_ok he
  exact ⟨hstart.2, hend.2, hstart.1, hend.1, rfl⟩

end Items

/-- The service a resource names: its effective `service.name`, when that is text or bytes. -/
def resourceService (resource : Option Resource) : String :=
  match (effectiveAttribute ((resource.map Resource.attributes).getD []) "service.name").bind KeyValueOf.value with
  | some (.stringValue s) => s
  | some (.bytesValue b) => hex b
  | _ => "unknown_service"

lemma asStr_otelOptionToJson (value : Option AnyValue) :
    (otelOptionToJson value).asStr = match value with
      | some (.stringValue s) => some s
      | some (.bytesValue b) => some (hex b)
      | _ => none := by
  cases value with
  | none => rfl
  | some v =>
    cases v with
    | doubleValue d =>
      simp only [otelOptionToJson, otelValueToJson, Json.ofF64]
      split <;> rfl
    | _ => rfl

lemma serviceName_resourceAttributes (resource : Option Resource) :
    serviceName (resourceAttributes resource) = resourceService resource := by
  unfold serviceName resourceAttributes resourceService
  rw [mapGet_attributesToJson]
  cases h : effectiveAttribute ((resource.map Resource.attributes).getD []) "service.name" with
  | none => rfl
  | some kv =>
    simp only [Option.map_some, Option.bind_some, asStr_otelOptionToJson]
    cases kv.value with
    | none => rfl
    | some v => cases v <;> rfl

/-- The difference of two `BIGINT` times of an export is a `BIGINT` itself. -/
lemma saturatingSub_times {m n : ℕ} (hm : m < 2 ^ 63) (hn : n < 2 ^ 63) :
    saturatingSub (m : Int) (n : Int) = m - n := by
  have hlow : i64Min ≤ (m : Int) - n := by
    unfold i64Min
    omega
  have hhigh : (m : Int) - n ≤ i64Max := by
    unfold i64Max
    omega
  exact saturatingSub_eq hlow hhigh

theorem dedupeSpans_eq_keepLast (rows : List SpanRow) : dedupeSpans rows = keepLast SpanRow.key rows :=
  filterMap_sort_lastPositions SpanRow.key rows

lemma insertChunkRows_pos : 0 < insertChunkRows := by decide

lemma flatten_spanChunks (batch : SpanBatch) : (spanChunks batch).flatten = keepLast SpanRow.key batch.rows := by
  rw [spanChunks, flatten_chunks insertChunkRows_pos, dedupeSpans_eq_keepLast]

lemma nodup_keys_of_mem_spanChunks {batch : SpanBatch} {chunk : List SpanRow} (h : chunk ∈ spanChunks batch) :
    (chunk.map SpanRow.key).Nodup := by
  have hsub : chunk.Sublist (keepLast SpanRow.key batch.rows) := by
    rw [← dedupeSpans_eq_keepLast]
    exact sublist_of_mem_chunks insertChunkRows_pos h
  exact (nodup_keys_keepLast SpanRow.key batch.rows).sublist (hsub.map SpanRow.key)

lemma SpanRow.length_values (r : SpanRow) : r.values.length = 14 := rfl

lemma insertBinds_eq (chunk : List SpanRow) : insertBinds chunk = 14 * chunk.length := by
  rw [insertBinds, length_flatMap_of_length fun r _ => r.length_values, Nat.mul_comm]

lemma insertBinds_le_of_mem_spanChunks {batch : SpanBatch} {chunk : List SpanRow} (h : chunk ∈ spanChunks batch) :
    insertBinds chunk ≤ 65535 := by
  have hlen := (length_mem_chunks insertChunkRows_pos h).2
  rw [insertBinds_eq]
  unfold insertChunkRows at hlen
  omega

lemma mem_rows_of_mem_spanChunks {batch : SpanBatch} {chunk : List SpanRow} (h : chunk ∈ spanChunks batch)
    {row : SpanRow} (hrow : row ∈ chunk) : row ∈ batch.rows := by
  have hmem : row ∈ (spanChunks batch).flatten := List.mem_flatten_of_mem h hrow
  rw [flatten_spanChunks] at hmem
  exact (keepLast_sublist SpanRow.key batch.rows).subset hmem

lemma upsertSpans_eq_ok {server : Server SpanRow} {chunk : List SpanRow} {t t' : SpansTable}
    (h : upsertSpans server chunk t = .ok t') :
    t' = t.upsertAll spanConflict chunk ∧ ∀ row ∈ chunk, server.refuses row = none := by
  unfold upsertSpans at h
  split at h
  · cases h
  · rename_i hrefuses
    split at h
    · cases h
    · split at h
      · cases h
      · cases h
        exact ⟨rfl, List.findSome?_eq_none_iff.mp hrefuses⟩

lemma upsertSpans_of_mem_spanChunks {server : Server SpanRow} {batch : SpanBatch} {chunk : List SpanRow}
    (h : chunk ∈ spanChunks batch) (hchecks : ∀ row ∈ batch.rows, satisfiesChecks row = true)
    (hrefuses : ∀ row ∈ chunk, server.refuses row = none) (t : SpansTable) :
    upsertSpans server chunk t = .ok (t.upsertAll spanConflict chunk) := by
  have hall : chunk.all satisfiesChecks = true :=
    List.all_eq_true.mpr (fun row hrow => hchecks row (mem_rows_of_mem_spanChunks h hrow))
  unfold upsertSpans
  rw [List.findSome?_eq_none_iff.mpr hrefuses]
  simp only [hall, not_true_eq_false, if_false, nodup_keys_of_mem_spanChunks h]

lemma foldlM_upsertSpans_eq_ok {server : Server SpanRow} {batches : List (List SpanRow)} {t t' : SpansTable}
    (h : (batches.map (upsertSpans server)).foldlM (fun t statement => statement t) t = .ok t') :
    t' = t.upsertAll spanConflict batches.flatten ∧ ∀ row ∈ batches.flatten, server.refuses row = none := by
  rw [KeyedTable.upsertAll_flatten]
  exact foldlM_batches_eq_ok (fun _ _ _ hc => upsertSpans_eq_ok hc) h

lemma foldlM_upsertSpans {server : Server SpanRow} {batch : SpanBatch}
    (hchecks : ∀ row ∈ batch.rows, satisfiesChecks row = true)
    (hrefuses : ∀ row ∈ keepLast SpanRow.key batch.rows, server.refuses row = none) (t : SpansTable) :
    ((spanChunks batch).map (upsertSpans server)).foldlM (fun t statement => statement t) t =
      .ok (t.upsertAll spanConflict (keepLast SpanRow.key batch.rows)) := by
  rw [← flatten_spanChunks] at hrefuses ⊢
  rw [KeyedTable.upsertAll_flatten]
  apply foldlM_batches
  intro chunk hchunk
  apply upsertSpans_of_mem_spanChunks hchunk hchecks
  intro row hrow
  exact hrefuses row (List.mem_flatten_of_mem hchunk hrow)

lemma satisfiesChecks_of_collectSpans {env : Externals} {data : TracesData} {batch : SpanBatch}
    (h : collectSpans env data = .ok batch) : ∀ row ∈ batch.rows, satisfiesChecks row = true := by
  intro row hrow
  obtain ⟨x, hx, hxr⟩ := exists_of_mem_mapM (collectSpans_eq_ok env h).1 hrow
  have hkey := (spanItemRow_eq_ok env hxr).2.2.2.2
  have hids : row.traceId = x.item.traceId ∧ row.spanId = x.item.spanId := Prod.ext_iff.mp hkey
  rw [List.mem_filter] at hx
  simp only [malformedIds, Bool.not_or, Bool.and_eq_true, bne, Bool.not_not] at hx
  rw [satisfiesChecks, hids.1, hids.2, Bool.and_eq_true]
  exact hx.2

section Write

variable {env : Externals} {server : Server SpanRow} {data : TracesData} {t : SpansTable}

/-- A write reports an error and leaves the table alone, or it upserts the last row of each id. -/
lemma write_cases (env : Externals) (server : Server SpanRow) (data : TracesData) (t : SpansTable) :
    (∃ e, write env server data t = (.error e, t)) ∨
      ∃ batch, collectSpans env data = .ok batch ∧
        (∀ row ∈ keepLast SpanRow.key batch.rows, server.refuses row = none) ∧
        write env server data t =
          (.ok (batch.rejected, batch.errors), t.upsertAll spanConflict (keepLast SpanRow.key batch.rows)) := by
  unfold write
  cases collectSpans env data with
  | error e => exact .inl ⟨e, rfl⟩
  | ok batch =>
    simp only
    rcases runTransaction_cases server.faults ((spanChunks batch).map (upsertSpans server)) t with
      ⟨e, hrun⟩ | ⟨t', hfold, hrun⟩
    · rw [hrun]
      exact .inl ⟨e, rfl⟩
    · obtain ⟨ht, hrefuses⟩ := foldlM_upsertSpans_eq_ok hfold
      rw [flatten_spanChunks] at ht hrefuses
      rw [hrun, ht]
      exact .inr ⟨batch, rfl, hrefuses, rfl⟩

theorem write_eq_ok {res : ℕ × List String} (h : (write env server data t).1 = .ok res) :
    ∃ batch, collectSpans env data = .ok batch ∧ res = (batch.rejected, batch.errors) ∧
      (write env server data t).2 = t.upsertAll spanConflict (keepLast SpanRow.key batch.rows) ∧
      ∀ row ∈ keepLast SpanRow.key batch.rows, server.refuses row = none := by
  rcases write_cases env server data t with ⟨e, hwrite⟩ | ⟨batch, hb, hrefuses, hwrite⟩
  · rw [hwrite] at h
    cases h
  · rw [hwrite] at h ⊢
    exact ⟨batch, hb, (Except.ok.inj h).symm, rfl, hrefuses⟩

theorem write_eq_error {e : Error} (h : (write env server data t).1 = .error e) :
    (write env server data t).2 = t := by
  rcases write_cases env server data t with ⟨e', hwrite⟩ | ⟨batch, -, -, hwrite⟩
  · rw [hwrite]
  · rw [hwrite] at h
    cases h

/-- A steady server that refuses no row of the batch performs the write. -/
theorem write_of_steady {batch : SpanBatch} (hb : collectSpans env data = .ok batch) (hserver : server.Steady)
    (hrefuses : ∀ row ∈ keepLast SpanRow.key batch.rows, server.refuses row = none) :
    write env server data t = (.ok (batch.rejected, batch.errors),
      t.upsertAll spanConflict (keepLast SpanRow.key batch.rows)) := by
  unfold write
  rw [hb]
  simp only
  rw [hserver, runTransaction_of_no_faults
    (foldlM_upsertSpans (satisfiesChecks_of_collectSpans hb) hrefuses t)]

end Write

section OneByOne

variable (env : Externals)

/-- Upsert one span as it arrives, and skip it where its ids are malformed. -/
def upsertSpanItem (t : SpansTable) (x : InContext Span) : Except Error SpansTable :=
  if malformedIds x.item then .ok t
  else do
    let row ← spanItemRow env x
    return t.upsert spanConflict row

lemma foldlM_upsertSpanItem (items : List (InContext Span)) (t : SpansTable) :
    items.foldlM (upsertSpanItem env) t = (do
      let rows ← (items.filter (fun x => !malformedIds x.item)).mapM (spanItemRow env)
      return t.upsertAll spanConflict rows) := by
  induction items generalizing t with
  | nil => rfl
  | cons x items ih =>
    rw [List.foldlM_cons]
    cases hx : malformedIds x.item with
    | true =>
      simp only [upsertSpanItem, hx, if_true, List.filter_cons, Bool.not_true, Bool.false_eq_true, if_false]
      exact ih t
    | false =>
      simp only [upsertSpanItem, hx, Bool.false_eq_true, if_false, List.filter_cons, Bool.not_false,
        if_true, List.mapM_cons, bind_assoc, pure_bind]
      cases spanItemRow env x with
      | error e => rfl
      | ok row => exact ih (t.upsert spanConflict row)

end OneByOne

/-- Writing an export in batches is upserting its spans one at a time in arrival order. -/
theorem write_refines_upserts (env : Externals) (data : TracesData) (t : SpansTable) (batch : SpanBatch)
    (hb : collectSpans env data = .ok batch) :
    ∃ t', (spanItems data).foldlM (upsertSpanItem env) t = .ok t' ∧
      (write env {} data t).1 = .ok ((spanItems data).countP (fun x => malformedIds x.item), batch.errors) ∧
      (∀ (server : Server SpanRow) (res : ℕ × List String), (write env server data t).1 = .ok res →
        res.1 = (spanItems data).countP (fun x => malformedIds x.item) ∧
        ∀ k, (write env server data t).2.lookup k = t'.lookup k) ∧
      ∀ chunk ∈ spanChunks batch, (chunk.map SpanRow.key).Nodup ∧ insertBinds chunk ≤ 65535 := by
  obtain ⟨hrows, hrejected⟩ := collectSpans_eq_ok env hb
  have hseq : (spanItems data).foldlM (upsertSpanItem env) t = .ok (t.upsertAll spanConflict batch.rows) := by
    rw [foldlM_upsertSpanItem, hrows]
    rfl
  refine ⟨t.upsertAll spanConflict batch.rows, hseq, ?_, fun server res hres => ?_, fun chunk hchunk => ?_⟩
  · have hsteady : Server.Steady ({} : Server SpanRow) := rfl
    rw [write_of_steady hb hsteady (fun _ _ => rfl), hrejected]
  · obtain ⟨batch', hb', rfl, ht, -⟩ := write_eq_ok hres
    obtain rfl : batch = batch' := Except.ok.inj (hb.symm.trans hb')
    refine ⟨hrejected, fun k => ?_⟩
    rw [ht]
    exact lookup_upsertAll_keepLast spanConflict spanConflict_overwrites t batch.rows k
  · exact ⟨nodup_keys_of_mem_spanChunks hchunk, insertBinds_le_of_mem_spanChunks hchunk⟩

/-- An export of spans under one resource and one scope. -/
def exportOf (spans : List Span) : TracesData where
  resourceSpans := [{ scopeSpans := [{ spans := spans }] }]

/-- A span whose ids repeat one byte. -/
def spanOf (id : UInt8) (name : String) (start : UInt64) : Span where
  traceId := .replicate 16 id
  spanId := .replicate 8 id
  name := name
  startTimeUnixNano := start
  endTimeUnixNano := start

theorem write_refines_upserts_repeated_id :
    ∃ t', (spanItems (exportOf [spanOf 1 "a" 5, { spanOf 2 "b" 6 with spanId := [] }, spanOf 1 "c" 7])).foldlM
        (upsertSpanItem .inert) ∅ = .ok t' ∧
      (write .inert {} (exportOf [spanOf 1 "a" 5, { spanOf 2 "b" 6 with spanId := [] }, spanOf 1 "c" 7]) ∅).2.lookup
        (.replicate 16 1, .replicate 8 1) = t'.lookup (.replicate 16 1, .replicate 8 1) := by
  obtain ⟨t', hseq, hres, hall, -⟩ := write_refines_upserts .inert
    (exportOf [spanOf 1 "a" 5, { spanOf 2 "b" 6 with spanId := [] }, spanOf 1 "c" 7]) ∅ _ rfl
  exact ⟨t', hseq, (hall {} _ hres).2 _⟩

end OtelviewPostgres
