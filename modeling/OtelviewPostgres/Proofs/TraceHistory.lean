import OtelviewPostgres.Proofs.History
import OtelviewPostgres.Proofs.TraceSearches

/-!
# Traces read back after a history

Whatever exports and sweeps a store has been through, the traces that are asked for are streamed
with the last accepted version of each of their spans, as it was exported.
-/

namespace OtelviewPostgres

open Relational

/-- The message that a span is stored as. -/
def spanMessage (x : InContext Span) : TracesData :=
  spanSingletonPayload { resource := x.resource, scopeSpans := [], schemaUrl := x.resourceSchemaUrl }
    { scope := x.scope, spans := [], schemaUrl := x.scopeSchemaUrl } x.item

/-- The id of a span. -/
def spanId (x : InContext Span) : Bytes × Bytes := (x.item.traceId, x.item.spanId)

/-- The span comes back as the message, from the row it was stored in. -/
structure ReadsBack (env : Externals) (row : SpanRow) (x : InContext Span) : Prop where
  stored : spanItemRow env x = .ok row
  decoded : env.traces.decode row.payload = some (spanMessage x)

section Rows

variable {env : Externals}

lemma payload_spanItemRow {x : InContext Span} {row : SpanRow} (h : spanItemRow env x = .ok row) :
    row.payload = env.traces.encodeToVec (spanMessage x) := by
  unfold spanItemRow spanRow at h
  obtain ⟨start, -, h⟩ := bind_eq_ok.mp h
  obtain ⟨stop, -, h⟩ := bind_eq_ok.mp h
  obtain rfl := Except.ok.inj h
  rfl

lemma readsBack_of_spanItemRow (henv : env.traces.Lossless) {x : InContext Span} {row : SpanRow}
    (h : spanItemRow env x = .ok row) : ReadsBack env row x where
  stored := h
  decoded := by
    rw [payload_spanItemRow h]
    exact henv (spanMessage x)

/-- Every stored row is that of some exported span. -/
lemma exists_readsBack (henv : env.traces.Lossless) {s : Store} (hs : s.Reachable env) :
    ∀ row ∈ s.spans.rows, ∃ x, ReadsBack env row x := by
  have hitems : RowProperty.OfItems { span := fun row => ∃ x, ReadsBack env row x } env :=
    ⟨fun _ h => ⟨_, readsBack_of_spanItemRow henv h⟩, fun _ => trivial, fun _ _ _ _ => trivial⟩
  exact (hitems.ofStore hs).spans

lemma map_decodePayload_readsBack {rows : List SpanRow} {items : List (InContext Span)}
    (h : List.Forall₂ (ReadsBack env) rows items) :
    (rows.map rowToSpan).map (fun span => (decodePayload env.traces span.payload).mapError internal) =
      items.map fun x => .ok (spanMessage x) := by
  induction h with
  | nil => rfl
  | @cons row x rows items hrow _ ih =>
    have hhead : (decodePayload env.traces (rowToSpan row).payload).mapError internal = .ok (spanMessage x) := by
      have hpayload : (rowToSpan row).payload = row.payload := rfl
      rw [decodePayload, hpayload, hrow.decoded]
      rfl
    rw [List.map_cons, List.map_cons, List.map_cons, ih, hhead]

lemma map_spanId_of_readsBack {rows : List SpanRow} {items : List (InContext Span)}
    (h : List.Forall₂ (ReadsBack env) rows items) : items.map spanId = rows.map SpanRow.key := by
  induction h with
  | nil => rfl
  | cons hrow _ ih => rw [List.map_cons, List.map_cons, ih, (spanItemRow_eq_ok env hrow.stored).2.2.2.2, spanId]

variable (order : OrderBy SpanRow TraceOrder) (ids : List Bytes) (t : SpansTable)

lemma nodup_keys_traceRows : ((traceRows order ids t).map SpanRow.key).Nodup := by
  have hperm := (order.sort_perm (t.rows.filter fun row => row.traceId ∈ ids)).map SpanRow.key
  apply hperm.nodup_iff.mpr
  exact t.nodup_keys.sublist (List.filter_sublist.map _)

/-- Under the ids of the traces that are read there is what the table has. -/
lemma find?_traceRows {id : Bytes × Bytes} (hid : id.1 ∈ ids) :
    (traceRows order ids t).find? (fun row => row.key = id) = t.lookup id := by
  apply Option.ext
  intro row
  have hrows : (⟨traceRows order ids t, nodup_keys_traceRows order ids t⟩ : SpansTable).lookup id = some row ↔
      row ∈ traceRows order ids t ∧ row.key = id := KeyedTable.lookup_eq_some_iff _ _ _
  have htable : t.lookup id = some row ↔ row ∈ t.rows ∧ row.key = id := KeyedTable.lookup_eq_some_iff _ _ _
  rw [htable]
  refine hrows.trans ?_
  rw [mem_traceRows]
  constructor
  · rintro ⟨⟨hrow, -⟩, hkey⟩
    exact ⟨hrow, hkey⟩
  · rintro ⟨hrow, rfl⟩
    exact ⟨⟨hrow, hid⟩, rfl⟩

/-- What is streamed of traces whose table has the journal. -/
lemma streamIds_of_journaled {journal : List (JournalEntry SpanRow)} {t : SpansTable} {search : TraceSearch}
    (hfault : search.spansFault = none) (hreads : ∀ row ∈ t.rows, ∃ x, ReadsBack env row x)
    (hjournal : Journaled journal t) (ids : List Bytes) :
    ∃ items : List (InContext Span),
      streamIds env search ids t = .ok (items.map fun x => .ok (spanMessage x)) ∧
      List.Forall₂ (ReadsBack env) (traceRows search.spans ids t) items ∧ (items.map spanId).Nodup ∧
      ∀ id : Bytes × Bytes, id.1 ∈ ids →
        (lastVersion SpanRow.key id journal = none → id ∉ items.map spanId) ∧
        ∀ row later, lastVersion SpanRow.key id journal = some (row, later) →
          VersionFound row later ((traceRows search.spans ids t).find? fun row => row.key = id) := by
  obtain ⟨items, hitems⟩ := exists_forall₂ (l := traceRows search.spans ids t)
    fun row hrow => hreads row (mem_traceRows.mp hrow).1
  have hkeys := map_spanId_of_readsBack hitems
  refine ⟨items, ?_, hitems, ?_, fun id hid => ?_⟩
  · rw [streamIds, hfault, spansForIds_eq, ← map_decodePayload_readsBack hitems]
    rfl
  · rw [hkeys]
    exact nodup_keys_traceRows search.spans ids t
  · rw [find?_traceRows search.spans ids t hid]
    have hfound := hjournal.lookup id
    refine ⟨fun hnone => ?_, hfound.2⟩
    rw [hkeys]
    intro hmem
    obtain ⟨row, hrow, hkey⟩ := List.mem_map.mp hmem
    have hlookup := (KeyedTable.lookup_eq_some_iff _ id row).mpr ⟨(mem_traceRows.mp hrow).1, hkey⟩
    rw [hfound.1 hnone] at hlookup
    cases hlookup

end Rows

/-- After any run of calls, the traces that are asked for are streamed one after the other, each in
the order of its starts. Of every span of theirs there is one message, the last accepted version as
it was exported, unless a later sweep was past its start. -/
theorem traces_read_back (env : Externals) (henv : env.traces.Lossless) (events : List StoreEvent) (ids : List Bytes)
    (hids : ∀ id ∈ ids, id.length = 16) (search : TraceSearch) (hfault : search.spansFault = none) :
    ∃ (rows : List SpanRow) (items : List (InContext Span)),
      TraceReader.getTraces env search ids (({} : Store).after env events).spans =
        .ok (items.map fun x => .ok (spanMessage x)) ∧
      List.Forall₂ (ReadsBack env) rows items ∧ (items.map spanId).Nodup ∧
      WholeTraces (({} : Store).after env events).spans rows ∧
      (∀ row, row ∈ rows ↔ row ∈ (({} : Store).after env events).spans.rows ∧ row.traceId ∈ ids) ∧
      ∀ id : Bytes × Bytes, id.1 ∈ ids →
        (lastVersion SpanRow.key id (spanJournal env events) = none → id ∉ items.map spanId) ∧
        ∀ row later, lastVersion SpanRow.key id (spanJournal env events) = some (row, later) →
          VersionFound row later (rows.find? fun row => row.key = id) := by
  have hreachable : (({} : Store).after env events).Reachable env := (reachable_iff_exists_after env).mpr ⟨events, rfl⟩
  obtain ⟨items, hstream, hitems, hnodup, hfound⟩ :=
    streamIds_of_journaled hfault (exists_readsBack henv hreachable) (journaled_spans env events) ids
  refine ⟨_, items, ?_, hitems, hnodup, wholeTraces_traceRows, fun row => mem_traceRows, hfound⟩
  have hvalid : validateTraceIds ids = .ok () := by
    unfold validateTraceIds
    rw [if_neg]
    rw [List.any_eq_true]
    rintro ⟨id, hid, hlength⟩
    exact of_decide_eq_true hlength (hids id hid)
  rw [TraceReader.getTraces, hvalid]
  exact hstream

/-- A span is exported, exported anew, and older spans are swept. -/
def rewrittenAndSwept : List StoreEvent :=
  [.write {} (exportOf [spanOf 1 "a" 5, spanOf 2 "b" 5]), .write {} (exportOf [spanOf 1 "c" 7]),
    .sweep { nowNanos := some 10 } 4]

theorem traces_read_back_rewritten :
    ∃ (rows : List SpanRow) (items : List (InContext Span)),
      TraceReader.getTraces countingTraces .stable [.replicate 16 1, .replicate 16 2]
          (({} : Store).after countingTraces rewrittenAndSwept).spans =
        .ok (items.map fun x => .ok (spanMessage x)) ∧
      List.Forall₂ (ReadsBack countingTraces) rows items := by
  obtain ⟨rows, items, hstream, hitems, -⟩ :=
    traces_read_back countingTraces (Codec.lossless_counting TracesData) rewrittenAndSwept
      [.replicate 16 1, .replicate 16 2] (by decide) .stable rfl
  exact ⟨rows, items, hstream, hitems⟩

end OtelviewPostgres
