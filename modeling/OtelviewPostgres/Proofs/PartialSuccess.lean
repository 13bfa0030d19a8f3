import OtelviewPostgres.Model.History
import OtelviewPostgres.Model.Server
import OtelviewPostgres.Proofs.SpanIngest

/-!
# Partial success

A span with malformed ids is counted and described to its sender. In every other respect an export
is the export of its other spans, also where a write fails and over whole histories.
-/

namespace OtelviewPostgres

open Relational

def ScopeSpans.wellFormed (scopeSpans : ScopeSpans) : ScopeSpans :=
  { scopeSpans with spans := scopeSpans.spans.filter fun span => !malformedIds span }

def ResourceSpans.wellFormed (resourceSpans : ResourceSpans) : ResourceSpans :=
  { resourceSpans with scopeSpans := resourceSpans.scopeSpans.map ScopeSpans.wellFormed }

/-- The export without the spans whose ids are malformed. -/
def TracesData.wellFormed (data : TracesData) : TracesData where
  resourceSpans := data.resourceSpans.map ResourceSpans.wellFormed

/-- The spans of an export whose ids are malformed, in arrival order. -/
def TracesData.malformed (data : TracesData) : List Span :=
  ((spanItems data).filter fun x => malformedIds x.item).map InContext.item

/-- What the sender of an accepted export is told. -/
def TracesData.partialSuccess (env : Externals) (data : TracesData) : Option ExportTracePartialSuccess :=
  match data.malformed with
  | [] => none
  | span :: spans => some {
      rejectedSpans := .ofNat (spans.length + 1)
      errorMessage := "; ".intercalate (((span :: spans).take 5).map (rejection env)) }

/-- The payload of a span does not depend on its neighbours. -/
lemma spanItems_wellFormed (data : TracesData) :
    spanItems data.wellFormed = (spanItems data).filter fun x => !malformedIds x.item := by
  simp only [spanItems, TracesData.wellFormed, ResourceSpans.wellFormed, ScopeSpans.wellFormed, List.flatMap_map,
    List.filter_flatMap, List.filter_map]
  rfl

lemma malformed_wellFormed (data : TracesData) : data.wellFormed.malformed = [] := by
  rw [TracesData.malformed, spanItems_wellFormed, List.filter_filter, List.map_eq_nil_iff, List.filter_eq_nil_iff]
  intro x _
  cases malformedIds x.item <;> decide

section Exports

variable (env : Externals)

/-- The messages and the count are those of the malformed spans, the rows those of the others. -/
lemma collectSpans_eq_wellFormed (data : TracesData) :
    collectSpans env data = (collectSpans env data.wellFormed).map fun batch =>
      { batch with rejected := data.malformed.length, errors := (data.malformed.take 5).map (rejection env) } := by
  have hmalformed : ((spanItems data).filter fun x => malformedIds x.item).map (fun x => rejection env x.item) =
      data.malformed.map (rejection env) := by
    rw [TracesData.malformed, List.map_map]
    rfl
  have hcount : (spanItems data).countP (fun x => malformedIds x.item) = data.malformed.length := by
    rw [TracesData.malformed, List.length_map, List.countP_eq_length_filter]
  have hwell : ((spanItems data.wellFormed).filter fun x => !malformedIds x.item) =
      (spanItems data).filter fun x => !malformedIds x.item := by
    rw [spanItems_wellFormed, List.filter_filter]
    simp only [Bool.and_self]
  rw [collectSpans_eq_foldlM, collectSpans_eq_foldlM, foldlM_collectSpanItem, foldlM_collectSpanItem, hwell,
    hmalformed, hcount, ← List.map_take]
  cases ((spanItems data).filter fun x => !malformedIds x.item).mapM (spanItemRow env) with
  | error e => rfl
  | ok rows =>
    simp only [bind, Except.bind, pure, Except.pure, Except.map, List.nil_append, zero_add, List.length_nil,
      Nat.sub_zero]

/-- A write of an export does what a write of its well-formed spans does. -/
lemma write_eq_wellFormed (server : Server SpanRow) (data : TracesData) (t : SpansTable) :
    write env server data t =
      ((write env server data.wellFormed t).1.map fun _ =>
          (data.malformed.length, (data.malformed.take 5).map (rejection env)),
        (write env server data.wellFormed t).2) := by
  unfold write
  rw [collectSpans_eq_wellFormed]
  cases collectSpans env data.wellFormed with
  | error e => rfl
  | ok batch =>
    have hchunks : spanChunks { batch with
        rejected := data.malformed.length, errors := (data.malformed.take 5).map (rejection env) } =
          spanChunks batch := rfl
    simp only [Except.map, hchunks]
    rcases runTransaction server.faults ((spanChunks batch).map (upsertSpans server)) t with ⟨_ | _, t'⟩ <;> rfl

lemma export_eq_wellFormed (server : Server SpanRow) (data : TracesData) (t : SpansTable) :
    TraceService.export env server data t =
      ((TraceService.export env server data.wellFormed t).1.map fun _ => data.partialSuccess env,
        (TraceService.export env server data.wellFormed t).2) := by
  unfold TraceService.export
  rw [write_eq_wellFormed]
  rcases write env server data.wellFormed t with ⟨e | res, t'⟩
  · rfl
  · simp only [Except.map, TracesData.partialSuccess]
    cases data.malformed with
    | nil => rfl
    | cons span spans => rw [List.length_cons, if_pos (Nat.succ_pos _)]

/-- The call with the well-formed spans only. -/
def StoreEvent.wellFormed : StoreEvent → StoreEvent
  | .write server data => .write server data.wellFormed
  | event => event

lemma perform_wellFormed (s : Store) (event : StoreEvent) : s.perform env event.wellFormed = s.perform env event := by
  cases event with
  | write server data =>
    simp only [StoreEvent.wellFormed, Store.perform, write_eq_wellFormed env server data]
    cases (write env server data.wellFormed s.spans).1 <;> rfl
  | writeLogs server data => rfl
  | writeMetrics server data => rfl
  | sweep run retention => rfl

/-- Malformed spans are described to their sender and change nothing else: neither whether their
export or a later call succeeds, nor what any call leaves in the store. -/
theorem malformed_spans_inert (env : Externals) (s : Store) (events : List StoreEvent) :
    s.after env (events.map StoreEvent.wellFormed) = s.after env events ∧
      (s.history env (events.map StoreEvent.wellFormed)).map Prod.snd = (s.history env events).map Prod.snd ∧
      ∀ server data t, data.wellFormed.partialSuccess env = none ∧
        TraceService.export env server data t =
          ((TraceService.export env server data.wellFormed t).1.map fun _ => data.partialSuccess env,
            (TraceService.export env server data.wellFormed t).2) := by
  refine ⟨?_, ?_, fun server data t => ⟨?_, export_eq_wellFormed env server data t⟩⟩
  · induction events generalizing s with
    | nil => rfl
    | cons event events ih =>
      rw [List.map_cons, Store.after, Store.after, List.foldl_cons, List.foldl_cons, perform_wellFormed]
      exact ih _
  · induction events generalizing s with
    | nil => rfl
    | cons event events ih =>
      rw [List.map_cons, Store.history, Store.history, List.map_cons, List.map_cons, perform_wellFormed, ih]
  · rw [TracesData.partialSuccess, malformed_wellFormed]

end Exports

end OtelviewPostgres
