import OtelviewPostgres.Proofs.SpanInvariant
import OtelviewPostgres.Proofs.TraceSearches
import OtelviewPostgres.Proofs.TraceSummaries

/-!
# Which spans count as errors

The status code of a span is narrowed to 16 bits when its row is written, and the narrowed
code is compared when the row is counted. A code that differs from 2 in the upper bits only
is counted as an error.
-/

namespace OtelviewPostgres

open Relational

/-- The status code of a span, which is unset where the span has no status. -/
def Span.statusCode (span : Span) : Int32 := (span.status.map SpanStatus.code).getD 0

/-- The error count of a service, which is 0 where the summary does not list the service. -/
def TraceSummary.serviceErrors (summary : TraceSummary) (name : String) : Int32 :=
  ((summary.services.find? fun service => service.name = name).map ServiceSummary.errorSpanCount).getD 0

/-- Wherever the span stands in a trace, it adds one to the errors of the trace and of its
service where `counted` holds, and nothing elsewhere. -/
structure CountedIff (span : StoredSpan) (counted : Prop) [Decidable counted] : Prop where
  trace : ∀ (order order' : AnyOrder ServiceSummary) (before after : List StoredSpan),
    (summarize order (before ++ span :: after)).errorSpanCount =
      (summarize order' (before ++ after)).errorSpanCount + if counted then 1 else 0
  service : ∀ (order order' : AnyOrder ServiceSummary) (before after : List StoredSpan),
    (summarize order (before ++ span :: after)).serviceErrors span.serviceName =
      (summarize order' (before ++ after)).serviceErrors span.serviceName + if counted then 1 else 0

section Counting

variable (order : AnyOrder ServiceSummary) (spans : List StoredSpan)

lemma errorSpanCount_summarize :
    (summarize order spans).errorSpanCount = .ofNat (spans.countP StoredSpan.isError) := by
  rw [← (List.perm_insertionSort (fun s s' : StoredSpan => s.start ≤ s'.start) spans).countP_eq]
  rfl

lemma serviceErrors_summarize (name : String) :
    (summarize order spans).serviceErrors name =
      .ofNat (spans.countP fun span => span.serviceName = name ∧ span.isError) := by
  unfold TraceSummary.serviceErrors
  cases hfind : (summarize order spans).services.find? fun service => service.name = name with
  | none =>
    have hzero : spans.countP (fun span => span.serviceName = name ∧ span.isError) = 0 := by
      rw [List.countP_eq_zero]
      intro span hspan herror
      have hname : name ∈ (summarize order spans).services.map ServiceSummary.name := by
        rw [(map_name_services_perm order).mem_iff, List.mem_dedup]
        exact List.mem_map.mpr ⟨span, hspan, (of_decide_eq_true herror).1⟩
      obtain ⟨service, hservice, heq⟩ := List.mem_map.mp hname
      exact List.find?_eq_none.mp hfind service hservice (decide_eq_true heq)
    rw [hzero]
    rfl
  | some service =>
    obtain ⟨hservice, -⟩ := service_summarize order (List.mem_of_find?_eq_some hfind)
    have hname := List.find?_some hfind
    rw [decide_eq_true_iff] at hname
    rw [hname] at hservice
    rw [hservice]
    rfl

/-- One more span in a list of them is one more of its kind. -/
lemma ofNat_countP_insert (p : StoredSpan → Bool) (span : StoredSpan) (before after : List StoredSpan) :
    Int32.ofNat ((before ++ span :: after).countP p) =
      .ofNat ((before ++ after).countP p) + if p span then 1 else 0 := by
  rw [List.perm_middle.countP_eq, List.countP_cons, Int32.ofNat_add]
  split <;> rfl

lemma countedIff_isError (span : StoredSpan) : CountedIff span (span.isError = true) where
  trace order order' before after := by
    rw [errorSpanCount_summarize, errorSpanCount_summarize, ofNat_countP_insert]
  service order order' before after := by
    rw [serviceErrors_summarize, serviceErrors_summarize, ofNat_countP_insert]
    simp

/-- A span on its own shows whether it is counted. -/
lemma countedIff_iff {span : StoredSpan} {counted : Prop} [Decidable counted] :
    CountedIff span counted ↔ (span.isError = true ↔ counted) := by
  constructor
  · intro h
    have hcount := h.trace AnyOrder.unchanged AnyOrder.unchanged [] []
    rw [(countedIff_isError span).trace AnyOrder.unchanged AnyOrder.unchanged [] []] at hcount
    have hsame := (Int32.add_right_inj _).mp hcount
    by_cases herror : span.isError = true <;> by_cases hcounted : counted <;> simp_all
  · intro h
    have hcounts := countedIff_isError span
    constructor
    · intro order order' before after
      rw [hcounts.trace order order']
      simp only [h]
    · intro order order' before after
      rw [hcounts.service order order']
      simp only [h]

end Counting

/-- The row has the low half of the status code of the span in its payload. -/
def SpanRow.HasStatus (env : Externals) (row : SpanRow) : Prop :=
  ∃ (resource : ResourceSpans) (scope : ScopeSpans) (span : Span),
    env.traces.decode row.payload = some { resourceSpans := [resource] } ∧ resource.scopeSpans = [scope] ∧
      scope.spans = [span] ∧ row.status = span.statusCode.toInt16

lemma hasStatus_of_spanItemRow {env : Externals} (henv : env.traces.Lossless) {x : InContext Span} {row : SpanRow}
    (h : spanItemRow env x = .ok row) : row.HasStatus env := by
  obtain ⟨hstart, hend, -⟩ := spanItemRow_eq_ok env h
  unfold spanItemRow spanRow at h
  rw [u64ToI64_of_lt _ hstart, u64ToI64_of_lt _ hend] at h
  cases h
  refine ⟨_, _, x.item, henv _, rfl, rfl, ?_⟩
  unfold Span.statusCode
  cases x.item.status with
  | none => rfl
  | some status => rfl

lemma hasStatus_of_reachable {env : Externals} (henv : env.traces.Lossless) {s : Store} (h : s.Reachable env) :
    ∀ row ∈ s.spans.rows, row.HasStatus env := by
  have hitems : RowProperty.OfItems { span := SpanRow.HasStatus env } env :=
    ⟨fun _ => hasStatus_of_spanItemRow henv, fun _ => trivial, fun _ _ _ _ => trivial⟩
  exact (hitems.ofStore h).spans

lemma toInt16_eq_two_iff (code : Int32) : code.toInt16 = 2 ↔ code.toInt % 2 ^ 16 = 2 := by
  have htwo : (2 : Int16).toInt = 2 := by decide
  rw [← Int16.toInt_inj, Int32.toInt_toInt16, htwo, Int.bmod_eq_emod]
  split <;> omega

/-- A stored row is counted as an error exactly where the status code in its payload is 2, unless
the code is another one with the low half of 2. -/
theorem errors_counted_iff (env : Externals) (henv : env.traces.Lossless) {s : Store} (hs : s.Reachable env)
    {row : SpanRow} (hrow : row ∈ s.spans.rows) :
    ∃ (resource : ResourceSpans) (scope : ScopeSpans) (span : Span),
      env.traces.decode row.payload = some { resourceSpans := [resource] } ∧ resource.scopeSpans = [scope] ∧
        scope.spans = [span] ∧
        (CountedIff (rowToSpan row) (span.statusCode = 2) ↔
          ¬ (span.statusCode.toInt % 2 ^ 16 = 2 ∧ span.statusCode ≠ 2)) := by
  obtain ⟨resource, scope, span, hdecode, hscope, hspan, hstatus⟩ :=
    hasStatus_of_reachable henv hs row hrow
  refine ⟨resource, scope, span, hdecode, hscope, hspan, ?_⟩
  have herror : (rowToSpan row).isError = true ↔ span.statusCode.toInt % 2 ^ 16 = 2 := by
    rw [← toInt16_eq_two_iff, ← hstatus]
    exact beq_iff_eq
  have hlow : span.statusCode = 2 → span.statusCode.toInt % 2 ^ 16 = 2 := by
    intro h
    rw [h]
    decide
  rw [countedIff_iff, herror, not_and, not_not]
  exact ⟨fun h => h.mp, fun h => ⟨h, hlow⟩⟩

/-- A span whose status code is `2 ^ 16 + 2`. -/
def wideCode : Span := { spanOf 1 "a" 5 with status := some { message := "", code := 65538 } }

noncomputable def wideCodeStore : Store where
  spans := (write countingTraces {} (exportOf [wideCode]) ∅).2

lemma reachable_wideCodeStore : wideCodeStore.Reachable countingTraces := .write {} (exportOf [wideCode]) .empty

/-- The span is stored with its payload and counted as an error. -/
theorem wide_code_counted :
    ∃ row ∈ wideCodeStore.spans.rows,
      countingTraces.traces.decode row.payload = some (exportOf [wideCode]) ∧ wideCode.statusCode = 65538 ∧
        (summarize AnyOrder.unchanged [rowToSpan row]).errorSpanCount = 1 ∧
        ¬ CountedIff (rowToSpan row) (wideCode.statusCode = 2) := by
  refine ⟨_, List.mem_cons_self, Codec.lossless_counting TracesData _, rfl, rfl, ?_⟩
  rw [countedIff_iff]
  decide

theorem errors_counted_iff_wideCode :
    ∃ row ∈ wideCodeStore.spans.rows, ∃ (resource : ResourceSpans) (scope : ScopeSpans) (span : Span),
      countingTraces.traces.decode row.payload = some { resourceSpans := [resource] } ∧
        resource.scopeSpans = [scope] ∧ scope.spans = [span] ∧
        (CountedIff (rowToSpan row) (span.statusCode = 2) ↔
          ¬ (span.statusCode.toInt % 2 ^ 16 = 2 ∧ span.statusCode ≠ 2)) :=
  ⟨_, List.mem_cons_self, errors_counted_iff countingTraces (Codec.lossless_counting TracesData)
    reachable_wideCodeStore List.mem_cons_self⟩

end OtelviewPostgres
