import OtelviewPostgres.Proofs.Timestamps
import OtelviewPostgres.Proofs.TraceReading

/-!
# What a trace summary says

The counts, the extremes and the root of a summary are computed apart from each other over a
sorted copy of the spans of a trace. They agree with each other and with the trace, and the
order in which the spans arrive shows only where two parentless spans start together.
-/

namespace OtelviewPostgres

open Relational

/-- The times of a span are `i64` values. -/
structure StoredSpan.TimesFit (span : StoredSpan) : Prop where
  start : FitsI64 span.start
  stop : FitsI64 span.stop

/-- A parentless span of the trace with the least start among them. -/
structure IsRoot (trace : List StoredSpan) (span : StoredSpan) : Prop where
  mem : span ∈ trace
  parentless : span.parentSpanId = []
  least : ∀ span' ∈ trace, span'.parentSpanId = [] → span.start ≤ span'.start

namespace TraceSummary

/-- The root is named after a parentless span, and empty only if there is none. -/
def NamesRoot (summary : TraceSummary) (trace : List StoredSpan) : Prop :=
  (∃ span, IsRoot trace span ∧ summary.rootServiceName = span.serviceName ∧
      summary.rootOperationName = span.operationName) ∨
    ((∀ span ∈ trace, span.parentSpanId ≠ []) ∧ summary.rootServiceName = "" ∧ summary.rootOperationName = "")

/-- Everything a summary says is true of the trace. -/
structure Describes (summary : TraceSummary) (trace : List StoredSpan) : Prop where
  services_nodup : (summary.services.map ServiceSummary.name).Nodup
  mem_services : ∀ name, name ∈ summary.services.map ServiceSummary.name ↔
    ∃ span ∈ trace, span.serviceName = name
  service_spanCount : ∀ service ∈ summary.services,
    service.spanCount.toInt = trace.countP fun span => span.serviceName = service.name
  service_errorSpanCount : ∀ service ∈ summary.services,
    service.errorSpanCount.toInt = trace.countP fun span => span.serviceName = service.name ∧ span.isError
  service_pos : ∀ service ∈ summary.services, 0 < service.spanCount.toInt
  spanCount : summary.spanCount.toInt = trace.length
  errorSpanCount : summary.errorSpanCount.toInt = trace.countP StoredSpan.isError
  sum_spanCount : (summary.services.map fun service => service.spanCount.toInt).sum = summary.spanCount.toInt
  sum_errorSpanCount :
    (summary.services.map fun service => service.errorSpanCount.toInt).sum = summary.errorSpanCount.toInt
  minStart : IsLeast {t : Int | ∃ span ∈ trace, t = max span.start 0} summary.minStartTimeUnixNano.toNat
  maxEnd : IsGreatest {t : Int | ∃ span ∈ trace, t = max span.stop 0} summary.maxEndTimeUnixNano.toNat
  orphanSpanCount : summary.orphanSpanCount.toInt = trace.countP fun span =>
    span.parentSpanId ≠ [] ∧ ∀ span' ∈ trace, span'.spanId ≠ span.parentSpanId
  root : summary.NamesRoot trace

/-- The same up to the order of the services and the choice between parentless spans with
equal start. -/
structure Alike (trace : List StoredSpan) (summary summary' : TraceSummary) : Prop where
  traceId : summary.traceId = summary'.traceId
  minStart : summary.minStartTimeUnixNano = summary'.minStartTimeUnixNano
  maxEnd : summary.maxEndTimeUnixNano = summary'.maxEndTimeUnixNano
  spanCount : summary.spanCount = summary'.spanCount
  errorSpanCount : summary.errorSpanCount = summary'.errorSpanCount
  orphanSpanCount : summary.orphanSpanCount = summary'.orphanSpanCount
  services : summary.services.Perm summary'.services
  root : (summary.rootServiceName = summary'.rootServiceName ∧
      summary.rootOperationName = summary'.rootOperationName) ∨
    ∃ span ∈ trace, ∃ span' ∈ trace, span.parentSpanId = [] ∧ span'.parentSpanId = [] ∧ span.start = span'.start ∧
      summary.rootServiceName = span.serviceName ∧ summary.rootOperationName = span.operationName ∧
      summary'.rootServiceName = span'.serviceName ∧ summary'.rootOperationName = span'.operationName

end TraceSummary

section Services

variable (order : AnyOrder ServiceSummary) (spans : List StoredSpan)

/-- What `countService` keeps of a span. -/
def addSpan (counts : Int32 × Int32) (span : StoredSpan) : Int32 × Int32 :=
  (counts.1 + 1, if span.isError then counts.2 + 1 else counts.2)

lemma countService_eq_addToTally : countService = addToTally StoredSpan.serviceName (0, 0) addSpan := rfl

lemma foldl_addSpan :
    spans.foldl addSpan (0, 0) = (.ofNat spans.length, .ofNat (spans.countP StoredSpan.isError)) := by
  induction spans using List.reverseRecOn with
  | nil => rfl
  | append_singleton spans span ih =>
    rw [List.foldl_append, ih, List.foldl_cons, List.foldl_nil, addSpan, List.length_append, List.countP_append,
      List.countP_singleton, Int32.ofNat_add, List.length_singleton]
    split
    · rw [Int32.ofNat_add]
      rfl
    · rw [Nat.add_zero]
      rfl

/-- The summary of one service of the trace. -/
def serviceSummary (name : String) : ServiceSummary where
  name := name
  spanCount := .ofNat (spans.countP fun span => span.serviceName = name)
  errorSpanCount := .ofNat (spans.countP fun span => span.serviceName = name ∧ span.isError)

lemma serviceSummary_perm {spans spans' : List StoredSpan} (h : spans.Perm spans') :
    serviceSummary spans = serviceSummary spans' := by
  funext name
  rw [serviceSummary, serviceSummary, h.countP_eq, h.countP_eq]

lemma services_foldl_countService :
    ((spans.foldl countService ∅).entries.map fun ⟨name, spanCount, errorSpanCount⟩ =>
      ({ name, spanCount, errorSpanCount } : ServiceSummary)).Perm
        ((spans.map StoredSpan.serviceName).dedup.map (serviceSummary spans)) := by
  have htallies := tallies_perm StoredSpan.serviceName (0, 0) addSpan spans
  rw [← countService_eq_addToTally] at htallies
  refine (htallies.map _).trans (List.Perm.of_eq ?_)
  rw [List.map_map]
  apply List.map_congr_left
  intro name _
  have herrors : (spans.filter fun span => span.serviceName = name).countP StoredSpan.isError =
      spans.countP fun span => span.serviceName = name ∧ span.isError := by
    rw [List.countP_filter]
    apply List.countP_congr
    intro span _
    simp [and_comm]
  rw [Function.comp_apply, foldl_addSpan, herrors, ← List.countP_eq_length_filter]
  rfl

/-- There is one summary for each service of the trace. -/
lemma services_summarize_perm :
    (summarize order spans).services.Perm
      ((spans.map StoredSpan.serviceName).dedup.map (serviceSummary spans)) := by
  have hsort := List.perm_insertionSort (fun s s' : StoredSpan => s.start ≤ s'.start) spans
  have hservices := (order.sort_perm _).trans (services_foldl_countService (spans.insertionSort fun s s' =>
    s.start ≤ s'.start))
  rw [serviceSummary_perm hsort] at hservices
  exact hservices.trans ((hsort.map StoredSpan.serviceName).dedup.map _)

end Services

section Extremes

lemma toNat_clampToU64 {v : Int} (h : FitsI64 v) : ((clampToU64 v).toNat : Int) = max v 0 := by
  obtain ⟨-, hhigh⟩ := h
  unfold i64Max at hhigh
  have hlt : (max v 0).toNat < 2 ^ 64 := by omega
  rw [clampToU64, UInt64.toNat_ofNat', Nat.mod_eq_of_lt hlt, Int.toNat_of_nonneg (le_max_right v 0)]

instance instLawfulOrderMaxUInt64 : Std.LawfulOrderMax UInt64 :=
  .of_max_le_iff
    (fun a b c => by
      rw [show max a b = if a ≤ b then b else a from rfl]
      split
      · rename_i hab
        exact ⟨fun hbc => ⟨UInt64.le_trans hab hbc, hbc⟩, And.right⟩
      · rename_i hab
        exact ⟨fun hac => ⟨hac, UInt64.le_trans (UInt64.le_of_lt (UInt64.not_le.mp hab)) hac⟩, And.left⟩)
    (fun a b => by
      rw [show max a b = if a ≤ b then b else a from rfl]
      split
      · exact .inr rfl
      · exact .inl rfl)

variable {time : StoredSpan → Int} {spans trace : List StoredSpan}

/-- The clamped times of the trace are those of its spans in any order. -/
lemma exists_clamped_iff (hperm : spans.Perm trace) (hfits : ∀ span ∈ trace, FitsI64 (time span)) {t : Int} :
    (∃ span ∈ trace, t = max (time span) 0) ↔
      ∃ v ∈ spans.map (fun span => clampToU64 (time span)), t = v.toNat := by
  constructor
  · rintro ⟨span, hspan, rfl⟩
    refine ⟨clampToU64 (time span), List.mem_map.mpr ⟨span, hperm.mem_iff.mpr hspan, rfl⟩, ?_⟩
    exact (toNat_clampToU64 (hfits span hspan)).symm
  · rintro ⟨v, hv, rfl⟩
    obtain ⟨span, hspan, rfl⟩ := List.mem_map.mp hv
    exact ⟨span, hperm.mem_iff.mp hspan, toNat_clampToU64 (hfits span (hperm.mem_iff.mp hspan))⟩

/-- The least of the clamped times is the least of the times, clamped. -/
lemma isLeast_min (hperm : spans.Perm trace) (hne : spans ≠ []) (hfits : ∀ span ∈ trace, FitsI64 (time span)) :
    IsLeast {t : Int | ∃ span ∈ trace, t = max (time span) 0}
      (((spans.map fun span => clampToU64 (time span)).min?).getD 0).toNat := by
  have hmap : spans.map (fun span => clampToU64 (time span)) ≠ [] := mt List.map_eq_nil_iff.mp hne
  obtain ⟨least, hleast⟩ := Option.ne_none_iff_exists'.mp (mt List.min?_eq_none_iff.mp hmap)
  obtain ⟨hmem, hle⟩ := List.min?_eq_some_iff.mp hleast
  rw [hleast, Option.getD_some]
  constructor
  · exact (exists_clamped_iff hperm hfits).mpr ⟨least, hmem, rfl⟩
  · intro t ht
    obtain ⟨v, hv, rfl⟩ := (exists_clamped_iff hperm hfits).mp ht
    exact_mod_cast UInt64.le_iff_toNat_le.mp (hle v hv)

lemma isGreatest_max (hperm : spans.Perm trace) (hne : spans ≠ []) (hfits : ∀ span ∈ trace, FitsI64 (time span)) :
    IsGreatest {t : Int | ∃ span ∈ trace, t = max (time span) 0}
      (((spans.map fun span => clampToU64 (time span)).max?).getD 0).toNat := by
  have hmap : spans.map (fun span => clampToU64 (time span)) ≠ [] := mt List.map_eq_nil_iff.mp hne
  obtain ⟨greatest, hgreatest⟩ := Option.ne_none_iff_exists'.mp (mt List.max?_eq_none_iff.mp hmap)
  obtain ⟨hmem, hle⟩ := List.max?_eq_some_iff.mp hgreatest
  rw [hgreatest, Option.getD_some]
  constructor
  · exact (exists_clamped_iff hperm hfits).mpr ⟨greatest, hmem, rfl⟩
  · intro t ht
    obtain ⟨v, hv, rfl⟩ := (exists_clamped_iff hperm hfits).mp ht
    exact_mod_cast UInt64.le_iff_toNat_le.mp (hle v hv)

end Extremes

/-- The first parentless span in the order of the starts has the least start of them. -/
lemma namesRoot_summarize (order : AnyOrder ServiceSummary) (trace : List StoredSpan) :
    (summarize order trace).NamesRoot trace := by
  have hmem : ∀ span, span ∈ trace.insertionSort (fun s s' => s.start ≤ s'.start) ↔ span ∈ trace :=
    fun span => List.mem_insertionSort _
  have hservice : (summarize order trace).rootServiceName = (((trace.insertionSort fun s s' => s.start ≤ s'.start).find?
      fun s => s.parentSpanId.isEmpty).map StoredSpan.serviceName).getD "" := rfl
  have hoperation : (summarize order trace).rootOperationName = (((trace.insertionSort fun s s' =>
      s.start ≤ s'.start).find? fun s => s.parentSpanId.isEmpty).map StoredSpan.operationName).getD "" := rfl
  rw [TraceSummary.NamesRoot, hservice, hoperation]
  cases hroot : (trace.insertionSort fun s s' => s.start ≤ s'.start).find? fun s => s.parentSpanId.isEmpty with
  | none =>
    refine .inr ⟨fun span hspan hparent => ?_, rfl, rfl⟩
    have hnone := List.find?_eq_none.mp hroot span ((hmem span).mpr hspan)
    rw [hparent] at hnone
    exact hnone rfl
  | some root =>
    obtain ⟨hparent, before, after, hsplit, hbefore⟩ := List.find?_eq_some_iff_append.mp hroot
    have hpair := List.pairwise_insertionSort (fun s s' : StoredSpan => s.start ≤ s'.start) trace
    rw [hsplit, List.pairwise_append] at hpair
    refine .inl ⟨root, ⟨(hmem root).mp (List.mem_of_find?_eq_some hroot), List.isEmpty_iff.mp hparent, ?_⟩, rfl, rfl⟩
    intro span hspan hempty
    have hspan' := (hmem span).mpr hspan
    rw [hsplit] at hspan'
    rcases List.mem_append.mp hspan' with hfirst | hrest
    · have hno := hbefore span hfirst
      rw [hempty] at hno
      cases hno
    · rcases List.mem_cons.mp hrest with rfl | hlast
      · exact le_rfl
      · exact (List.pairwise_cons.mp hpair.2.1).1 span hlast

/-! ### One summary -/

section Describes

variable (order : AnyOrder ServiceSummary) {trace : List StoredSpan}

lemma service_summarize {service : ServiceSummary} (h : service ∈ (summarize order trace).services) :
    service = serviceSummary trace service.name ∧ ∃ span ∈ trace, span.serviceName = service.name := by
  obtain ⟨name, hname, rfl⟩ := List.mem_map.mp ((services_summarize_perm order trace).mem_iff.mp h)
  exact ⟨rfl, List.mem_map.mp (List.mem_dedup.mp hname)⟩

lemma map_name_services_perm :
    ((summarize order trace).services.map ServiceSummary.name).Perm (trace.map StoredSpan.serviceName).dedup := by
  refine ((services_summarize_perm order trace).map ServiceSummary.name).trans (List.Perm.of_eq ?_)
  rw [List.map_map]
  exact List.map_id _

variable (trace) in
lemma toInt_countP (hlen : trace.length < 2 ^ 31) (p : StoredSpan → Bool) :
    (Int32.ofNat (trace.countP p)).toInt = trace.countP p :=
  Int32.toInt_ofNat_of_lt (Nat.lt_of_le_of_lt List.countP_le_length hlen)

/-- Every span of a kind is counted under its service. -/
lemma sum_countP_services (p : StoredSpan → Bool) :
    ((trace.map StoredSpan.serviceName).dedup.map fun name =>
      trace.countP fun span => span.serviceName = name ∧ p span).sum = trace.countP p := by
  have hmem : ∀ span ∈ trace.filter p, span.serviceName ∈ (trace.map StoredSpan.serviceName).dedup := by
    intro span hspan
    exact List.mem_dedup.mpr (List.mem_map.mpr ⟨span, (List.mem_filter.mp hspan).1, rfl⟩)
  have hsum := sum_countP_key StoredSpan.serviceName (List.nodup_dedup _) hmem
  rw [← List.countP_eq_length_filter] at hsum
  simpa [List.countP_filter] using hsum

lemma sum_services (count : ServiceSummary → Int32) (p : StoredSpan → Bool) (hlen : trace.length < 2 ^ 31)
    (hcount : ∀ name, count (serviceSummary trace name) =
      .ofNat (trace.countP fun span => span.serviceName = name ∧ p span)) :
    ((summarize order trace).services.map fun service => (count service).toInt).sum = trace.countP p := by
  rw [((services_summarize_perm order trace).map _).sum_eq, List.map_map, ← sum_countP_services p]
  push_cast
  rw [List.map_map]
  apply congrArg List.sum
  apply List.map_congr_left
  intro name _
  rw [Function.comp_apply, Function.comp_apply, hcount, toInt_countP trace hlen]

lemma orphans_eq {spans : List StoredSpan} (hperm : spans.Perm trace) :
    spans.countP (fun s => !s.parentSpanId.isEmpty && !(spans.map StoredSpan.spanId).contains s.parentSpanId) =
      trace.countP fun span => span.parentSpanId ≠ [] ∧ ∀ span' ∈ trace, span'.spanId ≠ span.parentSpanId := by
  rw [hperm.countP_eq]
  apply List.countP_congr
  intro span _
  simp [hperm.mem_iff]

/-- What `summarize` says is true of the spans it is given. -/
lemma describes_summarize (hne : trace ≠ []) (hlen : trace.length < 2 ^ 31)
    (hfits : ∀ span ∈ trace, span.TimesFit) : (summarize order trace).Describes trace := by
  have hsort := List.perm_insertionSort (fun s s' : StoredSpan => s.start ≤ s'.start) trace
  have hsorted : trace.insertionSort (fun s s' => s.start ≤ s'.start) ≠ [] := fun h => hne (h ▸ hsort).symm.eq_nil
  have hspans : (summarize order trace).spanCount.toInt = trace.length := by
    rw [spanCount_summarize]
    exact Int32.toInt_ofNat_of_lt hlen
  have herrors : (summarize order trace).errorSpanCount.toInt = trace.countP StoredSpan.isError := by
    rw [← toInt_countP trace hlen, ← hsort.countP_eq]
    rfl
  constructor
  case services_nodup => exact (map_name_services_perm order).nodup_iff.mpr (List.nodup_dedup _)
  case mem_services =>
    intro name
    rw [(map_name_services_perm order).mem_iff, List.mem_dedup, List.mem_map]
  case service_spanCount =>
    intro service hservice
    rw [(service_summarize order hservice).1]
    exact toInt_countP trace hlen _
  case service_errorSpanCount =>
    intro service hservice
    rw [(service_summarize order hservice).1]
    exact toInt_countP trace hlen _
  case service_pos =>
    intro service hservice
    obtain ⟨heq, span, hspan, hname⟩ := service_summarize order hservice
    have hpos : 0 < trace.countP fun span => span.serviceName = service.name :=
      List.countP_pos_iff.mpr ⟨span, hspan, decide_eq_true hname⟩
    rw [heq]
    refine lt_of_lt_of_eq ?_ (toInt_countP trace hlen _).symm
    exact_mod_cast hpos
  case spanCount => exact hspans
  case errorSpanCount => exact herrors
  case sum_spanCount =>
    rw [hspans, sum_services order ServiceSummary.spanCount (fun _ => true) hlen fun name => by simp [serviceSummary],
      List.countP_true]
  case sum_errorSpanCount =>
    rw [herrors, sum_services order ServiceSummary.errorSpanCount StoredSpan.isError hlen fun name => rfl]
  case minStart => exact isLeast_min hsort hsorted fun span hspan => (hfits span hspan).start
  case maxEnd => exact isGreatest_max hsort hsorted fun span hspan => (hfits span hspan).stop
  case orphanSpanCount =>
    rw [← toInt_countP trace hlen, ← orphans_eq hsort]
    rfl
  case root => exact namesRoot_summarize order trace

end Describes

section TwoRuns

variable {trace trace' : List StoredSpan} {summary summary' : TraceSummary}

lemma IsRoot.of_perm (hperm : trace.Perm trace') {span : StoredSpan} (h : IsRoot trace' span) : IsRoot trace span where
  mem := hperm.mem_iff.mpr h.mem
  parentless := h.parentless
  least span' hspan' := h.least span' (hperm.mem_iff.mp hspan')

lemma TraceSummary.NamesRoot.of_perm (hperm : trace.Perm trace') (h : summary.NamesRoot trace') :
    summary.NamesRoot trace := by
  rcases h with ⟨span, hroot, hnames⟩ | ⟨hnone, hnames⟩
  · exact .inl ⟨span, hroot.of_perm hperm, hnames⟩
  · exact .inr ⟨fun span hspan => hnone span (hperm.mem_iff.mp hspan), hnames⟩

/-- What is true of a trace in one order is true of it in every order. -/
lemma TraceSummary.Describes.of_perm (hperm : trace.Perm trace') (h : summary.Describes trace') :
    summary.Describes trace where
  services_nodup := h.services_nodup
  mem_services := by simpa only [hperm.mem_iff] using h.mem_services
  service_spanCount := by simpa only [hperm.countP_eq] using h.service_spanCount
  service_errorSpanCount := by simpa only [hperm.countP_eq] using h.service_errorSpanCount
  service_pos := h.service_pos
  spanCount := by simpa only [hperm.length_eq] using h.spanCount
  errorSpanCount := by simpa only [hperm.countP_eq] using h.errorSpanCount
  sum_spanCount := h.sum_spanCount
  sum_errorSpanCount := h.sum_errorSpanCount
  minStart := by simpa only [hperm.mem_iff] using h.minStart
  maxEnd := by simpa only [hperm.mem_iff] using h.maxEnd
  orphanSpanCount := by simpa only [hperm.mem_iff, hperm.countP_eq] using h.orphanSpanCount
  root := h.root.of_perm hperm

lemma services_perm_of_describes (h : summary.Describes trace) (h' : summary'.Describes trace) :
    summary.services.Perm summary'.services := by
  have hsubset : ∀ {s s' : TraceSummary}, s.Describes trace → s'.Describes trace →
      ∀ service ∈ s.services, service ∈ s'.services := by
    intro s s' hs hs' service hservice
    have hname : service.name ∈ s'.services.map ServiceSummary.name := by
      rw [hs'.mem_services, ← hs.mem_services]
      exact List.mem_map.mpr ⟨service, hservice, rfl⟩
    obtain ⟨service', hservice', heq⟩ := List.mem_map.mp hname
    have hspans : service'.spanCount = service.spanCount := by
      rw [← Int32.toInt_inj, hs'.service_spanCount service' hservice', hs.service_spanCount service hservice, heq]
    have herrors : service'.errorSpanCount = service.errorSpanCount := by
      rw [← Int32.toInt_inj, hs'.service_errorSpanCount service' hservice',
        hs.service_errorSpanCount service hservice, heq]
    cases service
    cases service'
    simp only at heq hspans herrors
    subst heq hspans herrors
    exact hservice'
  rw [List.perm_ext_iff_of_nodup h.services_nodup.of_map h'.services_nodup.of_map]
  exact fun service => ⟨hsubset h h' service, hsubset h' h service⟩

/-- The trace leaves open only the order of the services and the choice of the root. -/
lemma alike_of_describes (hid : summary.traceId = summary'.traceId) (h : summary.Describes trace)
    (h' : summary'.Describes trace) : summary.Alike trace summary' where
  traceId := hid
  minStart := UInt64.toNat_inj.mp (by exact_mod_cast h.minStart.unique h'.minStart)
  maxEnd := UInt64.toNat_inj.mp (by exact_mod_cast h.maxEnd.unique h'.maxEnd)
  spanCount := Int32.toInt_inj.mp (h.spanCount.trans h'.spanCount.symm)
  errorSpanCount := Int32.toInt_inj.mp (h.errorSpanCount.trans h'.errorSpanCount.symm)
  orphanSpanCount := Int32.toInt_inj.mp (h.orphanSpanCount.trans h'.orphanSpanCount.symm)
  services := services_perm_of_describes h h'
  root := by
    rcases h.root with ⟨span, hroot, hnames⟩ | ⟨hnone, hservice, hoperation⟩
    · rcases h'.root with ⟨span', hroot', hnames'⟩ | ⟨hnone', -⟩
      · have hstart : span.start = span'.start :=
          le_antisymm (hroot.least span' hroot'.mem hroot'.parentless) (hroot'.least span hroot.mem hroot.parentless)
        exact .inr ⟨span, hroot.mem, span', hroot'.mem, hroot.parentless, hroot'.parentless, hstart, hnames.1,
          hnames.2, hnames'.1, hnames'.2⟩
      · exact absurd hroot.parentless (hnone' span hroot.mem)
    · rcases h'.root with ⟨span', hroot', -⟩ | ⟨-, hservice', hoperation'⟩
      · exact absurd hroot'.parentless (hnone span' hroot'.mem)
      · exact .inl ⟨hservice.trans hservice'.symm, hoperation.trans hoperation'.symm⟩

end TwoRuns

section Summaries

variable {traceOrder traceOrder' : AnyOrder (List StoredSpan)}
  {serviceOrder serviceOrder' : Bytes → AnyOrder ServiceSummary} {spans spans' : List StoredSpan}

/-- The summary of one trace of the spans. -/
lemma describes_summarize_filter (order : AnyOrder ServiceSummary) (hlen : spans.length < 2 ^ 31)
    (hfits : ∀ span ∈ spans, span.TimesFit) {id : Bytes} (hid : id ∈ (spans.map StoredSpan.traceId).dedup) :
    (summarize order (spans.filter fun span => span.traceId = id)).Describes
      (spans.filter fun span => span.traceId = id) := by
  obtain ⟨span, hspan, hspanid⟩ := List.mem_map.mp (List.mem_dedup.mp hid)
  apply describes_summarize
  · exact List.ne_nil_of_mem (List.mem_filter.mpr ⟨hspan, decide_eq_true hspanid⟩)
  · exact Nat.lt_of_le_of_lt (List.length_filter_le _ _) hlen
  · exact fun s hs => hfits s (List.mem_filter.mp hs).1

lemma describes_of_mem_summaries (hlen : spans.length < 2 ^ 31) (hfits : ∀ span ∈ spans, span.TimesFit)
    {summary : TraceSummary} (h : summary ∈ summaries traceOrder serviceOrder spans) :
    summary.Describes (spans.filter fun span => span.traceId = summary.traceId) := by
  obtain ⟨id, hid, rfl⟩ := List.mem_map.mp (summaries_perm.mem_iff.mp h)
  have htrace := traceId_summarize_filter serviceOrder hid
  rw [Function.comp_apply] at htrace
  rw [htrace]
  exact describes_summarize_filter (serviceOrder id) hlen hfits hid

/-- The summaries of the same spans in two orders, put side by side. -/
lemma exists_alike_summaries (hlen : spans.length < 2 ^ 31) (hfits : ∀ span ∈ spans, span.TimesFit)
    (hperm : spans.Perm spans') :
    ∃ listed, List.Forall₂ (fun summary summary' : TraceSummary =>
        summary.Alike (spans.filter fun span => span.traceId = summary.traceId) summary')
      (summaries traceOrder serviceOrder spans) listed ∧
      listed.Perm (summaries traceOrder' serviceOrder' spans') := by
  have hpairs : List.Forall₂ (fun summary summary' : TraceSummary =>
        summary.Alike (spans.filter fun span => span.traceId = summary.traceId) summary')
      ((spans.map StoredSpan.traceId).dedup.map fun id =>
        summarize (serviceOrder id) (spans.filter fun span => span.traceId = id))
      ((spans.map StoredSpan.traceId).dedup.map fun id =>
        summarize (serviceOrder' id) (spans'.filter fun span => span.traceId = id)) := by
    rw [List.forall₂_map_left_iff, List.forall₂_map_right_iff, List.forall₂_same]
    intro id hid
    have hid' : id ∈ (spans'.map StoredSpan.traceId).dedup := (hperm.map StoredSpan.traceId).dedup.mem_iff.mp hid
    have htrace := traceId_summarize_filter serviceOrder hid
    have htrace' := traceId_summarize_filter serviceOrder' hid'
    rw [Function.comp_apply] at htrace htrace'
    rw [htrace]
    apply alike_of_describes (htrace.trans htrace'.symm) (describes_summarize_filter _ hlen hfits hid)
    apply TraceSummary.Describes.of_perm (hperm.filter _)
    apply describes_summarize_filter _ (hperm.length_eq ▸ hlen) _ hid'
    exact fun span hspan => hfits span (hperm.mem_iff.mpr hspan)
  have hsummaries : (summaries traceOrder serviceOrder spans).Perm
      ((spans.map StoredSpan.traceId).dedup.map fun id =>
        summarize (serviceOrder id) (spans.filter fun span => span.traceId = id)) := summaries_perm
  obtain ⟨listed, halike, hlisted⟩ := List.perm_comp_forall₂ hsummaries hpairs
  have hids := ((hperm.map StoredSpan.traceId).dedup.map fun id =>
    summarize (serviceOrder' id) (spans'.filter fun span => span.traceId = id))
  exact ⟨listed, halike, (hlisted.trans hids).trans summaries_perm.symm⟩

/-- There is one summary for each trace, it describes the trace, and the order of the spans
shows only in the order of the lists and in the choice between parentless spans that start together. -/
theorem summaries_consistent (traceOrder : AnyOrder (List StoredSpan)) (serviceOrder : Bytes → AnyOrder ServiceSummary)
    (spans : List StoredSpan) (hlen : spans.length < 2 ^ 31) (hfits : ∀ span ∈ spans, span.TimesFit) :
    ((summaries traceOrder serviceOrder spans).map TraceSummary.traceId).Perm
      (spans.map StoredSpan.traceId).dedup ∧
    (∀ summary ∈ summaries traceOrder serviceOrder spans,
      summary.Describes (spans.filter fun span => span.traceId = summary.traceId)) ∧
    ∀ (spans' : List StoredSpan) (traceOrder' : AnyOrder (List StoredSpan))
      (serviceOrder' : Bytes → AnyOrder ServiceSummary), spans.Perm spans' →
      ∃ listed, List.Forall₂ (fun summary summary' : TraceSummary =>
          summary.Alike (spans.filter fun span => span.traceId = summary.traceId) summary')
        (summaries traceOrder serviceOrder spans) listed ∧
        listed.Perm (summaries traceOrder' serviceOrder' spans') :=
  ⟨map_traceId_summaries_perm, fun _ h => describes_of_mem_summaries hlen hfits h,
    fun _ _ _ hperm => exists_alike_summaries hlen hfits hperm⟩

/-- A failed child that starts before its root. -/
def failedChild : List StoredSpan :=
  [⟨[1], [1], [], "a", "root", 5, 9, 0, []⟩, ⟨[1], [2], [1], "b", "call", 3, 7, 2, []⟩]

theorem summaries_consistent_failedChild :
    (∀ summary ∈ summaries AnyOrder.unchanged (fun _ => AnyOrder.unchanged) failedChild,
      summary.Describes (failedChild.filter fun span => span.traceId = summary.traceId)) ∧
      ((summaries AnyOrder.unchanged (fun _ => AnyOrder.unchanged) failedChild).map TraceSummary.traceId).Perm
        [[1]] := by
  have hfits : ∀ span ∈ failedChild, span.TimesFit := by
    rw [failedChild, List.forall_mem_cons, List.forall_mem_singleton]
    exact ⟨⟨by decide, by decide⟩, by decide, by decide⟩
  obtain ⟨hids, hdescribes, -⟩ :=
    summaries_consistent AnyOrder.unchanged (fun _ => AnyOrder.unchanged) failedChild (by decide) hfits
  rw [show (failedChild.map StoredSpan.traceId).dedup = [[1]] from by decide] at hids
  exact ⟨hdescribes, hids⟩

end Summaries

end OtelviewPostgres
