import OtelviewPostgres.Model.Externals

/-!
# Lossless codecs

Messages are countable, so there are byte codecs that lose nothing. What is assumed of
the protobuf codec can therefore be met.
-/

namespace OtelviewPostgres

section Values

inductive Sexp where
  | atom (n : ℕ)
  | node (l r : Sexp)
deriving Encodable

def Sexp.ofList : List Sexp → Sexp
  | [] => .atom 0
  | s :: l => .node s (ofList l)

lemma Sexp.ofList_injective : Function.Injective Sexp.ofList := by
  intro l m h
  induction l generalizing m with
  | nil => cases m with
    | nil => rfl
    | cons t m => cases h
  | cons s l ih => cases m with
    | nil => cases h
    | cons t m =>
      injection h with hs hl
      rw [hs, ih hl]

noncomputable def code {α : Type} [Countable α] : α → ℕ := (exists_injective_nat α).choose

lemma code_injective {α : Type} [Countable α] : Function.Injective (code : α → ℕ) :=
  (exists_injective_nat α).choose_spec

instance countable_char : Countable Char :=
  Function.Injective.countable (f := Char.toNat) fun _ _ h => Char.toNat_inj.mp h

instance countable_string : Countable String :=
  Function.Injective.countable (f := String.toList) fun _ _ h => String.toList_inj.mp h

instance : Countable F64 := Function.Injective.countable (f := F64.bits) fun ⟨_⟩ ⟨_⟩ h => congrArg F64.mk h

noncomputable def Sexp.leaf (tag : ℕ) {α : Type} [Countable α] (a : α) : Sexp := .node (.atom tag) (.atom (code a))

mutual

noncomputable def AnyValue.sexp : AnyValue → Sexp
  | .unset => .atom 0
  | .stringValue v => .leaf 0 v
  | .stringValueStrindex v => .leaf 1 v
  | .boolValue v => .leaf 2 v
  | .intValue v => .leaf 3 v
  | .doubleValue v => .leaf 4 v
  | .bytesValue v => .leaf 5 v
  | .arrayValue values => .node (.atom 6) (.ofList (elemSexps values))
  | .kvlistValue values => .node (.atom 7) (.ofList (entrySexps values))
termination_by structural v => v

noncomputable def AnyValue.elemSexps : List AnyValue → List Sexp
  | [] => []
  | v :: vs => sexp v :: elemSexps vs
termination_by structural v => v

noncomputable def AnyValue.entrySexps : List KeyValue → List Sexp
  | [] => []
  | kv :: kvs => entrySexp kv :: entrySexps kvs
termination_by structural v => v

noncomputable def AnyValue.entrySexp : KeyValue → Sexp
  | ⟨key, value⟩ => .node (.atom (code key)) (optionSexp value)
termination_by structural v => v

noncomputable def AnyValue.optionSexp : Option AnyValue → Sexp
  | none => .atom 0
  | some v => .node (.atom 0) (sexp v)
termination_by structural v => v

end

lemma Sexp.leaf_inj {tag : ℕ} {α : Type} [Countable α] {a b : α} (h : leaf tag a = leaf tag b) : a = b := by
  injection h with _ h
  injection h with h
  exact code_injective h

lemma elemSexps_inj {vs ws : List AnyValue} (ih : ∀ v ∈ vs, ∀ w, v.sexp = w.sexp → v = w)
    (h : AnyValue.elemSexps vs = AnyValue.elemSexps ws) : vs = ws := by
  induction vs generalizing ws with
  | nil => cases ws with
    | nil => rfl
    | cons w ws => cases h
  | cons v vs ihs => cases ws with
    | nil => cases h
    | cons w ws =>
      injection h with hv hvs
      rw [List.forall_mem_cons] at ih
      rw [ih.1 w hv, ihs ih.2 hvs]

lemma optionSexp_inj {o p : Option AnyValue} (ih : ∀ v ∈ o, ∀ w, v.sexp = w.sexp → v = w)
    (h : AnyValue.optionSexp o = AnyValue.optionSexp p) : o = p := by
  cases o with
  | none => cases p with
    | none => rfl
    | some w => cases h
  | some v => cases p with
    | none => cases h
    | some w =>
      injection h with _ h
      rw [ih v rfl w h]

lemma entrySexps_inj {kvs kws : List KeyValue} (ih : ∀ kv ∈ kvs, ∀ v ∈ kv.value, ∀ w, v.sexp = w.sexp → v = w)
    (h : AnyValue.entrySexps kvs = AnyValue.entrySexps kws) : kvs = kws := by
  induction kvs generalizing kws with
  | nil => cases kws with
    | nil => rfl
    | cons kw kws => cases h
  | cons kv kvs ihs => cases kws with
    | nil => cases h
    | cons kw kws =>
      obtain ⟨k, o⟩ := kv
      obtain ⟨l, p⟩ := kw
      injection h with hkv hkvs
      injection hkv with hkey hvalue
      injection hkey with hkey
      rw [List.forall_mem_cons] at ih
      have hkl : k = l := code_injective hkey
      have hop : o = p := optionSexp_inj ih.1 hvalue
      rw [hkl, hop, ihs ih.2 hkvs]

theorem AnyValue.sexp_injective : Function.Injective AnyValue.sexp := by
  intro v
  induction v using AnyValue.induct with
  | unset => intro w h; cases w <;> first | rfl | cases h
  | stringValue a =>
    intro w h
    cases w with
    | stringValue b => rw [Sexp.leaf_inj h]
    | _ => cases h
  | stringValueStrindex a =>
    intro w h
    cases w with
    | stringValueStrindex b => rw [Sexp.leaf_inj h]
    | _ => cases h
  | boolValue a =>
    intro w h
    cases w with
    | boolValue b => rw [Sexp.leaf_inj h]
    | _ => cases h
  | intValue a =>
    intro w h
    cases w with
    | intValue b => rw [Sexp.leaf_inj h]
    | _ => cases h
  | doubleValue a =>
    intro w h
    cases w with
    | doubleValue b => rw [Sexp.leaf_inj h]
    | _ => cases h
  | bytesValue a =>
    intro w h
    cases w with
    | bytesValue b => rw [Sexp.leaf_inj h]
    | _ => cases h
  | arrayValue vs ih =>
    intro w h
    cases w with
    | arrayValue ws =>
      injection h with _ h
      rw [elemSexps_inj (fun v hv w h => ih v hv h) (Sexp.ofList_injective h)]
    | _ => cases h
  | kvlistValue kvs ih =>
    intro w h
    cases w with
    | kvlistValue kws =>
      injection h with _ h
      rw [entrySexps_inj (fun kv hkv v hv w h => ih kv hkv v hv h) (Sexp.ofList_injective h)]
    | _ => cases h

instance : Countable AnyValue := AnyValue.sexp_injective.countable

end Values

section Messages

instance {α : Type} [Countable α] : Countable (KeyValueOf α) :=
  Function.Injective.countable (f := fun kv => (kv.key, kv.value)) fun ⟨_, _⟩ ⟨_, _⟩ h => by
    simpa using h

instance : Countable EntityRef :=
  Function.Injective.countable (f := fun e => (e.schemaUrl, e.type, e.idKeys, e.descriptionKeys))
    fun ⟨_, _, _, _⟩ ⟨_, _, _, _⟩ h => by simpa using h

instance : Countable Resource :=
  Function.Injective.countable (f := fun r => (r.attributes, r.droppedAttributesCount, r.entityRefs))
    fun ⟨_, _, _⟩ ⟨_, _, _⟩ h => by simpa using h

instance : Countable InstrumentationScope :=
  Function.Injective.countable (f := fun s => (s.name, s.version, s.attributes, s.droppedAttributesCount))
    fun ⟨_, _, _, _⟩ ⟨_, _, _, _⟩ h => by simpa using h

instance : Countable SpanEvent :=
  Function.Injective.countable (f := fun e => (e.timeUnixNano, e.name, e.attributes, e.droppedAttributesCount))
    fun ⟨_, _, _, _⟩ ⟨_, _, _, _⟩ h => by simpa using h

instance : Countable SpanLink :=
  Function.Injective.countable
    (f := fun l => (l.traceId, l.spanId, l.traceState, l.attributes, l.droppedAttributesCount, l.flags))
    fun ⟨_, _, _, _, _, _⟩ ⟨_, _, _, _, _, _⟩ h => by simpa using h

instance : Countable SpanStatus :=
  Function.Injective.countable (f := fun s => (s.message, s.code)) fun ⟨_, _⟩ ⟨_, _⟩ h => by simpa using h

instance : Countable Span :=
  Function.Injective.countable
    (f := fun s => ((s.traceId, s.spanId, s.traceState, s.parentSpanId, s.flags, s.name, s.kind,
      s.startTimeUnixNano), s.endTimeUnixNano, s.attributes, s.droppedAttributesCount, s.events,
      s.droppedEventsCount, s.links, s.droppedLinksCount, s.status))
    fun s t h => by
      cases s
      cases t
      simpa [and_assoc] using h

instance : Countable ScopeSpans :=
  Function.Injective.countable (f := fun s => (s.scope, s.spans, s.schemaUrl))
    fun ⟨_, _, _⟩ ⟨_, _, _⟩ h => by simpa using h

instance : Countable ResourceSpans :=
  Function.Injective.countable (f := fun r => (r.resource, r.scopeSpans, r.schemaUrl))
    fun ⟨_, _, _⟩ ⟨_, _, _⟩ h => by simpa using h

instance : Countable TracesData :=
  Function.Injective.countable (f := TracesData.resourceSpans) fun ⟨_⟩ ⟨_⟩ h => congrArg TracesData.mk h

instance : Countable LogRecord :=
  Function.Injective.countable
    (f := fun l => ((l.timeUnixNano, l.observedTimeUnixNano, l.severityNumber, l.severityText, l.body,
      l.attributes), l.droppedAttributesCount, l.flags, l.traceId, l.spanId, l.eventName))
    fun x y h => by
      cases x
      cases y
      simpa [and_assoc] using h

instance : Countable ScopeLogs :=
  Function.Injective.countable (f := fun s => (s.scope, s.logRecords, s.schemaUrl))
    fun ⟨_, _, _⟩ ⟨_, _, _⟩ h => by simpa using h

instance : Countable ResourceLogs :=
  Function.Injective.countable (f := fun r => (r.resource, r.scopeLogs, r.schemaUrl))
    fun ⟨_, _, _⟩ ⟨_, _, _⟩ h => by simpa using h

instance : Countable LogsData :=
  Function.Injective.countable (f := LogsData.resourceLogs) fun ⟨_⟩ ⟨_⟩ h => congrArg LogsData.mk h

instance : Countable NumberValue :=
  Function.Injective.countable (f := fun
    | .asDouble d => (.inl d : F64 ⊕ Int64)
    | .asInt i => .inr i) fun x y h => by
      cases x <;> cases y <;> simp_all

instance : Countable Exemplar :=
  Function.Injective.countable (f := fun e => (e.filteredAttributes, e.timeUnixNano, e.value, e.spanId, e.traceId))
    fun ⟨_, _, _, _, _⟩ ⟨_, _, _, _, _⟩ h => by simpa using h

instance : Countable NumberDataPoint :=
  Function.Injective.countable
    (f := fun n => (n.attributes, n.startTimeUnixNano, n.timeUnixNano, n.value, n.exemplars, n.flags))
    fun ⟨_, _, _, _, _, _⟩ ⟨_, _, _, _, _, _⟩ h => by simpa using h

instance : Countable HistogramDataPoint :=
  Function.Injective.countable
    (f := fun h => ((h.attributes, h.startTimeUnixNano, h.timeUnixNano, h.count, h.sum, h.bucketCounts),
      h.explicitBounds, h.exemplars, h.flags, h.min, h.max))
    fun x y h => by
      cases x
      cases y
      simpa [and_assoc] using h

instance : Countable Buckets :=
  Function.Injective.countable (f := fun b => (b.offset, b.bucketCounts))
    fun ⟨_, _⟩ ⟨_, _⟩ h => by simpa using h

instance : Countable ExponentialHistogramDataPoint :=
  Function.Injective.countable
    (f := fun e => ((e.attributes, e.startTimeUnixNano, e.timeUnixNano, e.count, e.sum, e.scale, e.zeroCount),
      e.positive, e.negative, e.flags, e.exemplars, e.min, e.max, e.zeroThreshold))
    fun x y h => by
      cases x
      cases y
      simpa [and_assoc] using h

instance : Countable ValueAtQuantile :=
  Function.Injective.countable (f := fun v => (v.quantile, v.value))
    fun ⟨_, _⟩ ⟨_, _⟩ h => by simpa using h

instance : Countable SummaryDataPoint :=
  Function.Injective.countable
    (f := fun s => ((s.attributes, s.startTimeUnixNano, s.timeUnixNano, s.count), s.sum, s.quantileValues, s.flags))
    fun x y h => by
      cases x
      cases y
      simpa [and_assoc] using h

instance : Countable Gauge :=
  Function.Injective.countable (f := Gauge.dataPoints) fun ⟨_⟩ ⟨_⟩ h => congrArg Gauge.mk h

instance : Countable Sum :=
  Function.Injective.countable (f := fun s => (s.dataPoints, s.aggregationTemporality, s.isMonotonic))
    fun ⟨_, _, _⟩ ⟨_, _, _⟩ h => by simpa using h

instance : Countable Histogram :=
  Function.Injective.countable (f := fun h => (h.dataPoints, h.aggregationTemporality))
    fun ⟨_, _⟩ ⟨_, _⟩ h => by simpa using h

instance : Countable ExponentialHistogram :=
  Function.Injective.countable (f := fun e => (e.dataPoints, e.aggregationTemporality))
    fun ⟨_, _⟩ ⟨_, _⟩ h => by simpa using h

instance : Countable Summary :=
  Function.Injective.countable (f := Summary.dataPoints) fun ⟨_⟩ ⟨_⟩ h => congrArg Summary.mk h

instance : Countable MetricData :=
  Function.Injective.countable (f := fun
    | .gauge g => (.inl g : Gauge ⊕ Sum ⊕ Histogram ⊕ ExponentialHistogram ⊕ Summary)
    | .sum s => .inr (.inl s)
    | .histogram h => .inr (.inr (.inl h))
    | .exponentialHistogram h => .inr (.inr (.inr (.inl h)))
    | .summary s => .inr (.inr (.inr (.inr s)))) fun x y h => by
      cases x <;> cases y <;> simp_all

instance : Countable Metric :=
  Function.Injective.countable (f := fun m => (m.name, m.description, m.unit, m.metadata, m.data))
    fun ⟨_, _, _, _, _⟩ ⟨_, _, _, _, _⟩ h => by simpa using h

instance : Countable ScopeMetrics :=
  Function.Injective.countable (f := fun s => (s.scope, s.metrics, s.schemaUrl))
    fun ⟨_, _, _⟩ ⟨_, _, _⟩ h => by simpa using h

instance : Countable ResourceMetrics :=
  Function.Injective.countable (f := fun r => (r.resource, r.scopeMetrics, r.schemaUrl))
    fun ⟨_, _, _⟩ ⟨_, _, _⟩ h => by simpa using h

instance : Countable MetricsData :=
  Function.Injective.countable (f := MetricsData.resourceMetrics) fun ⟨_⟩ ⟨_⟩ h => congrArg MetricsData.mk h

end Messages

open Classical in
/-- Encode a message as a run of zeros whose length numbers the messages. -/
noncomputable def Codec.counting (α : Type) [Countable α] : Codec α where
  encodeToVec a := List.replicate (code a) 0
  decode bytes := if h : ∃ a : α, List.replicate (code a) 0 = bytes then some h.choose else none

theorem Codec.lossless_counting (α : Type) [Countable α] : (Codec.counting α).Lossless := by
  intro a
  have h : ∃ b : α, List.replicate (code b) 0 = (List.replicate (code a) 0 : Bytes) := ⟨a, rfl⟩
  have hlen := congrArg List.length h.choose_spec
  rw [List.length_replicate, List.length_replicate] at hlen
  have hdecode : (Codec.counting α).decode ((Codec.counting α).encodeToVec a) = some h.choose := dif_pos h
  rw [hdecode, code_injective hlen]

end OtelviewPostgres
