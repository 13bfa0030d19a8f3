import OtelviewPostgres.Proofs.TraceSearches

/-!
# What a search for attributes matches

A search compares encodings: the attribute that is asked for and the columns of a row are made
JSON, and the database decides containment. Here the comparison is stated for the values that were
sent and exported, and the two are shown to agree on all of them.
-/

namespace OtelviewPostgres

open Relational

/-- Values that are stored as `null`. -/
def AnyValue.isNull : AnyValue → Bool
  | .unset => true
  | .doubleValue v => !v.isFinite
  | _ => false

/-- The text that a value is stored as. -/
def AnyValue.text : AnyValue → Option String
  | .stringValue v => some v
  | .bytesValue v => some (hex v)
  | _ => none

/-- The number that a value is stored as. -/
def AnyValue.numeric (env : Externals) : AnyValue → Option Jsonb.Numeric
  | .intValue v => some ⟨v.toInt, 0⟩
  | .stringValueStrindex v => some ⟨v.toInt, 0⟩
  | .doubleValue v => if v.isFinite then some (env.floatDigits v) else none
  | _ => none

section Shown

variable (env : Externals)

mutual

/-- The value shows what is asked for: the same text, the same number whatever its digits, a list
with something for each of the elements, entries under the same keys. -/
def QueryValue.ShownBy : QueryValue → AnyValue → Prop
  | .unset, v => v.isNull = true
  | .stringValue s, v => v.text = some s
  | .boolValue b, v => v = .boolValue b
  | .intValue n, v => ∃ m, v.numeric env = some m ∧ m.eqv ⟨n.toInt, 0⟩ = true
  | .doubleValue d, v =>
    if d.isFinite then ∃ m, v.numeric env = some m ∧ m.eqv (env.floatDigits d) = true else v.isNull = true
  | .bytesValue b, v => v.text = some (hex b)
  | .arrayValue qs, v => ∃ vs, v = .arrayValue vs ∧ QueryValue.ElemsShownBy qs vs
  | .kvlistValue kqs, v => ∃ kvs, v = .kvlistValue kvs ∧ QueryValue.EntriesShownBy kqs kvs
termination_by structural q => q

def QueryValue.ElemsShownBy : List QueryValue → List AnyValue → Prop
  | [], _ => True
  | q :: qs, vs => (∃ v ∈ vs, QueryValue.ShownBy q v) ∧ QueryValue.ElemsShownBy qs vs
termination_by structural q => q

/-- The last entry of a key counts. -/
def QueryValue.EntriesShownBy : List (KeyValueOf QueryValue) → List KeyValue → Prop
  | [], _ => True
  | kq :: kqs, kvs =>
    (kq.key ∈ kqs.map KeyValueOf.key ∨ QueryValue.EntryShownBy kq kvs) ∧ QueryValue.EntriesShownBy kqs kvs
termination_by structural q => q

def QueryValue.EntryShownBy : KeyValueOf QueryValue → List KeyValue → Prop
  | ⟨key, value⟩, kvs =>
    ∃ kv, effectiveAttribute kvs key = some kv ∧ QueryValue.OptionShownBy value (kv.value.getD .unset)
termination_by structural q => q

def QueryValue.OptionShownBy : Option QueryValue → AnyValue → Prop
  | none, v => v.isNull = true
  | some q, v => QueryValue.ShownBy q v
termination_by structural q => q

end

end Shown

/-- Induction over the values of queries, as over those of exports. -/
@[elab_as_elim]
theorem QueryValue.induct {motive : QueryValue → Prop} (unset : motive unset)
    (stringValue : ∀ v, motive (stringValue v)) (boolValue : ∀ v, motive (boolValue v))
    (intValue : ∀ v, motive (intValue v)) (doubleValue : ∀ v, motive (doubleValue v))
    (arrayValue : ∀ vs, (∀ v ∈ vs, motive v) → motive (arrayValue vs))
    (kvlistValue : ∀ kvs : List (KeyValueOf QueryValue), (∀ kv ∈ kvs, ∀ v ∈ kv.value, motive v) →
      motive (kvlistValue kvs))
    (bytesValue : ∀ v, motive (bytesValue v)) (v : QueryValue) : motive v := by
  refine @QueryValue.rec motive (fun vs => ∀ v ∈ vs, motive v) (fun kvs => ∀ kv ∈ kvs, ∀ v ∈ kv.value, motive v)
    (fun kv => ∀ v ∈ kv.value, motive v) (fun o => ∀ v ∈ o, motive v) unset stringValue boolValue intValue doubleValue
    arrayValue kvlistValue bytesValue ?_ ?_ ?_ ?_ ?_ ?_ ?_ v
  · simp
  · intro v vs hv hvs w hw
    rcases List.mem_cons.mp hw with rfl | hw
    · exact hv
    · exact hvs w hw
  · simp
  · intro kv kvs hkv hkvs l hl
    rcases List.mem_cons.mp hl with rfl | hl
    · exact hkv
    · exact hkvs l hl
  · exact fun _ _ hv => hv
  · simp
  · intro v hv w hw
    obtain rfl := Option.mem_some_iff.mp hw
    exact hv

section Maps

variable {α : Type}

lemma forall_mapInsert {P : String × α → Prop} {k : String} {v : α} {m : List (String × α)} (hkv : P (k, v))
    (h : ∀ e ∈ m, P e) : ∀ e ∈ mapInsert k v m, P e := by
  induction m with
  | nil => exact List.forall_mem_singleton.mpr hkv
  | cons e m ih =>
    obtain ⟨l, w⟩ := e
    have hrest := (List.forall_mem_cons.mp h).2
    unfold mapInsert
    split
    · exact List.forall_mem_cons.mpr ⟨hkv, h⟩
    · split
      · exact List.forall_mem_cons.mpr ⟨hkv, hrest⟩
      · exact List.forall_mem_cons.mpr ⟨(List.forall_mem_cons.mp h).1, ih hrest⟩

lemma pairwise_mapInsert {m : List (String × α)} (h : m.Pairwise fun e f => e.1 < f.1) (k : String) (v : α) :
    (mapInsert k v m).Pairwise fun e f => e.1 < f.1 := by
  induction m with
  | nil => exact List.pairwise_singleton _ _
  | cons e m ih =>
    obtain ⟨l, w⟩ := e
    obtain ⟨hhead, htail⟩ := List.pairwise_cons.mp h
    unfold mapInsert
    split
    · rename_i hlt
      exact List.pairwise_cons.mpr ⟨List.forall_mem_cons.mpr ⟨hlt, fun e he => hlt.trans (hhead e he)⟩, h⟩
    · split
      · rename_i heq
        exact List.pairwise_cons.mpr ⟨fun e he => heq ▸ hhead e he, htail⟩
      · rename_i hnlt hne
        have hlt : l < k := lt_of_le_of_ne (not_lt.mp hnlt) (Ne.symm hne)
        exact List.pairwise_cons.mpr ⟨forall_mapInsert hlt hhead, ih htail⟩

/-- The keys of a map are in order, and each of them occurs once. -/
lemma pairwise_collectMap (entries : List (String × α)) : (collectMap entries).Pairwise fun e f => e.1 < f.1 := by
  induction entries using List.reverseRecOn with
  | nil => exact .nil
  | append_singleton es e ih =>
    rw [collectMap, List.foldl_append]
    exact pairwise_mapInsert ih e.1 e.2

lemma mem_collectMap_iff {entries : List (String × α)} {k : String} {v : α} :
    (k, v) ∈ collectMap entries ↔ mapGet (collectMap entries) k = some v := by
  refine ⟨fun hmem => ?_, mem_of_mapGet⟩
  have hnodup : ((collectMap entries).map Prod.fst).Nodup := by
    rw [List.Nodup, List.pairwise_map]
    exact (pairwise_collectMap entries).imp fun hlt => hlt.ne
  have hlookup := (KeyedTable.lookup_eq_some_iff ⟨collectMap entries, hnodup⟩ k (k, v)).mpr ⟨hmem, rfl⟩
  unfold KeyedTable.lookup at hlookup
  rw [mapGet, hlookup]
  rfl

end Maps

section Containment

variable (floatDigits : F64 → Jsonb.Numeric)

lemma contains_array_iff (vs ws : List Json) :
    ((Json.array vs).toJsonb floatDigits).contains ((Json.array ws).toJsonb floatDigits) = true ↔
      ∀ w ∈ ws, ∃ v ∈ vs, (v.toJsonb floatDigits).contains (w.toJsonb floatDigits) = true := by
  rw [Json.toJsonb, Json.toJsonb, Jsonb.Value.contains, Jsonb.Value.containsElems_iff, toJsonbElems_eq_map,
    toJsonbElems_eq_map, List.forall_mem_map]
  simp only [List.mem_map, exists_exists_and_eq_and]

/-- A map contains another one if it does under each of its keys. -/
lemma contains_object_iff (es fs : List (String × Json)) :
    ((Json.object (collectMap es)).toJsonb floatDigits).contains
        ((Json.object (collectMap fs)).toJsonb floatDigits) = true ↔
      ∀ k w, mapGet (collectMap fs) k = some w →
        ∃ v, mapGet (collectMap es) k = some v ∧ (v.toJsonb floatDigits).contains (w.toJsonb floatDigits) = true := by
  rw [Json.toJsonb, Json.toJsonb, Jsonb.Value.contains, Jsonb.Value.containsEntries_iff]
  simp only [List.mem_insertionSort, toJsonbEntries_eq_map]
  constructor
  · intro h k w hw
    obtain ⟨e, he, hkey, hcontains⟩ := h _ (List.mem_map_of_mem (mem_of_mapGet hw))
    obtain ⟨⟨l, v⟩, hv, rfl⟩ := List.mem_map.mp he
    obtain rfl : l = k := hkey
    exact ⟨v, mem_collectMap_iff.mp hv, hcontains⟩
  · intro h f hf
    obtain ⟨⟨k, w⟩, hw, rfl⟩ := List.mem_map.mp hf
    obtain ⟨v, hv, hcontains⟩ := h k w (mem_collectMap_iff.mp hw)
    exact ⟨_, List.mem_map_of_mem (mem_of_mapGet hv), rfl, hcontains⟩

end Containment

section Encoded

variable (env : Externals)

/-- The value as it is stored contains the other. -/
def AnyValue.Contains (v : AnyValue) (w : Jsonb.Value) : Prop :=
  ((otelValueToJson v).toJsonb env.floatDigits).contains w = true

variable (v : AnyValue)

lemma toJsonb_ofF64 (d : F64) :
    (Json.ofF64 d).toJsonb env.floatDigits = if d.isFinite then .number (env.floatDigits d) else .null := by
  unfold Json.ofF64
  split <;> rfl

lemma contains_null_iff : v.Contains env .null ↔ v.isNull = true := by
  unfold AnyValue.Contains
  cases v with
  | doubleValue d =>
    rw [otelValueToJson, toJsonb_ofF64]
    cases hd : d.isFinite <;> simp [AnyValue.isNull, hd, Jsonb.Value.contains]
  | _ => simp [otelValueToJson, Json.ofInt32, Json.ofInt64, Json.toJsonb, Jsonb.Value.contains, AnyValue.isNull]

lemma contains_string_iff (s : String) : v.Contains env (.string s) ↔ v.text = some s := by
  unfold AnyValue.Contains
  cases v with
  | doubleValue d =>
    rw [otelValueToJson, toJsonb_ofF64]
    cases d.isFinite <;> simp [AnyValue.text, Jsonb.Value.contains]
  | _ => simp [otelValueToJson, Json.ofInt32, Json.ofInt64, Json.toJsonb, Jsonb.Value.contains, AnyValue.text]

lemma contains_bool_iff (b : Bool) : v.Contains env (.bool b) ↔ v = .boolValue b := by
  unfold AnyValue.Contains
  cases v with
  | doubleValue d =>
    rw [otelValueToJson, toJsonb_ofF64]
    cases d.isFinite <;> simp [Jsonb.Value.contains]
  | _ => simp [otelValueToJson, Json.ofInt32, Json.ofInt64, Json.toJsonb, Jsonb.Value.contains]

lemma contains_number_iff (n : Jsonb.Numeric) :
    v.Contains env (.number n) ↔ ∃ m, v.numeric env = some m ∧ m.eqv n = true := by
  unfold AnyValue.Contains
  cases v with
  | doubleValue d =>
    rw [otelValueToJson, toJsonb_ofF64]
    cases hd : d.isFinite <;> simp [AnyValue.numeric, hd, Jsonb.Value.contains]
  | _ =>
    simp [otelValueToJson, Json.ofInt32, Json.ofInt64, Json.toJsonb, Number.toNumeric, Jsonb.Value.contains,
      AnyValue.numeric]

lemma queryValuesToJson_eq_map (qs : List QueryValue) : queryValuesToJson qs = qs.map queryValueToJson := by
  induction qs with
  | nil => rfl
  | cons q qs ih => rw [queryValuesToJson, ih, List.map_cons]

lemma contains_elems_iff (ws : List Json) :
    v.Contains env ((Json.array ws).toJsonb env.floatDigits) ↔ ∃ vs, v = .arrayValue vs ∧
      ∀ w ∈ ws, ∃ u ∈ vs, u.Contains env (w.toJsonb env.floatDigits) := by
  cases v with
  | arrayValue vs =>
    have hcontains : (AnyValue.arrayValue vs).Contains env ((Json.array ws).toJsonb env.floatDigits) ↔
        ∀ w ∈ ws, ∃ u ∈ otelValuesToJson vs,
          (u.toJsonb env.floatDigits).contains (w.toJsonb env.floatDigits) = true :=
      contains_array_iff env.floatDigits (otelValuesToJson vs) ws
    rw [hcontains, otelValuesToJson_eq_map]
    simp only [List.mem_map, exists_exists_and_eq_and, AnyValue.arrayValue.injEq, exists_eq_left', AnyValue.Contains]
  | doubleValue d =>
    unfold AnyValue.Contains
    rw [otelValueToJson, toJsonb_ofF64]
    cases d.isFinite <;> simp [Json.toJsonb, Jsonb.Value.contains]
  | _ => simp [AnyValue.Contains, otelValueToJson, Json.ofInt32, Json.ofInt64, Json.toJsonb, Jsonb.Value.contains]

lemma mapGet_otelEntries (kvs : List KeyValue) (k : String) :
    mapGet (collectMap (otelEntriesToJson kvs)) k =
      (effectiveAttribute kvs k).map fun kv => otelValueToJson (kv.value.getD .unset) := by
  have hoption : ∀ value : Option AnyValue, otelOptionToJson value = otelValueToJson (value.getD .unset) := by
    intro value
    cases value <;> rfl
  have hget := mapGet_attributesToJson kvs k
  simp only [hoption] at hget
  exact hget

lemma contains_entries_iff (es : List (String × Json)) :
    v.Contains env ((Json.object (collectMap es)).toJsonb env.floatDigits) ↔ ∃ kvs, v = .kvlistValue kvs ∧
      ∀ k w, mapGet (collectMap es) k = some w → ∃ kv, effectiveAttribute kvs k = some kv ∧
        (kv.value.getD .unset).Contains env (w.toJsonb env.floatDigits) := by
  cases v with
  | kvlistValue kvs =>
    have hcontains : (AnyValue.kvlistValue kvs).Contains env ((Json.object (collectMap es)).toJsonb env.floatDigits) ↔
        ∀ k w, mapGet (collectMap es) k = some w →
          ∃ u, mapGet (collectMap (otelEntriesToJson kvs)) k = some u ∧
            (u.toJsonb env.floatDigits).contains (w.toJsonb env.floatDigits) = true :=
      contains_object_iff env.floatDigits (otelEntriesToJson kvs) es
    rw [hcontains]
    simp only [mapGet_otelEntries, Option.map_eq_some_iff, AnyValue.kvlistValue.injEq, exists_eq_left',
      AnyValue.Contains]
    simp only [exists_exists_and_eq_and]
  | doubleValue d =>
    unfold AnyValue.Contains
    rw [otelValueToJson, toJsonb_ofF64]
    cases d.isFinite <;> simp [Json.toJsonb, Jsonb.Value.contains]
  | _ => simp [AnyValue.Contains, otelValueToJson, Json.ofInt32, Json.ofInt64, Json.toJsonb, Jsonb.Value.contains]

/-! ### What is asked for -/

lemma mapGet_queryEntries (kqs : List (KeyValueOf QueryValue)) (k : String) :
    mapGet (collectMap (queryEntriesToJson kqs)) k =
      (kqs.reverse.find? fun kq => kq.key = k).map fun kq => queryOptionToJson kq.value := by
  have hentries : queryEntriesToJson kqs = kqs.map fun kq => (kq.key, queryOptionToJson kq.value) := by
    induction kqs with
    | nil => rfl
    | cons kq kqs ih => rw [queryEntriesToJson, ih, List.map_cons, queryEntryToJson]
  rw [mapGet_collectMap, hentries, ← List.map_reverse, List.find?_map, Option.map_map]
  rfl

lemma elemsShownBy_iff (qs : List QueryValue) (vs : List AnyValue) :
    QueryValue.ElemsShownBy env qs vs ↔ ∀ q ∈ qs, ∃ u ∈ vs, q.ShownBy env u := by
  induction qs with
  | nil => simp [QueryValue.ElemsShownBy]
  | cons q qs ih => rw [QueryValue.ElemsShownBy, ih, List.forall_mem_cons]

/-- The last entry of each key is shown. -/
lemma entriesShownBy_iff (kqs : List (KeyValueOf QueryValue)) (kvs : List KeyValue) :
    QueryValue.EntriesShownBy env kqs kvs ↔ ∀ k kq, (kqs.reverse.find? fun kq => kq.key = k) = some kq →
      QueryValue.EntryShownBy env kq kvs := by
  induction kqs with
  | nil => simp [QueryValue.EntriesShownBy]
  | cons kq kqs ih =>
    have hfind : ∀ k, ((kq :: kqs).reverse.find? fun kq => kq.key = k) =
        (kqs.reverse.find? fun kq => kq.key = k).or (if kq.key = k then some kq else none) := by
      intro k
      rw [List.reverse_cons, List.find?_append, List.find?_singleton]
      simp only [decide_eq_true_eq]
    rw [QueryValue.EntriesShownBy, ih]
    constructor
    · rintro ⟨hhead, hrest⟩ k kq' hkq'
      rw [hfind] at hkq'
      cases hlast : kqs.reverse.find? fun kq => kq.key = k with
      | some kq'' =>
        rw [hlast, Option.some_or] at hkq'
        exact Option.some.inj hkq' ▸ hrest k kq'' hlast
      | none =>
        rw [hlast, Option.none_or, Option.ite_none_right_eq_some] at hkq'
        obtain ⟨rfl, hsome⟩ := hkq'
        refine Option.some.inj hsome ▸ hhead.resolve_left fun hmem => ?_
        obtain ⟨kq'', hkq'', hkey⟩ := List.mem_map.mp hmem
        exact List.find?_eq_none.mp hlast kq'' (List.mem_reverse.mpr hkq'') (decide_eq_true hkey)
    · intro h
      refine ⟨?_, fun k kq' hkq' => h k kq' ?_⟩
      · by_cases hmem : kq.key ∈ kqs.map KeyValueOf.key
        · exact .inl hmem
        · right
          apply h kq.key
          rw [hfind, if_pos rfl, List.find?_eq_none.mpr, Option.none_or]
          intro kq' hkq' hkey
          exact hmem (List.mem_map.mpr ⟨kq', List.mem_reverse.mp hkq', of_decide_eq_true hkey⟩)
      · rw [hfind, hkq', Option.some_or]

variable {v}

lemma contains_option_iff {o : Option QueryValue}
    (ih : ∀ q ∈ o, ∀ v : AnyValue, v.Contains env ((queryValueToJson q).toJsonb env.floatDigits) ↔ q.ShownBy env v) :
    v.Contains env ((queryOptionToJson o).toJsonb env.floatDigits) ↔ QueryValue.OptionShownBy env o v := by
  cases o with
  | none => exact contains_null_iff env v
  | some q => exact ih q rfl v

/-- A stored value contains what is asked for if and only if the exported value shows it. -/
theorem contains_iff_shownBy (q : QueryValue) :
    ∀ v : AnyValue, v.Contains env ((queryValueToJson q).toJsonb env.floatDigits) ↔ q.ShownBy env v := by
  induction q using QueryValue.induct with
  | unset => exact contains_null_iff env
  | stringValue s => exact fun v => contains_string_iff env v s
  | boolValue b => exact fun v => contains_bool_iff env v b
  | intValue n => exact fun v => contains_number_iff env v _
  | bytesValue b => exact fun v => contains_string_iff env v (hex b)
  | doubleValue d =>
    intro v
    rw [queryValueToJson, toJsonb_ofF64, QueryValue.ShownBy]
    split
    · exact contains_number_iff env v _
    · exact contains_null_iff env v
  | arrayValue qs ih =>
    intro v
    rw [queryValueToJson, contains_elems_iff, QueryValue.ShownBy, queryValuesToJson_eq_map]
    simp only [elemsShownBy_iff, List.forall_mem_map]
    refine exists_congr fun vs => and_congr_right fun _ => forall₂_congr fun q hq => exists_congr fun u => ?_
    exact and_congr_right fun _ => ih q hq u
  | kvlistValue kqs ih =>
    intro v
    rw [queryValueToJson, contains_entries_iff, QueryValue.ShownBy]
    simp only [entriesShownBy_iff, mapGet_queryEntries]
    refine exists_congr fun kvs => and_congr_right fun _ => forall_congr' fun k => ?_
    cases hfind : kqs.reverse.find? fun kq => kq.key = k with
    | none => simp
    | some kq =>
      have hmem : kq ∈ kqs := List.mem_reverse.mp (List.mem_of_find?_eq_some hfind)
      have hkey : kq.key = k := by simpa using List.find?_some hfind
      simp only [Option.map_some, Option.some.injEq, forall_eq']
      obtain ⟨key, value⟩ := kq
      obtain rfl : key = k := hkey
      rw [QueryValue.EntryShownBy]
      exact exists_congr fun kv => and_congr_right fun _ => contains_option_iff env (ih _ hmem)

end Encoded

section Conditions

variable {α : Type} {p : Prop} [Decidable p] {a : α} {P : α → Prop}

lemma forall_mem_unless : (∀ x ∈ if p then [] else [a], P x) ↔ p ∨ P a := by
  split
  next h => simp [h]
  next h => simp [h]

lemma forall_mem_when : (∀ x ∈ if p then [a] else [], P x) ↔ ¬ p ∨ P a := by
  split
  next h => simp [h]
  next h => simp [h]

end Conditions

section Queries

variable (env : Externals)

/-- The effective attribute of the key shows what is asked for. -/
def ShownIn (attributes : List KeyValue) (kv : KeyValueOf QueryValue) : Prop :=
  ∃ kv', effectiveAttribute attributes kv.key = some kv' ∧
    QueryValue.OptionShownBy env kv.value (kv'.value.getD .unset)

/-- What the query asks for, each bound read as nanoseconds and a duration of zero as none. -/
structure TraceQueryParameters.AskedOf (query : TraceQueryParameters) (x : InContext Span) : Prop where
  serviceName : query.serviceName = "" ∨ query.serviceName = resourceService x.resource
  operationName : query.operationName = "" ∨ query.operationName = x.item.name
  startTimeMin : ∀ ts ∈ query.startTimeMin, ∀ n, timestampToNanos ts = .ok n → n ≤ x.item.startTimeUnixNano.toNat
  startTimeMax : ∀ ts ∈ query.startTimeMax, ∀ n, timestampToNanos ts = .ok n → x.item.startTimeUnixNano.toNat < n
  durationMin : ∀ d ∈ query.durationMin, ∀ n, durationToNanos d = .ok n →
    n = 0 ∨ n ≤ (x.item.endTimeUnixNano.toNat : Int) - x.item.startTimeUnixNano.toNat
  durationMax : ∀ d ∈ query.durationMax, ∀ n, durationToNanos d = .ok n →
    n = 0 ∨ (x.item.endTimeUnixNano.toNat : Int) - x.item.startTimeUnixNano.toNat ≤ n
  attributes : ∀ kv ∈ query.attributes, ShownIn env x.item.attributes kv ∨
    ShownIn env ((x.resource.map Resource.attributes).getD []) kv ∨
    ShownIn env ((x.scope.map InstrumentationScope.attributes).getD []) kv

variable {env} {x : InContext Span} {row : SpanRow}

/-- A column contains the attribute that is asked for if and only if the attributes show it. -/
lemma containedIn_iff_shownIn (attributes : List KeyValue) (kv : KeyValueOf QueryValue) :
    Json.containedIn env (.object [(kv.key, queryOptionToJson kv.value)]) (attributesToJson attributes) = true ↔
      ShownIn env attributes kv := by
  have hone : collectMap [(kv.key, queryOptionToJson kv.value)] = [(kv.key, queryOptionToJson kv.value)] := rfl
  have hcontains := contains_object_iff env.floatDigits (otelEntriesToJson attributes)
    [(kv.key, queryOptionToJson kv.value)]
  rw [hone] at hcontains
  refine hcontains.trans ?_
  simp only [mapGet_otelEntries]
  unfold ShownIn
  constructor
  · intro h
    obtain ⟨v, hv, hcontained⟩ := h kv.key (queryOptionToJson kv.value) (by simp [mapGet])
    obtain ⟨kv', hkv', rfl⟩ := Option.map_eq_some_iff.mp hv
    exact ⟨kv', hkv', (contains_option_iff env fun q _ => contains_iff_shownBy env q).mp hcontained⟩
  · rintro ⟨kv', hkv', hshown⟩ k w hw
    have hkw : kv.key = k ∧ queryOptionToJson kv.value = w := by
      by_cases hk : kv.key = k
      · simpa [mapGet, hk] using hw
      · simp [mapGet, hk] at hw
    obtain ⟨rfl, rfl⟩ := hkw
    rw [hkv']
    exact ⟨_, rfl, (contains_option_iff env fun q _ => contains_iff_shownBy env q).mpr hshown⟩

lemma timeBound_holds_iff {ts : Option Timestamp} {condition : Int → SpanCondition} {conditions : List SpanCondition}
    (h : timeBound ts condition = .ok conditions) :
    (∀ c ∈ conditions, c.holds env row = true) ↔
      ∀ ts' ∈ ts, ∀ n, timestampToNanos ts' = .ok n → (condition n).holds env row = true := by
  cases ts with
  | none =>
    cases h
    simp
  | some ts =>
    obtain ⟨n, hn, h⟩ := bind_eq_ok.mp h
    obtain rfl := Except.ok.inj h
    simp [hn]

lemma durationBound_holds_iff {d : Option Duration} {condition : Int → SpanCondition} {bound : Option Int}
    (h : durationBound d = .ok bound) :
    (∀ c ∈ bound.toList.map condition, c.holds env row = true) ↔
      ∀ d' ∈ d, ∀ n, durationToNanos d' = .ok n → n = 0 ∨ (condition n).holds env row = true := by
  cases d with
  | none =>
    cases h
    simp
  | some d =>
    obtain ⟨n, hn, h⟩ := bind_eq_ok.mp h
    obtain rfl := Except.ok.inj h
    by_cases hzero : n = 0
    · simp [hn, hzero]
    · simp [hn, hzero]

/-- The row of a span meets the conditions of a query if and only if the span has what it asks for. -/
theorem holds_iff_askedOf {query : TraceQueryParameters} {conditions : List SpanCondition}
    (h : spanItemRow env x = .ok row) (happly : applyQuery query = .ok conditions) :
    (∀ c ∈ conditions, c.holds env row = true) ↔ query.AskedOf env x := by
  obtain ⟨-, -, hstart, hend, -⟩ := spanItemRow_eq_ok env h
  obtain ⟨hservice, hoperation, hduration, hspan, hresource, hscope⟩ := searched_columns_eq h
  obtain ⟨startMin, hs1, happly⟩ := bind_eq_ok.mp happly
  obtain ⟨startMax, hs2, happly⟩ := bind_eq_ok.mp happly
  obtain ⟨durMin, hd1, happly⟩ := bind_eq_ok.mp happly
  obtain ⟨durMax, hd2, happly⟩ := bind_eq_ok.mp happly
  obtain rfl := Except.ok.inj happly
  have hattributes : (∀ c ∈ query.attributes.map fun kv =>
      SpanCondition.hasAttribute (.object [(kv.key, queryOptionToJson kv.value)]), c.holds env row = true) ↔
        ∀ kv ∈ query.attributes, ShownIn env x.item.attributes kv ∨
          ShownIn env ((x.resource.map Resource.attributes).getD []) kv ∨
          ShownIn env ((x.scope.map InstrumentationScope.attributes).getD []) kv := by
    rw [List.forall_mem_map]
    apply forall₂_congr
    intro kv _
    simp only [SpanCondition.holds, hspan, hresource, hscope, Bool.or_eq_true, or_assoc]
    exact or_congr (containedIn_iff_shownIn _ kv)
      (or_congr (containedIn_iff_shownIn _ kv) (containedIn_iff_shownIn _ kv))
  simp only [List.forall_mem_append]
  rw [forall_mem_unless, forall_mem_unless, timeBound_holds_iff hs1, timeBound_holds_iff hs2,
    durationBound_holds_iff hd1, durationBound_holds_iff hd2, hattributes]
  simp only [SpanCondition.holds, decide_eq_true_iff, beq_iff_eq, String.isEmpty_iff, hservice, hoperation, hstart,
    hduration]
  constructor
  · rintro ⟨⟨⟨⟨⟨⟨h1, h2⟩, h3⟩, h4⟩, h5⟩, h6⟩, h7⟩
    exact ⟨h1.imp_right Eq.symm, h2.imp_right Eq.symm, h3, h4, h5, h6, h7⟩
  · rintro ⟨h1, h2, h3, h4, h5, h6, h7⟩
    exact ⟨⟨⟨⟨⟨⟨h1.imp_right Eq.symm, h2.imp_right Eq.symm⟩, h3⟩, h4⟩, h5⟩, h6⟩, h7⟩

end Queries

/-- Every stored span is that of some exported one. -/
lemma exists_spanItem {env : Externals} {s : Store} (hs : s.Reachable env) :
    ∀ row ∈ s.spans.rows, ∃ x, spanItemRow env x = .ok row := by
  have hitems : RowProperty.OfItems { span := fun row => ∃ x, spanItemRow env x = .ok row } env :=
    ⟨fun _ h => ⟨_, h⟩, fun _ => trivial, fun _ _ _ _ => trivial⟩
  exact (hitems.ofStore hs).spans

section Found

variable {env : Externals} {groups : OrderBy TraceGroup TraceGroup.NotOlder} {t : SpansTable}

lemma map_traceId_findIds {maxSearchDepth : ℕ} {query : TraceQueryParameters} {found : List FoundTraceId}
    (h : findIds env maxSearchDepth none groups query t = .ok found) :
    ∃ conditions, applyQuery query = .ok conditions ∧ found.map FoundTraceId.traceId =
      listedTraces env groups (searchDepth maxSearchDepth query.searchDepth) conditions t := by
  obtain ⟨conditions, happly, h⟩ := bind_eq_ok.mp h
  obtain rfl := Except.ok.inj h
  refine ⟨conditions, happly, ?_⟩
  rw [List.map_map]
  rfl

/-- A list that is not full has every trace with a matching span. -/
lemma mem_listedTraces_of_short {limit : ℕ} {conditions : List SpanCondition}
    (hshort : (listedTraces env groups limit conditions t).length < limit) {row : SpanRow} (hrow : row ∈ t.rows)
    (hholds : ∀ c ∈ conditions, c.holds env row = true) :
    row.traceId ∈ listedTraces env groups limit conditions t := by
  obtain ⟨g, hg, hid⟩ := mem_matchingTraces hrow hholds
  have hall : (groups.sort (matchingTraces env conditions t)).take limit =
      groups.sort (matchingTraces env conditions t) := by
    apply List.take_of_length_le
    rw [length_listedTraces] at hshort
    rw [OrderBy.length_sort]
    omega
  rw [listedTraces, hall, ← hid]
  exact List.mem_map_of_mem ((groups.mem_sort _ g).mpr hg)

end Found

/-- A search lists only traces of which some span has everything that the query asks for, the
attributes compared as values, and it lists all of them unless it lists as many as its depth. -/
theorem search_finds_asked (env : Externals) (s : Store) (hs : s.Reachable env) (maxSearchDepth : ℕ)
    (groups : OrderBy TraceGroup TraceGroup.NotOlder) (query : TraceQueryParameters) (found : List FoundTraceId)
    (hfound : findIds env maxSearchDepth none groups query s.spans = .ok found) :
    found.length ≤ searchDepth maxSearchDepth query.searchDepth ∧
      (∀ id ∈ found.map FoundTraceId.traceId, ∃ row ∈ s.spans.rows, ∃ x : InContext Span,
        spanItemRow env x = .ok row ∧ x.item.traceId = id ∧ query.AskedOf env x) ∧
      (found.length < searchDepth maxSearchDepth query.searchDepth → ∀ row ∈ s.spans.rows, ∀ x : InContext Span,
        spanItemRow env x = .ok row → query.AskedOf env x → x.item.traceId ∈ found.map FoundTraceId.traceId) := by
  obtain ⟨conditions, happly, hlisted⟩ := map_traceId_findIds hfound
  have hrowId : ∀ {x : InContext Span} {row : SpanRow}, spanItemRow env x = .ok row → row.traceId = x.item.traceId :=
    fun h => congrArg Prod.fst (spanItemRow_eq_ok env h).2.2.2.2
  rw [← List.length_map (f := FoundTraceId.traceId), hlisted]
  refine ⟨length_listedTraces_le, fun id hid => ?_, fun hshort row hrow x hx hasked => ?_⟩
  · obtain ⟨row, hrow, rfl, hholds⟩ := exists_of_mem_listedTraces hid
    obtain ⟨x, hx⟩ := exists_spanItem hs row hrow
    exact ⟨row, hrow, x, hx, (hrowId hx).symm, (holds_iff_askedOf hx happly).mp hholds⟩
  · rw [← hrowId hx]
    exact mem_listedTraces_of_short hshort hrow ((holds_iff_askedOf hx happly).mpr hasked)

/-- A store with the span of nested attributes and another one. -/
def nestedStored : Store where
  spans := (write .inert {} (exportOf [nestedSpan, spanOf 2 "b" 6]) ∅).2

theorem search_finds_asked_nested :
    ∃ found, findIds .inert 20 none (.stable TraceGroup.NotOlder) nestedQuery nestedStored.spans = .ok found ∧
      ∀ id ∈ found.map FoundTraceId.traceId, ∃ row ∈ nestedStored.spans.rows, ∃ x : InContext Span,
        spanItemRow .inert x = .ok row ∧ x.item.traceId = id ∧ nestedQuery.AskedOf .inert x :=
  ⟨_, rfl, (search_finds_asked .inert nestedStored (.write {} (exportOf [nestedSpan, spanOf 2 "b" 6]) .empty) 20
    (.stable TraceGroup.NotOlder) nestedQuery _ rfl).2.1⟩

end OtelviewPostgres
