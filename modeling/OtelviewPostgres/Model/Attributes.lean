import OtelviewPostgres.Model.Otlp
import OtelviewPostgres.Relational.JsonbText

/-!
# Attributes as JSON

The two encoders of attribute values, one for what a client exports and one for what a
search asks for, and the `jsonb` value the database stores for their result. A JSON
object is the sorted entry list of a map: inserting a key again replaces its value.
-/

namespace OtelviewPostgres

section SortedMap

variable {α : Type}

def mapInsert (k : String) (v : α) : List (String × α) → List (String × α)
  | [] => [(k, v)]
  | (l, w) :: m =>
    if k < l then (k, v) :: (l, w) :: m
    else if k = l then (k, v) :: m
    else (l, w) :: mapInsert k v m

/-- Collect entries into a map, the last entry of a key winning. -/
def collectMap (entries : List (String × α)) : List (String × α) :=
  entries.foldl (fun m e => mapInsert e.1 e.2 m) []

def mapGet (m : List (String × α)) (k : String) : Option α :=
  (m.find? (fun e => e.1 = k)).map Prod.snd

lemma mapGet_mapInsert (k : String) (v : α) (m : List (String × α)) (l : String) :
    mapGet (mapInsert k v m) l = if l = k then some v else mapGet m l := by
  induction m with
  | nil =>
    by_cases h : l = k
    · simp [mapGet, mapInsert, h]
    · simp [mapGet, mapInsert, h, Ne.symm h]
  | cons e m ih =>
    obtain ⟨j, w⟩ := e
    unfold mapInsert
    split
    · by_cases h : l = k
      · simp [mapGet, h]
      · simp [mapGet, h, Ne.symm h]
    · split
      · rename_i hkj
        subst hkj
        by_cases h : l = k
        · simp [mapGet, h]
        · simp [mapGet, h, Ne.symm h]
      · rename_i hkj
        by_cases h : j = l
        · subst h
          simp [mapGet, Ne.symm hkj]
        · simp only [mapGet, List.find?_cons, h, decide_false] at ih ⊢
          exact ih

/-- The value of a key in a collected map is that of its last entry. -/
theorem mapGet_collectMap (entries : List (String × α)) (k : String) :
    mapGet (collectMap entries) k = (entries.reverse.find? (fun e => e.1 = k)).map Prod.snd := by
  induction entries using List.reverseRecOn with
  | nil => rfl
  | append_singleton es e ih =>
    rw [collectMap, List.foldl_append, List.foldl_cons, List.foldl_nil, mapGet_mapInsert,
      List.reverse_append, List.reverse_singleton, List.singleton_append, List.find?_cons]
    by_cases h : k = e.1
    · simp [h]
    · simp only [h, if_false, Ne.symm h, decide_false]
      exact ih

lemma mem_of_mapGet {m : List (String × α)} {k : String} {v : α} (h : mapGet m k = some v) :
    (k, v) ∈ m := by
  obtain ⟨⟨l, w⟩, he, rfl⟩ := Option.map_eq_some_iff.mp h
  have hk : l = k := by simpa using List.find?_some he
  exact hk ▸ List.mem_of_find?_eq_some he

end SortedMap

inductive Number where
  | int (n : Int)
  | float (f : F64)

inductive Json where
  | null
  | bool (b : Bool)
  | number (n : Number)
  | string (s : String)
  | array (values : List Json)
  | object (entries : List (String × Json))

namespace Json

/-- The value of a key of an object. -/
def get (j : Json) (k : String) : Option Json :=
  match j with
  | object entries => mapGet entries k
  | _ => none

def asStr : Json → Option String
  | string s => some s
  | _ => none

def ofInt64 (v : Int64) : Json := number (.int v.toInt)

def ofInt32 (v : Int32) : Json := number (.int v.toInt)

/-- A finite double is a number, any other one is `null`. -/
def ofF64 (v : F64) : Json := if v.isFinite then number (.float v) else null

end Json

mutual

def otelValueToJson : AnyValue → Json
  | .stringValue v => .string v
  | .stringValueStrindex v => .ofInt32 v
  | .boolValue v => .bool v
  | .intValue v => .ofInt64 v
  | .doubleValue v => .ofF64 v
  | .bytesValue v => .string (hex v)
  | .arrayValue values => .array (otelValuesToJson values)
  | .kvlistValue values => .object (collectMap (otelEntriesToJson values))
  | .unset => .null
termination_by structural v => v

def otelValuesToJson : List AnyValue → List Json
  | [] => []
  | v :: vs => otelValueToJson v :: otelValuesToJson vs
termination_by structural v => v

def otelEntriesToJson : List KeyValue → List (String × Json)
  | [] => []
  | kv :: kvs => otelEntryToJson kv :: otelEntriesToJson kvs
termination_by structural v => v

def otelEntryToJson : KeyValue → String × Json
  | ⟨key, value⟩ => (key, otelOptionToJson value)
termination_by structural v => v

/-- `otel_value_to_json` of a value that may be missing. -/
def otelOptionToJson : Option AnyValue → Json
  | none => .null
  | some v => otelValueToJson v
termination_by structural v => v

end

def attributesToJson (attributes : List KeyValue) : Json :=
  .object (collectMap (otelEntriesToJson attributes))

mutual

def queryValueToJson : QueryValue → Json
  | .stringValue v => .string v
  | .boolValue v => .bool v
  | .intValue v => .ofInt64 v
  | .doubleValue v => .ofF64 v
  | .bytesValue v => .string (hex v)
  | .arrayValue values => .array (queryValuesToJson values)
  | .kvlistValue values => .object (collectMap (queryEntriesToJson values))
  | .unset => .null
termination_by structural v => v

def queryValuesToJson : List QueryValue → List Json
  | [] => []
  | v :: vs => queryValueToJson v :: queryValuesToJson vs
termination_by structural v => v

def queryEntriesToJson : List (KeyValueOf QueryValue) → List (String × Json)
  | [] => []
  | kv :: kvs => queryEntryToJson kv :: queryEntriesToJson kvs
termination_by structural v => v

def queryEntryToJson : KeyValueOf QueryValue → String × Json
  | ⟨key, value⟩ => (key, queryOptionToJson value)
termination_by structural v => v

/-- `query_value_to_json` of a value that may be missing. -/
def queryOptionToJson : Option QueryValue → Json
  | none => .null
  | some v => queryValueToJson v
termination_by structural v => v

end

/-- The `service.name` of a resource, when it is a JSON string. -/
def serviceName (resourceAttrs : Json) : String :=
  ((resourceAttrs.get "service.name").bind Json.asStr).getD "unknown_service"

lemma otelValuesToJson_eq_map (vs : List AnyValue) : otelValuesToJson vs = vs.map otelValueToJson := by
  induction vs with
  | nil => rfl
  | cons v vs ih => rw [otelValuesToJson, ih, List.map_cons]

lemma otelEntriesToJson_eq_map (kvs : List KeyValue) :
    otelEntriesToJson kvs = kvs.map (fun kv => (kv.key, otelOptionToJson kv.value)) := by
  induction kvs with
  | nil => rfl
  | cons kv kvs ih => rw [otelEntriesToJson, ih, List.map_cons, otelEntryToJson]

/-- The last attribute with a key, the one that counts. -/
def effectiveAttribute (attributes : List KeyValue) (k : String) : Option KeyValue :=
  attributes.reverse.find? (fun kv => kv.key = k)

/-- The JSON of an attribute list holds, for each key, the effective attribute. -/
theorem mapGet_attributesToJson (attributes : List KeyValue) (k : String) :
    (attributesToJson attributes).get k =
      (effectiveAttribute attributes k).map (fun kv => otelOptionToJson kv.value) := by
  rw [attributesToJson, Json.get, mapGet_collectMap, otelEntriesToJson_eq_map, ← List.map_reverse,
    List.find?_map, effectiveAttribute, Option.map_map]
  rfl

section Display

variable (floatText : F64 → String)

def Number.display : Number → List Char
  | .int n => (toString n).toList
  | .float f => (floatText f).toList

mutual

/-- The text of a JSON value without any white space. -/
def Json.chars : Json → List Char
  | .null => ['n', 'u', 'l', 'l']
  | .bool b => if b then ['t', 'r', 'u', 'e'] else ['f', 'a', 'l', 's', 'e']
  | .number n => n.display floatText
  | .string s => Jsonb.quote s
  | .array values => '[' :: (List.intercalate [','] (Json.charsElems values) ++ [']'])
  | .object entries => '\x7b' :: (List.intercalate [','] (Json.charsEntries entries) ++ ['\x7d'])
termination_by structural v => v

def Json.charsElems : List Json → List (List Char)
  | [] => []
  | v :: vs => Json.chars v :: Json.charsElems vs
termination_by structural v => v

def Json.charsEntries : List (String × Json) → List (List Char)
  | [] => []
  | e :: es => Json.charsEntry e :: Json.charsEntries es
termination_by structural v => v

def Json.charsEntry : String × Json → List Char
  | (k, v) => Jsonb.quote k ++ ':' :: Json.chars v
termination_by structural v => v

end

lemma charsElems_eq_map (values : List Json) :
    Json.charsElems floatText values = values.map (Json.chars floatText) := by
  induction values with
  | nil => rfl
  | cons v vs ih => rw [Json.charsElems, ih, List.map_cons]

lemma charsEntries_eq_map (entries : List (String × Json)) :
    Json.charsEntries floatText entries = entries.map (Json.charsEntry floatText) := by
  induction entries with
  | nil => rfl
  | cons e es ih => rw [Json.charsEntries, ih, List.map_cons]

def Json.display (j : Json) : String := String.ofList (j.chars floatText)

end Display

/-- The order of object keys in a `jsonb` value: by length, then by bytes. -/
def jsonbKeyLe (a b : String) : Bool :=
  a.utf8ByteSize < b.utf8ByteSize || (a.utf8ByteSize == b.utf8ByteSize && decide (a ≤ b))

section Jsonb

variable (floatDigits : F64 → Jsonb.Numeric)

def Number.toNumeric : Number → Jsonb.Numeric
  | .int n => ⟨n, 0⟩
  | .float f => floatDigits f

mutual

/-- What the database stores for a JSON value. -/
def Json.toJsonb : Json → Jsonb.Value
  | .null => .null
  | .bool b => .bool b
  | .number n => .number (n.toNumeric floatDigits)
  | .string s => .string s
  | .array values => .array (Json.toJsonbElems values)
  | .object entries =>
    .object ((Json.toJsonbEntries entries).insertionSort (fun e f => jsonbKeyLe e.1 f.1))
termination_by structural v => v

def Json.toJsonbElems : List Json → List Jsonb.Value
  | [] => []
  | v :: vs => Json.toJsonb v :: Json.toJsonbElems vs
termination_by structural v => v

def Json.toJsonbEntries : List (String × Json) → List (String × Jsonb.Value)
  | [] => []
  | e :: es => Json.toJsonbEntry e :: Json.toJsonbEntries es
termination_by structural v => v

def Json.toJsonbEntry : String × Json → String × Jsonb.Value
  | (k, v) => (k, Json.toJsonb v)
termination_by structural v => v

end

lemma toJsonbElems_eq_map (values : List Json) :
    Json.toJsonbElems floatDigits values = values.map (Json.toJsonb floatDigits) := by
  induction values with
  | nil => rfl
  | cons v vs ih => rw [Json.toJsonbElems, ih, List.map_cons]

lemma toJsonbEntries_eq_map (entries : List (String × Json)) :
    Json.toJsonbEntries floatDigits entries = entries.map fun e => (e.1, e.2.toJsonb floatDigits) := by
  induction entries with
  | nil => rfl
  | cons e es ih =>
    obtain ⟨k, v⟩ := e
    rw [Json.toJsonbEntries, ih, List.map_cons, Json.toJsonbEntry]

lemma mem_toJsonbEntries {entries : List (String × Json)} {k : String} {v : Json} (h : (k, v) ∈ entries) :
    (k, v.toJsonb floatDigits) ∈ Json.toJsonbEntries floatDigits entries := by
  rw [toJsonbEntries_eq_map]
  exact List.mem_map_of_mem h

/-- A stored object contains the object of any key with its value. -/
theorem contains_of_get {j : Json} {k : String} {v : Json} (h : j.get k = some v) :
    (j.toJsonb floatDigits).contains ((Json.object [(k, v)]).toJsonb floatDigits) = true := by
  cases j with
  | object entries =>
    have hmem := mem_toJsonbEntries floatDigits (mem_of_mapGet h)
    rw [Json.toJsonb, Json.toJsonb]
    exact Jsonb.Value.contains_singleton_of_mem ((List.mem_insertionSort _).mpr hmem)
  | _ => cases h

end Jsonb

end OtelviewPostgres
