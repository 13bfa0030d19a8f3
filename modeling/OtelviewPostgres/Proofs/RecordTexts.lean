import OtelviewPostgres.Proofs.LogReadback

/-!
# The texts of a record

The severity text, the strings of the body and the attributes, and the keys above them. An object
has one entry of a key, the last, so what an earlier entry holds is stored in the payload only.
Everything else is in the body text or in the text of the attributes, quoted where it is not a
body of its own.
-/

namespace OtelviewPostgres

open Relational

/-- The strings and keys in a value. -/
inductive AnyValue.Holds : AnyValue → String → Prop
  | string (v : String) : Holds (.stringValue v) v
  | element {values : List AnyValue} {v : AnyValue} {s : String} :
    v ∈ values → Holds v s → Holds (.arrayValue values) s
  | key {values : List KeyValue} {kv : KeyValue} : kv ∈ values → Holds (.kvlistValue values) kv.key
  | value {values : List KeyValue} {kv : KeyValue} {v : AnyValue} {s : String} :
    kv ∈ values → kv.value = some v → Holds v s → Holds (.kvlistValue values) s

/-- The strings and keys in a value, but for the entries whose key occurs again after them. -/
inductive AnyValue.Keeps : AnyValue → String → Prop
  | string (v : String) : Keeps (.stringValue v) v
  | element {values : List AnyValue} {v : AnyValue} {s : String} :
    v ∈ values → Keeps v s → Keeps (.arrayValue values) s
  | key {values : List KeyValue} {kv : KeyValue} : kv ∈ values → Keeps (.kvlistValue values) kv.key
  | value {values : List KeyValue} {kv : KeyValue} {v : AnyValue} {s : String} :
    effectiveAttribute values kv.key = some kv → kv.value = some v → Keeps v s → Keeps (.kvlistValue values) s

/-- The value has two entries of one key, at any depth. -/
inductive AnyValue.RepeatsKey : AnyValue → Prop
  | here {values : List KeyValue} : ¬ (values.map KeyValueOf.key).Nodup → RepeatsKey (.kvlistValue values)
  | element {values : List AnyValue} {v : AnyValue} : v ∈ values → RepeatsKey v → RepeatsKey (.arrayValue values)
  | value {values : List KeyValue} {kv : KeyValue} {v : AnyValue} :
    kv ∈ values → kv.value = some v → RepeatsKey v → RepeatsKey (.kvlistValue values)

/-- The texts of a record that a search is for. -/
def LogRecord.HasText (record : LogRecord) (text : String) : Prop :=
  text = record.severityText ∨ (∃ v, record.body = some v ∧ v.Holds text) ∨
    (AnyValue.kvlistValue record.attributes).Holds text

/-- The texts of a record that no later entry replaces. -/
def LogRecord.KeepsText (record : LogRecord) (text : String) : Prop :=
  text = record.severityText ∨ (∃ v, record.body = some v ∧ v.Keeps text) ∨
    (AnyValue.kvlistValue record.attributes).Keeps text

def LogRecord.RepeatsKey (record : LogRecord) : Prop :=
  (∃ v, record.body = some v ∧ v.RepeatsKey) ∨ (AnyValue.kvlistValue record.attributes).RepeatsKey

lemma AnyValue.Holds.exists_entry {values : List KeyValue} {s : String} (h : (AnyValue.kvlistValue values).Holds s) :
    ∃ kv, kv ∈ values := by
  cases h with
  | key hmem => exact ⟨_, hmem⟩
  | value hmem _ _ => exact ⟨_, hmem⟩

lemma AnyValue.Keeps.holds {v : AnyValue} {s : String} (h : v.Keeps s) : v.Holds s := by
  induction h with
  | string v => exact .string v
  | element hmem _ ih => exact .element hmem ih
  | key hmem => exact .key hmem
  | value heffective hvalue _ ih =>
    exact .value (List.mem_reverse.mp (List.mem_of_find?_eq_some heffective)) hvalue ih

lemma effectiveAttribute_of_nodup {values : List KeyValue} (hnodup : (values.map KeyValueOf.key).Nodup)
    {kv : KeyValue} (h : kv ∈ values) : effectiveAttribute values kv.key = some kv := by
  cases hfound : effectiveAttribute values kv.key with
  | none =>
    have hnot := List.find?_eq_none.mp hfound kv (List.mem_reverse.mpr h)
    exact absurd (decide_eq_true rfl) hnot
  | some kv' =>
    have hkey : kv'.key = kv.key := by simpa using List.find?_some hfound
    have hmem : kv' ∈ values := List.mem_reverse.mp (List.mem_of_find?_eq_some hfound)
    rw [List.inj_on_of_nodup_map hnodup hmem h hkey]

lemma AnyValue.Holds.keeps {v : AnyValue} {s : String} (h : v.Holds s) (hkeys : ¬ v.RepeatsKey) : v.Keeps s := by
  induction h with
  | string v => exact .string v
  | element hmem _ ih => exact .element hmem (ih fun hrepeats => hkeys (.element hmem hrepeats))
  | key hmem => exact .key hmem
  | @value values kv v s hmem hvalue _ ih =>
    have hnodup : (values.map KeyValueOf.key).Nodup := by
      by_contra hnot
      exact hkeys (.here hnot)
    have hkept : v.Keeps s := ih fun hrepeats => hkeys (.value hmem hvalue hrepeats)
    exact .value (effectiveAttribute_of_nodup hnodup hmem) hvalue hkept

/-- A record that repeats no key keeps all its texts. -/
theorem LogRecord.keepsText_iff {record : LogRecord} (hkeys : ¬ record.RepeatsKey) (text : String) :
    record.KeepsText text ↔ record.HasText text := by
  constructor
  · rintro (hseverity | ⟨v, hbody, hkeeps⟩ | hkeeps)
    · exact .inl hseverity
    · exact .inr (.inl ⟨v, hbody, hkeeps.holds⟩)
    · exact .inr (.inr hkeeps.holds)
  · rintro (hseverity | ⟨v, hbody, hholds⟩ | hholds)
    · exact .inl hseverity
    · exact .inr (.inl ⟨v, hbody, hholds.keeps fun hrepeats => hkeys (.inl ⟨v, hbody, hrepeats⟩)⟩)
    · exact .inr (.inr (hholds.keeps fun hrepeats => hkeys (.inr hrepeats)))

/-- The strings and keys in a JSON value. -/
inductive Json.HasString : Json → String → Prop
  | string (s : String) : HasString (.string s) s
  | element {values : List Json} {v : Json} {s : String} : v ∈ values → HasString v s → HasString (.array values) s
  | key {entries : List (String × Json)} {k : String} {v : Json} : (k, v) ∈ entries → HasString (.object entries) k
  | value {entries : List (String × Json)} {k : String} {v : Json} {s : String} :
    (k, v) ∈ entries → HasString v s → HasString (.object entries) s

section Strings

lemma mem_otelValuesToJson {values : List AnyValue} {v : AnyValue} (h : v ∈ values) :
    otelValueToJson v ∈ otelValuesToJson values := by
  rw [otelValuesToJson_eq_map]
  exact List.mem_map_of_mem h

lemma otelValueToJson_kvlist (values : List KeyValue) :
    otelValueToJson (.kvlistValue values) = attributesToJson values := by
  rw [otelValueToJson, attributesToJson]

/-- The effective entry of a key is in the object. -/
lemma mem_attributesToJson {values : List KeyValue} {key : String} {kv : KeyValue}
    (h : effectiveAttribute values key = some kv) :
    (key, otelOptionToJson kv.value) ∈ collectMap (otelEntriesToJson values) := by
  have hget := mapGet_attributesToJson values key
  rw [h] at hget
  exact mem_of_mapGet hget

/-- Every key has an effective entry. -/
lemma exists_effectiveAttribute {values : List KeyValue} {kv : KeyValue} (h : kv ∈ values) :
    ∃ kv', effectiveAttribute values kv.key = some kv' := by
  rw [← Option.isSome_iff_exists, effectiveAttribute, List.find?_isSome]
  exact ⟨kv, List.mem_reverse.mpr h, by simp⟩

/-- What a value keeps is in its JSON. -/
lemma hasString_otelValueToJson {v : AnyValue} {s : String} (h : v.Keeps s) : (otelValueToJson v).HasString s := by
  induction h with
  | string v => exact .string v
  | element hmem _ ih =>
    rw [otelValueToJson]
    exact .element (mem_otelValuesToJson hmem) ih
  | key hmem =>
    obtain ⟨kv', hkv'⟩ := exists_effectiveAttribute hmem
    rw [otelValueToJson_kvlist]
    exact .key (mem_attributesToJson hkv')
  | value heffective hvalue _ ih =>
    have hmem := mem_attributesToJson heffective
    rw [hvalue, otelOptionToJson] at hmem
    rw [otelValueToJson_kvlist]
    exact .value hmem ih

lemma mem_toJsonbElems (floatDigits : F64 → Jsonb.Numeric) {values : List Json} {v : Json} (h : v ∈ values) :
    v.toJsonb floatDigits ∈ Json.toJsonbElems floatDigits values := by
  rw [toJsonbElems_eq_map]
  exact List.mem_map_of_mem h

/-- The strings of a JSON value are stored. -/
lemma Json.HasString.toJsonb (floatDigits : F64 → Jsonb.Numeric) {j : Json} {s : String} (h : j.HasString s) :
    (j.toJsonb floatDigits).HasString s := by
  induction h with
  | string s => exact .string s
  | element hmem _ ih =>
    rw [Json.toJsonb]
    exact .element (mem_toJsonbElems floatDigits hmem) ih
  | key hmem =>
    rw [Json.toJsonb]
    exact .key ((List.mem_insertionSort _).mpr (mem_toJsonbEntries floatDigits hmem))
  | value hmem _ ih =>
    rw [Json.toJsonb]
    exact .value ((List.mem_insertionSort _).mpr (mem_toJsonbEntries floatDigits hmem)) ih

lemma infix_intercalate {α : Type*} (sep : List α) {l : List α} {ls : List (List α)} (h : l ∈ ls) :
    l <:+: List.intercalate sep ls := by
  induction ls with
  | nil => cases h
  | cons m ls ih =>
    cases ls with
    | nil =>
      rw [List.mem_singleton] at h
      rw [h, List.intercalate_singleton]
    | cons m' ls =>
      rw [List.intercalate_cons_cons]
      cases List.mem_cons.mp h with
      | inl heq =>
        rw [heq, List.append_assoc]
        exact List.infix_append' [] m _
      | inr hmem => exact (ih hmem).trans ⟨m ++ sep, [], by simp⟩

section Display

variable (floatText : F64 → String)

lemma chars_infix_array {values : List Json} {v : Json} (h : v ∈ values) :
    v.chars floatText <:+: (Json.array values).chars floatText := by
  rw [Json.chars, charsElems_eq_map]
  exact (infix_intercalate [','] (List.mem_map_of_mem h)).trans ⟨['['], [']'], rfl⟩

lemma charsEntry_infix_object {entries : List (String × Json)} {e : String × Json} (h : e ∈ entries) :
    Json.charsEntry floatText e <:+: (Json.object entries).chars floatText := by
  rw [Json.chars, charsEntries_eq_map]
  exact (infix_intercalate [','] (List.mem_map_of_mem h)).trans ⟨['\x7b'], ['\x7d'], rfl⟩

/-- The compact text of a JSON value holds each of its strings, quoted. -/
lemma Json.HasString.quote_infix_chars {j : Json} {s : String} (h : j.HasString s) :
    Jsonb.quote s <:+: j.chars floatText := by
  induction h with
  | string s => rw [Json.chars]
  | element hmem _ ih => exact ih.trans (chars_infix_array floatText hmem)
  | @key entries k v hmem =>
    have hentry : Jsonb.quote k <:+: Json.charsEntry floatText (k, v) := ⟨[], ':' :: v.chars floatText, rfl⟩
    exact hentry.trans (charsEntry_infix_object floatText hmem)
  | @value entries k v s hmem _ ih =>
    have hentry : v.chars floatText <:+: Json.charsEntry floatText (k, v) :=
      ⟨Jsonb.quote k ++ [':'], [], by simp [Json.charsEntry]⟩
    exact (ih.trans hentry).trans (charsEntry_infix_object floatText hmem)

end Display

/-- The value is an object with an entry, or a list with such an element. -/
inductive Json.ShowsEntry : Json → Prop
  | here {entries : List (String × Json)} {e : String × Json} : e ∈ entries → ShowsEntry (.object entries)
  | element {values : List Json} {v : Json} : v ∈ values → ShowsEntry v → ShowsEntry (.array values)

/-- The pieces of an object's text that its entries do not choose. -/
def objectSyntax : List (List Char) := [['\x7b'], ['\x7d'], ['"'], [':'], ['"', ':']]

/-- What a value holds it keeps, or an object it is in is shown with another entry. -/
lemma AnyValue.Holds.keeps_or_showsEntry {v : AnyValue} {s : String} (h : v.Holds s) :
    v.Keeps s ∨ (otelValueToJson v).ShowsEntry := by
  induction h with
  | string v => exact .inl (.string v)
  | element hmem _ ih =>
    cases ih with
    | inl hkeeps => exact .inl (.element hmem hkeeps)
    | inr hshows =>
      rw [otelValueToJson]
      exact .inr (.element (mem_otelValuesToJson hmem) hshows)
  | key hmem => exact .inl (.key hmem)
  | value hmem _ _ _ =>
    obtain ⟨kv', hkv'⟩ := exists_effectiveAttribute hmem
    rw [otelValueToJson_kvlist]
    exact .inr (.here (mem_attributesToJson hkv'))

/-- A text with braces and a key has the pieces of an object's syntax. -/
lemma objectSyntax_infix {piece text : List Char} (hpiece : piece ∈ objectSyntax) (hopen : ['\x7b'] <:+: text)
    (hclose : ['\x7d'] <:+: text) {key : String} (hkey : Jsonb.quote key ++ [':'] <:+: text) : piece <:+: text := by
  have hcolon : ['"', ':'] <:+: text :=
    List.IsInfix.trans ⟨'"' :: key.toList.flatMap Jsonb.escapeChar, [], by simp [Jsonb.quote]⟩ hkey
  simp only [objectSyntax, List.mem_cons, List.not_mem_nil, or_false] at hpiece
  obtain rfl | rfl | rfl | rfl | rfl := hpiece
  · exact hopen
  · exact hclose
  · exact List.IsInfix.trans ⟨[], [':'], rfl⟩ hcolon
  · exact List.IsInfix.trans ⟨['"'], [], rfl⟩ hcolon
  · exact hcolon

/-- The JSON text of a value that shows an entry has the syntax of objects. -/
lemma Json.ShowsEntry.objectSyntax_infix_chars (floatText : F64 → String) {j : Json} (h : j.ShowsEntry)
    {piece : List Char} (hpiece : piece ∈ objectSyntax) : piece <:+: j.chars floatText := by
  induction h with
  | @here entries e hmem =>
    obtain ⟨k, v⟩ := e
    have hkey : Jsonb.quote k ++ [':'] <:+: Json.charsEntry floatText (k, v) :=
      ⟨[], v.chars floatText, by simp [Json.charsEntry]⟩
    apply objectSyntax_infix hpiece _ _ (hkey.trans (charsEntry_infix_object floatText hmem))
    · rw [Json.chars]
      exact ⟨[], _, rfl⟩
    · rw [Json.chars]
      exact ⟨'\x7b' :: List.intercalate [','] (Json.charsEntries floatText entries), [], by simp⟩
  | element hmem _ ih => exact ih.trans (chars_infix_array floatText hmem)

end Strings

section Texts

variable (env : Externals)

/-- The text of a body with a string is the string, or JSON text that quotes it. -/
lemma bodyText_of_hasString {record : LogRecord} {text : String}
    (h : (otelOptionToJson record.body).HasString text) :
    bodyText env record = text ∨ Jsonb.quote text <:+: (bodyText env record).toList := by
  have hquote := h.quote_infix_chars env.floatText
  unfold bodyText
  generalize otelOptionToJson record.body = j at h hquote ⊢
  cases h with
  | string s => exact .inl rfl
  | element _ _ => exact .inr (by simpa only [Json.display, String.toList_ofList] using hquote)
  | key _ => exact .inr (by simpa only [Json.display, String.toList_ofList] using hquote)
  | value _ _ => exact .inr (by simpa only [Json.display, String.toList_ofList] using hquote)

lemma objectSyntax_infix_bodyText {record : LogRecord} (h : (otelOptionToJson record.body).ShowsEntry)
    {piece : List Char} (hpiece : piece ∈ objectSyntax) : piece <:+: (bodyText env record).toList := by
  have hchars := h.objectSyntax_infix_chars env.floatText hpiece
  unfold bodyText
  generalize otelOptionToJson record.body = j at h hchars ⊢
  cases h with
  | here _ => simpa only [Json.display, String.toList_ofList] using hchars
  | element _ _ => simpa only [Json.display, String.toList_ofList] using hchars

variable {env}

/-- The JSON text of the attributes quotes the strings they keep. -/
lemma quote_infix_attributes {attributes : List KeyValue} {text : String}
    (h : (AnyValue.kvlistValue attributes).Keeps text) :
    Jsonb.quote text <:+: ((attributesToJson attributes).toJsonb env.floatDigits).text.toList := by
  have hstring := hasString_otelValueToJson h
  rw [otelValueToJson_kvlist] at hstring
  rw [Jsonb.Value.text, String.toList_ofList]
  exact Jsonb.Value.quote_infix_render (hstring.toJsonb env.floatDigits)

/-- The JSON text of attributes, of which there are some, has the syntax of objects. -/
lemma objectSyntax_infix_attributes {attributes : List KeyValue} {kv : KeyValue} (h : kv ∈ attributes)
    {piece : List Char} (hpiece : piece ∈ objectSyntax) :
    piece <:+: ((attributesToJson attributes).toJsonb env.floatDigits).text.toList := by
  obtain ⟨kv', hkv'⟩ := exists_effectiveAttribute h
  have hmem := mem_toJsonbEntries env.floatDigits (mem_attributesToJson hkv')
  rw [Jsonb.Value.text, String.toList_ofList, attributesToJson, Json.toJsonb]
  exact objectSyntax_infix hpiece (Jsonb.Value.open_infix_object _) (Jsonb.Value.close_infix_object _)
    (Jsonb.Value.key_infix_object ((List.mem_insertionSort _).mpr hmem))

end Texts

end OtelviewPostgres
