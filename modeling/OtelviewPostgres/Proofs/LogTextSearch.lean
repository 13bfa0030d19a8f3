import OtelviewPostgres.Proofs.RecordTexts

/-!
# Searching the texts of logs

The pattern of a search matches the texts that hold the searched one, regardless of case. A string
body and the severity text are searched as they stand, while attributes and structured bodies are
searched in their JSON text, where quotes, backslashes and control characters are escaped and the
searched text is not. It is found in every such text exactly when it occurs in its own escaped form.
-/

namespace OtelviewPostgres

open Relational

/-- The ASCII characters that are not letters. -/
def IsUncased (c : Char) : Prop := c.toNat < 128 ∧ c.isAlpha = false

instance IsUncased.decidable : DecidablePred IsUncased := fun c =>
  inferInstanceAs (Decidable (c.toNat < 128 ∧ c.isAlpha = false))

lemma forall_isUncased {l : List Char} (h : l.all (fun c => decide (IsUncased c)) = true) : ∀ c ∈ l, IsUncased c :=
  fun c hc => of_decide_eq_true (List.all_eq_true.mp h c hc)

/-- A case folding that changes no ASCII character but letters, and turns no other character into
one of these. -/
structure KeepsUncased (fold : Char → Char) : Prop where
  fixes : ∀ c, IsUncased c → fold c = c
  reflects : ∀ c, IsUncased (fold c) → IsUncased c

lemma isUncased_of_isWildcard {c : Char} (h : IsWildcard c) : IsUncased c := by
  obtain rfl | rfl | rfl := h
  · decide
  · decide
  · decide

lemma KeepsUncased.eq_of_fold {fold : Char → Char} (h : KeepsUncased fold) {c d : Char} (hd : IsUncased d)
    (heq : fold c = d) : c = d := by
  have hc : IsUncased c := h.reflects c (heq ▸ hd)
  rw [← heq, h.fixes c hc]

lemma KeepsUncased.keepsWildcards {fold : Char → Char} (h : KeepsUncased fold) : KeepsWildcards fold where
  fixes c hc := h.fixes c (isUncased_of_isWildcard hc)
  reflects c hc := by
    have heq : c = fold c := h.eq_of_fold (isUncased_of_isWildcard hc) rfl
    rwa [← heq] at hc

/-- The folding of ASCII letters. -/
lemma keepsUncased_toLower : KeepsUncased Char.toLower := by
  have hall : ∀ c : Char, c.toNat < 128 →
      (IsUncased c → c.toLower = c) ∧ (IsUncased c.toLower → IsUncased c) := forall_char_lt 128 (by decide)
  constructor
  · intro c hc
    exact (hall c hc.1).1 hc
  · intro c hc
    by_cases hlt : c.toNat < 128
    · exact (hall c hlt).2 hc
    · rwa [toLower_of_not_ascii hlt] at hc

lemma toList_escapeLike (s : String) : (escapeLike s).toList = literal s.toList := by
  unfold escapeLike replaceChar literal
  rw [String.toList_ofList, List.flatMap_assoc, List.flatMap_assoc]
  congr 1
  funext c
  by_cases hescape : c = '\\'
  · rw [hescape]
    rfl
  · by_cases hpercent : c = '%'
    · rw [hpercent]
      rfl
    · by_cases hunderscore : c = '_'
      · rw [hunderscore]
        rfl
      · simp [literalChar, IsWildcard, hescape, hpercent, hunderscore]

lemma toList_searchPattern (s : String) :
    ("%" ++ escapeLike s ++ "%").toList = '%' :: literal s.toList ++ ['%'] := by
  rw [String.toList_append, String.toList_append, toList_escapeLike]
  rfl

/-- The text occurs in the other one, regardless of case. -/
def Occurs (fold : Char → Char) (s t : String) : Prop := s.toList.map fold <:+: t.toList.map fold

lemma ilike_searchPattern {fold : Char → Char} (h : KeepsWildcards fold) (s t : String) :
    ilike fold t.toList ("%" ++ escapeLike s ++ "%").toList = true ↔ Occurs fold s t := by
  rw [toList_searchPattern]
  exact ilike_contains_iff h s.toList t.toList

/-- The pattern of a search matches the texts the searched text occurs in: its tokens are the
characters themselves, between two that stand for any text. -/
theorem searchPattern_literal {fold : Char → Char} (h : KeepsWildcards fold) (s : String) :
    parseLike (("%" ++ escapeLike s ++ "%").toList.map fold) =
      some (.anyText :: s.toList.map (fun c => .char (fold c)) ++ [.anyText]) ∧
    ∀ t : String, ilike fold t.toList ("%" ++ escapeLike s ++ "%").toList = true ↔
      s.toList.map fold <:+: t.toList.map fold := by
  refine ⟨?_, fun t => ilike_searchPattern h s t⟩
  have hpercent : fold '%' = '%' := h.fixes _ (.inl rfl)
  rw [toList_searchPattern, List.map_append, List.map_cons, List.map_singleton, hpercent, literal_map_fold h,
    parseLike_contains, List.map_map]
  rfl

/-- Backslashes, percent signs and underscores stand for themselves. -/
theorem searchPattern_literal_wildcards :
    parseLike (("%" ++ escapeLike "A\\%_\\" ++ "%").toList.map Char.toLower) =
      some (.anyText :: "A\\%_\\".toList.map (fun c => .char c.toLower) ++ [.anyText]) ∧
    ∀ t : String, ilike Char.toLower t.toList ("%" ++ escapeLike "A\\%_\\" ++ "%").toList = true ↔
      "A\\%_\\".toList.map Char.toLower <:+: t.toList.map Char.toLower :=
  searchPattern_literal keepsUncased_toLower.keepsWildcards "A\\%_\\"

/-- A text as JSON writes it, without the quotes around it. -/
def escaped (s : List Char) : List Char := s.flatMap Jsonb.escapeChar

/-- The searched text occurs in the JSON text of itself. -/
def OccursInEscaped (fold : Char → Char) (s : String) : Prop :=
  s.toList.map fold <:+: (escaped s.toList).map fold

lemma quote_eq (s : String) : Jsonb.quote s = ['"'] ++ escaped s.toList ++ ['"'] := rfl

lemma escaped_append (s t : List Char) : escaped (s ++ t) = escaped s ++ escaped t := List.flatMap_append ..

lemma isUncased_of_shortEscape {c x : Char} (h : Jsonb.shortEscape c = some x) : IsUncased c := by
  have hall : ∀ p ∈ Jsonb.shortEscapes, IsUncased p.1 := by decide
  exact hall _ (Jsonb.mem_shortEscapes h)

lemma isUncased_of_lt {c : Char} (h : c.toNat < 32) : IsUncased c := forall_char_lt 32 (by decide) c h

lemma escapeChar_of_not_uncased {c : Char} (h : ¬ IsUncased c) : Jsonb.escapeChar c = [c] := by
  unfold Jsonb.escapeChar
  split
  next x hx => exact absurd (isUncased_of_shortEscape hx) h
  next => rw [if_neg fun hlt => h (isUncased_of_lt hlt)]

section Fold

variable {fold : Char → Char} (hfold : KeepsUncased fold)
include hfold

lemma map_eq_self_of_uncased {s : List Char} (h : ∀ c ∈ s, IsUncased c) : s.map fold = s :=
  (List.map_congr_left fun c hc => hfold.fixes c (h c hc)).trans (List.map_id s)

/-- Texts that differ in case only are escaped alike. -/
lemma map_fold_escaped {s t : List Char} (h : s.map fold = t.map fold) :
    (escaped s).map fold = (escaped t).map fold := by
  have hchar : ∀ c d, fold c = fold d → (Jsonb.escapeChar c).map fold = (Jsonb.escapeChar d).map fold := by
    intro c d heq
    by_cases hc : IsUncased c
    · rw [hfold.fixes c hc] at heq
      rw [hfold.eq_of_fold hc heq.symm]
    · have hd : ¬ IsUncased d := fun hd => hc (hfold.reflects c (by rwa [heq, hfold.fixes d hd]))
      rw [escapeChar_of_not_uncased hc, escapeChar_of_not_uncased hd, List.map_singleton, List.map_singleton, heq]
  induction s generalizing t with
  | nil =>
    rw [List.map_nil, eq_comm, List.map_eq_nil_iff] at h
    rw [h]
  | cons c s ih =>
    cases t with
    | nil => cases h
    | cons d t =>
      injection h with hcd hrest
      simp only [escaped, List.flatMap_cons, List.map_append] at ih ⊢
      rw [hchar c d hcd, ih hrest]

/-- A text that occurs in its own escaped form occurs in that of every text it occurs in. -/
lemma occurs_escaped {s t : String} (hescaped : OccursInEscaped fold s) (h : Occurs fold s t) :
    s.toList.map fold <:+: (Jsonb.quote t).map fold := by
  obtain ⟨u, v, heq⟩ := h
  obtain ⟨uw, z, hsplit, huw, -⟩ := List.map_eq_append_iff.mp heq.symm
  obtain ⟨y, w, rfl, -, hw⟩ := List.map_eq_append_iff.mp huw
  have hinner : (escaped s.toList).map fold <:+: (Jsonb.quote t).map fold := by
    rw [← map_fold_escaped hfold hw]
    refine List.IsInfix.map fold ?_
    rw [quote_eq, hsplit, escaped_append, escaped_append]
    exact ⟨['"'] ++ escaped y, escaped z ++ ['"'], by simp only [List.append_assoc]⟩
  exact hescaped.trans hinner

end Fold

section Search

variable (env : Externals) (fold : Char → Char)

/-- The record is stored, and a search for the text finds it. -/
def FoundBySearch (s : String) (t : LogsTable) (x : InContext LogRecord) : Prop :=
  ∃ r ∈ t.rows, logItemRow env x = .ok r.row ∧ ({ search := s } : LogQueryParameters).Matches env fold r.row

/-- Of every stored record, a search for the text finds those texts that have the property. -/
def SearchComplete (has : LogRecord → String → Prop) (s : String) : Prop :=
  ∀ exports t, LogsExported env exports t → ∀ x ∈ exports.flatMap logItems, ∀ text, has x.item text →
    Occurs fold s text → FoundBySearch env fold s t x

variable {env fold}

lemma matches_search (hfold : KeepsUncased fold) {s : String} (hs : s ≠ "") (row : LogRow) :
    ({ search := s } : LogQueryParameters).Matches env fold row ↔
      Occurs fold s row.body ∨ Occurs fold s row.severityText ∨
        Occurs fold s (row.attributes.toJsonb env.floatDigits).text := by
  have hconditions : logConditions { search := s } = .ok [.search ("%" ++ escapeLike s ++ "%")] := by
    have hempty : s.isEmpty = false := by
      rw [Bool.eq_false_iff, ne_eq, String.isEmpty_iff]
      exact hs
    unfold logConditions
    simp only [hempty]
    rfl
  have hholds : (LogCondition.search ("%" ++ escapeLike s ++ "%")).holds env fold row = true ↔
      Occurs fold s row.body ∨ Occurs fold s row.severityText ∨
        Occurs fold s (row.attributes.toJsonb env.floatDigits).text := by
    rw [LogCondition.holds, Bool.or_eq_true, Bool.or_eq_true, ilike_searchPattern hfold.keepsWildcards,
      ilike_searchPattern hfold.keepsWildcards, ilike_searchPattern hfold.keepsWildcards, or_assoc]
  rw [← hholds]
  constructor
  · rintro ⟨conditions, h, hall⟩
    rw [hconditions] at h
    cases h
    simpa using hall
  · exact fun h => ⟨_, hconditions, by simpa using h⟩

lemma texts_of_logItemRow {x : InContext LogRecord} {row : LogRow} (h : logItemRow env x = .ok row) :
    row.body = bodyText env x.item ∧ row.severityText = x.item.severityText ∧
      row.attributes = attributesToJson x.item.attributes := by
  obtain ⟨time, -, h⟩ := bind_eq_ok.mp h
  obtain ⟨observed, -, h⟩ := bind_eq_ok.mp h
  obtain rfl := Except.ok.inj h
  exact ⟨rfl, rfl, rfl⟩

section Complete

variable (hfold : KeepsUncased fold) {s : String} (hs : s ≠ "") {exports : List LogsData} {t : LogsTable}
  (hexported : LogsExported env exports t) {x : InContext LogRecord} (hx : x ∈ exports.flatMap logItems)
include hfold hs hexported hx

lemma foundBySearch_of_body (h : Occurs fold s (bodyText env x.item)) : FoundBySearch env fold s t x := by
  obtain ⟨r, hr, hrow⟩ := exists_stored_of_exported hexported hx
  refine ⟨r, hr, hrow, (matches_search hfold hs r.row).mpr (.inl ?_)⟩
  rwa [(texts_of_logItemRow hrow).1]

/-- Severity texts and string bodies are searched as they stand. -/
lemma foundBySearch_of_plain
    (h : Occurs fold s x.item.severityText ∨ ∃ text, x.item.body = some (.stringValue text) ∧ Occurs fold s text) :
    FoundBySearch env fold s t x := by
  cases h with
  | inl h =>
    obtain ⟨r, hr, hrow⟩ := exists_stored_of_exported hexported hx
    refine ⟨r, hr, hrow, (matches_search hfold hs r.row).mpr (.inr (.inl ?_))⟩
    rwa [(texts_of_logItemRow hrow).2.1]
  | inr h =>
    obtain ⟨text, htext, h⟩ := h
    have hplain : bodyText env x.item = text := by rw [bodyText, htext, otelOptionToJson, otelValueToJson]
    exact foundBySearch_of_body hfold hs hexported hx (by rwa [hplain])

lemma foundBySearch_of_attributes
    (h : Occurs fold s ((attributesToJson x.item.attributes).toJsonb env.floatDigits).text) :
    FoundBySearch env fold s t x := by
  obtain ⟨r, hr, hrow⟩ := exists_stored_of_exported hexported hx
  refine ⟨r, hr, hrow, (matches_search hfold hs r.row).mpr (.inr (.inr ?_))⟩
  rwa [(texts_of_logItemRow hrow).2.2]

lemma foundBySearch_of_occursInEscaped (hescaped : OccursInEscaped fold s) {text : String}
    (htext : x.item.KeepsText text) (hoccurs : Occurs fold s text) : FoundBySearch env fold s t x := by
  have hquote : s.toList.map fold <:+: (Jsonb.quote text).map fold := occurs_escaped hfold hescaped hoccurs
  obtain hseverity | ⟨v, hbody, hkeeps⟩ | hkeeps := htext
  · exact foundBySearch_of_plain hfold hs hexported hx (.inl (hseverity ▸ hoccurs))
  · apply foundBySearch_of_body hfold hs hexported hx
    have hstring : (otelOptionToJson x.item.body).HasString text := by
      rw [hbody, otelOptionToJson]
      exact hasString_otelValueToJson hkeeps
    cases bodyText_of_hasString env hstring with
    | inl hplain => rwa [hplain]
    | inr hwithin => exact hquote.trans (hwithin.map fold)
  · apply foundBySearch_of_attributes hfold hs hexported hx
    exact hquote.trans ((quote_infix_attributes hkeeps).map fold)

/-- The syntax of an object is found in every record with an entry, whatever the entry holds. -/
lemma foundBySearch_of_objectSyntax (hpiece : s.toList ∈ objectSyntax) (hescaped : OccursInEscaped fold s)
    {text : String} (htext : x.item.HasText text) (hoccurs : Occurs fold s text) : FoundBySearch env fold s t x := by
  obtain hseverity | ⟨v, hbody, hholds⟩ | hholds := htext
  · exact foundBySearch_of_plain hfold hs hexported hx (.inl (hseverity ▸ hoccurs))
  · cases hholds.keeps_or_showsEntry with
    | inl hkeeps =>
      have hkept : x.item.KeepsText text := .inr (.inl ⟨v, hbody, hkeeps⟩)
      exact foundBySearch_of_occursInEscaped hfold hs hexported hx hescaped hkept hoccurs
    | inr hshows =>
      apply foundBySearch_of_body hfold hs hexported hx
      have hjson : (otelOptionToJson x.item.body).ShowsEntry := by rwa [hbody, otelOptionToJson]
      exact (objectSyntax_infix_bodyText env hjson hpiece).map fold
  · obtain ⟨kv, hkv⟩ := hholds.exists_entry
    exact foundBySearch_of_attributes hfold hs hexported hx ((objectSyntax_infix_attributes hkv hpiece).map fold)

end Complete

lemma SearchComplete.mono {has has' : LogRecord → String → Prop} {s : String} (h : SearchComplete env fold has s)
    (himp : ∀ record text, has' record text → has record text) : SearchComplete env fold has' s :=
  fun exports t hexported x hx text htext => h exports t hexported x hx text (himp _ _ htext)

end Search

/-! ### A record that hides a text -/

section Hidden

/-- The text between two runs of a character, as long as the text is. -/
def padded (z : Char) (s : String) : String :=
  .ofList (List.replicate s.toList.length z ++ (s.toList ++ List.replicate s.toList.length z))

/-- A structured body with the padded text, under JSON syntax the text itself does not begin with. -/
def hiddenBody (z : Char) (s : String) : AnyValue :=
  if s.toList.head? = some '[' then .kvlistValue [⟨"", some (.stringValue (padded z s))⟩]
  else .arrayValue [.stringValue (padded z s)]

/-- A record with nothing but a body and attributes, in the only place of its export. -/
def loneRecord (body : Option AnyValue) (attributes : List KeyValue) : LogRecord where
  body := body
  attributes := attributes

def loneItem (body : Option AnyValue) (attributes : List KeyValue) : InContext LogRecord :=
  ⟨none, "", none, "", loneRecord body attributes⟩

def loneLogs (body : Option AnyValue) (attributes : List KeyValue) : LogsData where
  resourceLogs := [{ scopeLogs := [{ logRecords := [loneRecord body attributes] }] }]

variable {fold : Char → Char} {s : String} {z : Char}

lemma logsExported_lone (env : Externals) (body : Option AnyValue) (attributes : List KeyValue) :
    LogsExported env [loneLogs body attributes] (writeLogs env {} (loneLogs body attributes) ∅).2 :=
  .accepted {} (loneLogs body attributes) 1 .nothing rfl

lemma mem_logItems_lone (body : Option AnyValue) (attributes : List KeyValue) :
    loneItem body attributes ∈ [loneLogs body attributes].flatMap logItems := List.mem_cons_self

lemma occurs_padded (fold : Char → Char) (z : Char) (s : String) : Occurs fold s (padded z s) := by
  unfold Occurs padded
  rw [String.toList_ofList]
  exact (List.infix_append' _ _ _).map fold

lemma holds_hiddenBody (z : Char) (s : String) : (hiddenBody z s).Holds (padded z s) := by
  unfold hiddenBody
  split
  · exact .value List.mem_cons_self rfl (.string _)
  · exact .element List.mem_cons_self (.string _)

lemma not_repeatsKey_string (v : String) : ¬ (AnyValue.stringValue v).RepeatsKey := by
  rintro ⟨⟩

lemma not_repeatsKey_empty : ¬ (AnyValue.kvlistValue []).RepeatsKey := by
  intro h
  cases h with
  | here hnot => exact hnot List.nodup_nil
  | value hmem _ _ => cases hmem

lemma not_repeatsKey_entry (key v : String) :
    ¬ (AnyValue.kvlistValue [⟨key, some (.stringValue v)⟩]).RepeatsKey := by
  intro h
  cases h with
  | here hnot => exact hnot (List.nodup_singleton _)
  | value hmem hvalue hrepeats =>
    rw [List.mem_singleton] at hmem
    rw [hmem] at hvalue
    cases hvalue
    exact not_repeatsKey_string _ hrepeats

lemma not_repeatsKey_hidden (z : Char) (s : String) : ¬ (loneRecord (some (hiddenBody z s)) []).RepeatsKey := by
  rintro (⟨v, hbody, hrepeats⟩ | hrepeats)
  · cases hbody
    unfold hiddenBody at hrepeats
    split at hrepeats
    · exact not_repeatsKey_entry _ _ hrepeats
    · cases hrepeats with
      | element hmem hrepeats =>
        rw [List.mem_singleton] at hmem
        exact not_repeatsKey_string _ (hmem ▸ hrepeats)
  · exact not_repeatsKey_empty hrepeats

lemma eq_of_infix_pair {l : List Char} {a b : Char} (h : l <:+: [a, b]) :
    l = [] ∨ l = [a] ∨ l = [b] ∨ l = [a, b] := by
  have hmem : l ∈ [[], [a], [b], [a, b]] := List.mem_sublists.mpr h.sublist
  simpa only [List.mem_cons, List.not_mem_nil, or_false] using hmem

variable (hfold : KeepsUncased fold)
include hfold

lemma eq_map_fold_of_uncased {l : List Char} (h : ∀ c ∈ l.map fold, IsUncased c) : l.map fold = l :=
  (List.map_congr_left fun _ hc => (hfold.eq_of_fold (h _ (List.mem_map_of_mem hc)) rfl).symm).trans (List.map_id l)

lemma infix_of_map_fold {l m : List Char} (hm : ∀ c ∈ m, IsUncased c) (h : l.map fold <:+: m) : l <:+: m := by
  rwa [eq_map_fold_of_uncased hfold fun c hc => hm c (h.subset hc)] at h

/-- Between runs, and inside JSON syntax it does not occur in, a text is found only if it occurs in its
own escaped form. -/
lemma not_infix_framed (hz : IsUncased z) (hne : s.toList.map fold ≠ []) (hhead : (s.toList.map fold).head hne ≠ z)
    (hlast : (s.toList.map fold).getLast hne ≠ z) (hescaped : ¬ OccursInEscaped fold s) {before after : List Char}
    (hbefore : ∀ c ∈ before, IsUncased c) (hafter : ∀ c ∈ after, IsUncased c)
    (hnotBefore : ¬ s.toList <:+: before) (hnotAfter : ¬ s.toList <:+: after) :
    ¬ s.toList.map fold <:+: (before ++ (List.replicate s.toList.length z ++
      (escaped s.toList ++ (List.replicate s.toList.length z ++ after)))).map fold := by
  intro h
  have hlength : (s.toList.map fold).length ≤ s.toList.length := by rw [List.length_map]
  simp only [List.map_append, List.map_replicate, hfold.fixes z hz] at h
  rw [map_eq_self_of_uncased hfold hbefore, map_eq_self_of_uncased hfold hafter] at h
  obtain hstart | hrest := infix_append_replicate hne hhead hlast hlength h
  · exact hnotBefore (infix_of_map_fold hfold hbefore hstart)
  · obtain hmiddle | hend := infix_append_replicate hne hhead hlast hlength hrest
    · exact hescaped hmiddle
    · exact hnotAfter (infix_of_map_fold hfold hafter hend)

lemma occursInEscaped_of_uncased {l : List Char} (hl : s.toList = l) (huncased : ∀ c ∈ l, IsUncased c)
    (hescaped : ∀ c ∈ escaped l, IsUncased c) (h : l <:+: escaped l) : OccursInEscaped fold s := by
  unfold OccursInEscaped
  rwa [hl, map_eq_self_of_uncased hfold huncased, map_eq_self_of_uncased hfold hescaped]

/-- A text that its escaped form hides is none of the pieces of JSON syntax that it does not hide. -/
lemma toList_ne_of_hidden (hescaped : ¬ OccursInEscaped fold s) {l : List Char} (huncased : ∀ c ∈ l, IsUncased c)
    (hescape : ∀ c ∈ escaped l, IsUncased c) (h : l <:+: escaped l) : s.toList ≠ l :=
  fun hl => hescaped (occursInEscaped_of_uncased hfold hl huncased hescape h)

omit hfold in
lemma not_infix_pair (hs : s ≠ "") {a b : Char} (ha : s.toList ≠ [a]) (hb : s.toList ≠ [b])
    (hab : s.toList ≠ [a, b]) : ¬ s.toList <:+: [a, b] := by
  intro h
  obtain hnil | hl | hl | hl := eq_of_infix_pair h
  · exact hs (String.toList_eq_nil_iff.mp hnil)
  · exact ha hl
  · exact hb hl
  · exact hab hl

lemma not_infix_emptyObject (hs : s ≠ "") (hescaped : ¬ OccursInEscaped fold s) :
    ¬ s.toList <:+: ['\x7b', '\x7d'] := by
  apply not_infix_pair hs
  · exact toList_ne_of_hidden hfold hescaped (forall_isUncased rfl) (forall_isUncased rfl) (by decide)
  · exact toList_ne_of_hidden hfold hescaped (forall_isUncased rfl) (forall_isUncased rfl) (by decide)
  · exact toList_ne_of_hidden hfold hescaped (forall_isUncased rfl) (forall_isUncased rfl) (by decide)

lemma not_infix_open (hs : s ≠ "") (hescaped : ¬ OccursInEscaped fold s) (hhead : s.toList.head? ≠ some '[') :
    ¬ s.toList <:+: ['[', '"'] := by
  apply not_infix_pair hs
  · intro hl
    exact hhead (by rw [hl]; rfl)
  · exact toList_ne_of_hidden hfold hescaped (forall_isUncased rfl) (forall_isUncased rfl) (by decide)
  · intro hl
    exact hhead (by rw [hl]; rfl)

lemma not_infix_close (hs : s ≠ "") (hescaped : ¬ OccursInEscaped fold s) : ¬ s.toList <:+: ['"', ']'] := by
  apply not_infix_pair hs
  · exact toList_ne_of_hidden hfold hescaped (forall_isUncased rfl) (forall_isUncased rfl) (by decide)
  · exact toList_ne_of_hidden hfold hescaped (forall_isUncased rfl) (forall_isUncased rfl) (by decide)
  · exact toList_ne_of_hidden hfold hescaped (forall_isUncased rfl) (forall_isUncased rfl) (by decide)

omit hfold in
lemma not_infix_of_head {c : Char} {l : List Char} (hhead : s.toList.head? = some c) (h : c ∉ l) : ¬ s.toList <:+: l :=
  fun hwithin => h (hwithin.subset (List.mem_of_mem_head? hhead))

omit hfold in
lemma escaped_padded (hz : Jsonb.escapeChar z = [z]) :
    escaped (padded z s).toList = List.replicate s.toList.length z ++
      (escaped s.toList ++ List.replicate s.toList.length z) := by
  have hrun : ∀ n, escaped (List.replicate n z) = List.replicate n z := by
    intro n
    induction n with
    | zero => rfl
    | succ n ih =>
      unfold escaped at ih ⊢
      rw [List.replicate_succ, List.flatMap_cons, hz, ih]
      rfl
  unfold padded
  rw [String.toList_ofList, escaped_append, escaped_append, hrun]

/-- The searched text is in the body, but not in the body's JSON text. -/
lemma not_occurs_hiddenBody (env : Externals) (hs : s ≠ "") (hescaped : ¬ OccursInEscaped fold s) (hz : IsUncased z)
    (hplain : Jsonb.escapeChar z = [z]) (hne : s.toList.map fold ≠ [])
    (hhead : (s.toList.map fold).head hne ≠ z) (hlast : (s.toList.map fold).getLast hne ≠ z) :
    ¬ Occurs fold s (bodyText env (loneRecord (some (hiddenBody z s)) [])) := by
  unfold Occurs
  by_cases hbracket : s.toList.head? = some '['
  · have hbody : (bodyText env (loneRecord (some (hiddenBody z s)) [])).toList =
        ['\x7b', '"', '"', ':', '"'] ++ (List.replicate s.toList.length z ++
          (escaped s.toList ++ (List.replicate s.toList.length z ++ ['"', '\x7d']))) := by
      have hjson : otelOptionToJson (loneRecord (some (hiddenBody z s)) []).body =
          .object [("", .string (padded z s))] := by
        simp only [loneRecord, hiddenBody, hbracket, if_true]
        rfl
      have hkey : escaped [] = [] := rfl
      rw [bodyText, hjson]
      simp [Json.display, Json.chars, Json.charsEntries, Json.charsEntry, quote_eq, escaped_padded hplain, hkey]
    rw [hbody]
    exact not_infix_framed hfold hz hne hhead hlast hescaped (forall_isUncased rfl) (forall_isUncased rfl)
      (not_infix_of_head hbracket (by decide)) (not_infix_of_head hbracket (by decide))
  · have hbody : (bodyText env (loneRecord (some (hiddenBody z s)) [])).toList =
        ['[', '"'] ++ (List.replicate s.toList.length z ++
          (escaped s.toList ++ (List.replicate s.toList.length z ++ ['"', ']']))) := by
      have hjson : otelOptionToJson (loneRecord (some (hiddenBody z s)) []).body = .array [.string (padded z s)] := by
        simp only [loneRecord, hiddenBody, hbracket, if_false]
        rfl
      rw [bodyText, hjson]
      simp [Json.display, Json.chars, Json.charsElems, quote_eq, escaped_padded hplain]
    rw [hbody]
    exact not_infix_framed hfold hz hne hhead hlast hescaped (forall_isUncased rfl) (forall_isUncased rfl)
      (not_infix_open hfold hs hescaped hbracket) (not_infix_close hfold hs hescaped)

omit hfold in
/-- A digit that differs from two characters. -/
lemma exists_digit (a b : Char) :
    ∃ z : Char, IsUncased z ∧ Jsonb.escapeChar z = [z] ∧ a ≠ z ∧ b ≠ z := by
  have hdigits : ∀ z ∈ ['0', '1', '2'], IsUncased z ∧ Jsonb.escapeChar z = [z] := by
    intro z hz
    simp only [List.mem_cons, List.not_mem_nil, or_false] at hz
    obtain rfl | rfl | rfl := hz
    · decide
    · decide
    · decide
  have hfree : ∃ z ∈ ['0', '1', '2'], a ≠ z ∧ b ≠ z := by
    by_cases h0 : a = '0' ∨ b = '0'
    · by_cases h1 : a = '1' ∨ b = '1'
      · have h01 : ('0' : Char) ≠ '1' := by decide
        have h02 : ('2' : Char) ≠ '0' := by decide
        have h12 : ('2' : Char) ≠ '1' := by decide
        refine ⟨'2', by simp, ?_⟩
        grind
      · exact ⟨'1', by simp, not_or.mp h1⟩
    · exact ⟨'0', by simp, not_or.mp h0⟩
  obtain ⟨z, hz, ha, hb⟩ := hfree
  obtain ⟨huncased, hplain⟩ := hdigits z hz
  exact ⟨z, huncased, hplain, ha, hb⟩

/-- What a search finds has its text in the body text or in the text of the attributes. -/
lemma occurs_of_foundBySearch {env : Externals} (hs : s ≠ "") {body : Option AnyValue} {attributes : List KeyValue}
    {t : LogsTable} (h : FoundBySearch env fold s t (loneItem body attributes)) :
    Occurs fold s (bodyText env (loneRecord body attributes)) ∨
      Occurs fold s ((attributesToJson attributes).toJsonb env.floatDigits).text := by
  obtain ⟨r, -, hrow, hmatches⟩ := h
  obtain ⟨hbody, hseverity, hattributes⟩ := texts_of_logItemRow hrow
  obtain h | h | h := (matches_search hfold hs r.row).mp hmatches
  · exact .inl (hbody ▸ h)
  · rw [hseverity] at h
    exact absurd (String.toList_eq_nil_iff.mp (List.map_eq_nil_iff.mp (List.infix_nil.mp h))) hs
  · exact .inr (hattributes ▸ h)

lemma SearchComplete.occurs {env : Externals} {has : LogRecord → String → Prop} (h : SearchComplete env fold has s)
    (hs : s ≠ "") {body : Option AnyValue} {attributes : List KeyValue} {text : String}
    (htext : has (loneRecord body attributes) text) (hoccurs : Occurs fold s text) :
    Occurs fold s (bodyText env (loneRecord body attributes)) ∨
      Occurs fold s ((attributesToJson attributes).toJsonb env.floatDigits).text :=
  occurs_of_foundBySearch hfold hs
    (h _ _ (logsExported_lone env body attributes) _ (mem_logItems_lone body attributes) text htext hoccurs)

lemma infix_of_occurs {l : List Char} {text : String} (h : Occurs fold s text) (htext : text.toList = l)
    (hl : ∀ c ∈ l, IsUncased c) : s.toList <:+: l := by
  unfold Occurs at h
  rw [htext, map_eq_self_of_uncased hfold hl] at h
  exact infix_of_map_fold hfold hl h

omit hfold in
lemma toList_text_noAttributes (env : Externals) :
    ((attributesToJson []).toJsonb env.floatDigits).text.toList = ['\x7b', '\x7d'] := by
  rw [Jsonb.Value.text, String.toList_ofList]
  simp [attributesToJson, otelEntriesToJson, collectMap, Json.toJsonb, Json.toJsonbEntries, Jsonb.Value.render]

/-- Of a text that its escaped form hides there is a stored record that has it, repeats no key and is
not found. -/
lemma not_searchComplete_of_hidden (env : Externals) (hs : s ≠ "") (hescaped : ¬ OccursInEscaped fold s) :
    ¬ SearchComplete env fold (fun record text => ¬ record.RepeatsKey ∧ record.HasText text) s := by
  have hne : s.toList.map fold ≠ [] := by
    rw [ne_eq, List.map_eq_nil_iff, String.toList_eq_nil_iff]
    exact hs
  obtain ⟨z, hz, hplain, hhead, hlast⟩ :=
    exists_digit ((s.toList.map fold).head hne) ((s.toList.map fold).getLast hne)
  intro hcomplete
  have htext : (loneRecord (some (hiddenBody z s)) []).HasText (padded z s) :=
    .inr (.inl ⟨_, rfl, holds_hiddenBody z s⟩)
  cases hcomplete.occurs hfold hs ⟨not_repeatsKey_hidden z s, htext⟩ (occurs_padded fold z s) with
  | inl h => exact not_occurs_hiddenBody hfold env hs hescaped hz hplain hne hhead hlast h
  | inr h =>
    exact not_infix_emptyObject hfold hs hescaped
      (infix_of_occurs hfold h (toList_text_noAttributes env) (forall_isUncased rfl))

end Hidden

section Replaced

/-- Two entries of one key, the first of which holds the text. -/
def replacedEntries (key s : String) (last : AnyValue) : List KeyValue :=
  [⟨key, some (.stringValue s)⟩, ⟨key, some last⟩]

lemma holds_replacedEntries (key s : String) (last : AnyValue) :
    (AnyValue.kvlistValue (replacedEntries key s last)).Holds s :=
  .value List.mem_cons_self rfl (.string s)

lemma toList_text_replacedEntries (env : Externals) (s : String) :
    ((attributesToJson (replacedEntries "" s (.arrayValue []))).toJsonb env.floatDigits).text.toList =
      ['\x7b', '"', '"', ':', ' ', '[', ']', '\x7d'] := by
  have hkey : Jsonb.quote "" = ['"', '"'] := by decide
  have hlast : (attributesToJson (replacedEntries "" s (.arrayValue []))) = .object [("", .array [])] := by
    simp [attributesToJson, replacedEntries, otelEntriesToJson, otelEntryToJson, otelOptionToJson, otelValueToJson,
      otelValuesToJson, collectMap, mapInsert]
  rw [hlast, Jsonb.Value.text, String.toList_ofList]
  simp [Json.toJsonb, Json.toJsonbEntries, Json.toJsonbEntry, Json.toJsonbElems, Jsonb.Value.render,
    Jsonb.Value.renderEntry, Jsonb.Value.renderEntries, hkey]

lemma toList_bodyText_replacedEntries (env : Externals) (s : String) :
    (bodyText env (loneRecord (some (.kvlistValue (replacedEntries "1" s (.kvlistValue [])))) [])).toList =
      ['\x7b', '"', '1', '"', ':', '\x7b', '\x7d', '\x7d'] := by
  have hkey : Jsonb.quote "1" = ['"', '1', '"'] := by decide
  have hlast : otelOptionToJson (some (.kvlistValue (replacedEntries "1" s (.kvlistValue [])))) =
      .object [("1", .object [])] := by
    simp [replacedEntries, otelEntriesToJson, otelEntryToJson, otelOptionToJson, otelValueToJson, collectMap, mapInsert]
  rw [bodyText, loneRecord, hlast]
  simp [Json.display, Json.chars, Json.charsEntries, Json.charsEntry, hkey]

/-- The texts that two objects without a common key or value share. -/
lemma mem_objectSyntax_of_infix {l : List Char} (hne : l ≠ [])
    (hattributes : l <:+: ['\x7b', '"', '"', ':', ' ', '[', ']', '\x7d'])
    (hbody : l <:+: ['\x7b', '"', '1', '"', ':', '\x7b', '\x7d', '\x7d'] ∨ l <:+: ['\x7b', '\x7d']) :
    l ∈ objectSyntax ∨ l = ['\x7b', '"'] := by
  have hall : ∀ u ∈ ['\x7b', '"', '"', ':', ' ', '[', ']', '\x7d'].tails, ∀ v ∈ u.inits, v ≠ [] →
      (v <:+: ['\x7b', '"', '1', '"', ':', '\x7b', '\x7d', '\x7d'] ∨ v <:+: ['\x7b', '\x7d']) →
        v ∈ objectSyntax ∨ v = ['\x7b', '"'] := by decide
  obtain ⟨u, hprefix, hsuffix⟩ := List.infix_iff_prefix_suffix.mp hattributes
  exact hall u ((List.mem_tails _ _).mpr hsuffix) l ((List.mem_inits _ _).mpr hprefix) hne hbody

variable {fold : Char → Char} (hfold : KeepsUncased fold) {s : String}
include hfold

/-- A text that is found wherever a record has it is a piece of the syntax of objects. -/
lemma mem_objectSyntax_of_searchComplete {env : Externals} (hs : s ≠ "") (hescaped : OccursInEscaped fold s)
    (h : SearchComplete env fold LogRecord.HasText s) : s.toList ∈ objectSyntax := by
  have hoccurs : Occurs fold s s := List.infix_rfl
  have hattributes : s.toList <:+: ['\x7b', '"', '"', ':', ' ', '[', ']', '\x7d'] := by
    have htext : (loneRecord none (replacedEntries "" s (.arrayValue []))).HasText s :=
      .inr (.inr (holds_replacedEntries "" s _))
    cases h.occurs hfold hs htext hoccurs with
    | inl hempty =>
      exact absurd (String.toList_eq_nil_iff.mp (List.map_eq_nil_iff.mp (List.infix_nil.mp hempty))) hs
    | inr hwithin => exact infix_of_occurs hfold hwithin (toList_text_replacedEntries env s) (forall_isUncased rfl)
  have hbody : s.toList <:+: ['\x7b', '"', '1', '"', ':', '\x7b', '\x7d', '\x7d'] ∨
      s.toList <:+: ['\x7b', '\x7d'] := by
    have htext : (loneRecord (some (.kvlistValue (replacedEntries "1" s (.kvlistValue [])))) []).HasText s :=
      .inr (.inl ⟨_, rfl, holds_replacedEntries "1" s _⟩)
    cases h.occurs hfold hs htext hoccurs with
    | inl hwithin =>
      exact .inl (infix_of_occurs hfold hwithin (toList_bodyText_replacedEntries env s) (forall_isUncased rfl))
    | inr hwithin => exact .inr (infix_of_occurs hfold hwithin (toList_text_noAttributes env) (forall_isUncased rfl))
  obtain hpiece | hquote :=
    mem_objectSyntax_of_infix (mt String.toList_eq_nil_iff.mp hs) hattributes hbody
  · exact hpiece
  -- The brace and the quote are no piece: an escaped quote has a backslash before it.
  · have hwithin : ¬ ['\x7b', '"'] <:+: escaped ['\x7b', '"'] := by decide
    unfold OccursInEscaped at hescaped
    rw [hquote, map_eq_self_of_uncased hfold (forall_isUncased rfl),
      map_eq_self_of_uncased hfold (forall_isUncased rfl)] at hescaped
    exact absurd hescaped hwithin

/-- The pieces of the syntax of objects occur in their own escaped forms. -/
lemma occursInEscaped_of_mem_objectSyntax (h : s.toList ∈ objectSyntax) : OccursInEscaped fold s := by
  have hall : ∀ l ∈ objectSyntax, l.all (fun c => decide (IsUncased c)) = true ∧
      (escaped l).all (fun c => decide (IsUncased c)) = true ∧ l <:+: escaped l := by decide
  obtain ⟨huncased, hescape, hwithin⟩ := hall _ h
  exact occursInEscaped_of_uncased hfold rfl (forall_isUncased huncased) (forall_isUncased hescape) hwithin

end Replaced

/-- A search for a text finds it wherever a record has it exactly where the text is a piece of the
syntax of objects: an entry may be replaced by a later one with its key. In the records that repeat
no key, and of any record in the texts it keeps, a text is found exactly where it occurs in its own
escaped form. Severity texts and string bodies are searched for any text. -/
theorem searchComplete_iff (env : Externals) {fold : Char → Char} (hfold : KeepsUncased fold) {s : String}
    (hs : s ≠ "") :
    (SearchComplete env fold LogRecord.HasText s ↔ s.toList ∈ objectSyntax) ∧
    (SearchComplete env fold (fun record text => ¬ record.RepeatsKey ∧ record.HasText text) s ↔
      OccursInEscaped fold s) ∧
    (SearchComplete env fold LogRecord.KeepsText s ↔ OccursInEscaped fold s) ∧
    ∀ exports t, LogsExported env exports t → ∀ x ∈ exports.flatMap logItems,
      (Occurs fold s x.item.severityText ∨ ∃ text, x.item.body = some (.stringValue text) ∧ Occurs fold s text) →
        FoundBySearch env fold s t x := by
  have hall : SearchComplete env fold (fun record text => ¬ record.RepeatsKey ∧ record.HasText text) s →
      OccursInEscaped fold s := by
    intro hcomplete
    by_contra hescaped
    exact not_searchComplete_of_hidden hfold env hs hescaped hcomplete
  have hkept : OccursInEscaped fold s → SearchComplete env fold LogRecord.KeepsText s :=
    fun hescaped exports t hexported x hx _ htext hoccurs =>
      foundBySearch_of_occursInEscaped hfold hs hexported hx hescaped htext hoccurs
  refine ⟨⟨fun h => ?_, fun hpiece => ?_⟩, ⟨hall, fun hescaped => ?_⟩, ⟨fun h => ?_, hkept⟩,
    fun exports t hexported x hx h => foundBySearch_of_plain hfold hs hexported hx h⟩
  · exact mem_objectSyntax_of_searchComplete hfold hs (hall (h.mono fun _ _ htext => htext.2)) h
  · intro exports t hexported x hx text htext hoccurs
    exact foundBySearch_of_objectSyntax hfold hs hexported hx hpiece
      (occursInEscaped_of_mem_objectSyntax hfold hpiece) htext hoccurs
  · exact (hkept hescaped).mono fun _ _ htext => (LogRecord.keepsText_iff htext.1 _).mpr htext.2
  · exact hall (h.mono fun _ _ htext => (LogRecord.keepsText_iff htext.1 _).mpr htext.2)

/-- A plain word is searched in all texts that a record keeps. -/
theorem searchComplete_word :
    (SearchComplete .inert Char.toLower LogRecord.HasText "word" ↔ "word".toList ∈ objectSyntax) ∧
    (SearchComplete .inert Char.toLower (fun record text => ¬ record.RepeatsKey ∧ record.HasText text) "word" ↔
      OccursInEscaped Char.toLower "word") ∧
    (SearchComplete .inert Char.toLower LogRecord.KeepsText "word" ↔ OccursInEscaped Char.toLower "word") ∧
    ∀ exports t, LogsExported .inert exports t → ∀ x ∈ exports.flatMap logItems,
      (Occurs Char.toLower "word" x.item.severityText ∨
        ∃ text, x.item.body = some (.stringValue text) ∧ Occurs Char.toLower "word" text) →
        FoundBySearch .inert Char.toLower "word" t x :=
  searchComplete_iff .inert keepsUncased_toLower (by decide)

/-- Attributes with a quote in a value. -/
def quotedAttributes : List KeyValue := [⟨"k", some (.stringValue "a\"b")⟩]

/-- The value of an attribute does not find it where it has a quote. -/
theorem quoted_value_hidden :
    (¬ ∀ s, s ≠ "" → SearchComplete .inert Char.toLower LogRecord.HasText s) ∧
    LogsExported .inert [loneLogs none quotedAttributes] (writeLogs .inert {} (loneLogs none quotedAttributes) ∅).2 ∧
    loneItem none quotedAttributes ∈ [loneLogs none quotedAttributes].flatMap logItems ∧
    (loneRecord none quotedAttributes).HasText "a\"b" ∧ ¬ (loneRecord none quotedAttributes).RepeatsKey ∧
    ¬ FoundBySearch .inert Char.toLower "a\"b" (writeLogs .inert {} (loneLogs none quotedAttributes) ∅).2
      (loneItem none quotedAttributes) := by
  have htext : (loneRecord none quotedAttributes).HasText "a\"b" :=
    .inr (.inr (.value List.mem_cons_self rfl (.string _)))
  have hexported := logsExported_lone .inert none quotedAttributes
  have hmem := mem_logItems_lone none quotedAttributes
  have hhidden : ¬ FoundBySearch .inert Char.toLower "a\"b"
      (writeLogs .inert {} (loneLogs none quotedAttributes) ∅).2 (loneItem none quotedAttributes) := by
    intro hfound
    have hattributes : ((attributesToJson quotedAttributes).toJsonb Externals.inert.floatDigits).text =
        "\x7b\"k\": \"a\\\"b\"\x7d" := by decide
    cases occurs_of_foundBySearch keepsUncased_toLower (by decide) hfound with
    | inl h =>
      revert h
      unfold Occurs
      decide
    | inr h =>
      rw [hattributes] at h
      revert h
      unfold Occurs
      decide
  refine ⟨fun h => ?_, hexported, hmem, htext, ?_, hhidden⟩
  · exact hhidden (h _ (by decide) _ _ hexported _ hmem _ htext List.infix_rfl)
  · rintro (⟨v, hbody, -⟩ | hrepeats)
    · cases hbody
    · exact not_repeatsKey_entry _ _ hrepeats

end OtelviewPostgres
