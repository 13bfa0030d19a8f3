import OtelviewPostgres.Proofs.FoundBounds
import OtelviewPostgres.Proofs.LogTextSearch
import OtelviewPostgres.Proofs.Streaming
import OtelviewPostgres.Proofs.TraceCorrelation

/-!
# What a search for logs matches

The conditions of a log search are on columns. Here they are stated for the records that were
exported: their service, severity, trace, time and texts.
-/

namespace OtelviewPostgres

open Relational

/-- What the query asks for. Its trace id is hexadecimal text in either case, and its text may occur
in the body, in the severity text and in the JSON text of the attributes. -/
structure LogQueryParameters.AskedOf (env : Externals) (fold : Char → Char) (query : LogQueryParameters)
    (x : InContext LogRecord) : Prop where
  serviceName : query.serviceName = "" ∨ query.serviceName = resourceService x.resource
  minSeverity : query.minSeverity ≤ 0 ∨ query.minSeverity ≤ x.item.severityNumber
  traceId : query.traceId = "" ∨ query.traceId.toLower = hex x.item.traceId
  timeMin : ∀ ts ∈ query.timeMin, ts.exactNanos ≤ (effectiveTime x.item).toNat
  timeMax : ∀ ts ∈ query.timeMax, (effectiveTime x.item).toNat < ts.exactNanos
  search : query.search = "" ∨ Occurs fold query.search (bodyText env x.item) ∨
    Occurs fold query.search x.item.severityText ∨
    Occurs fold query.search ((attributesToJson x.item.attributes).toJsonb env.floatDigits).text

section Asked

variable {env : Externals} {fold : Char → Char} {query : LogQueryParameters} {x : InContext LogRecord} {row : LogRow}

lemma holds_logTimeBound_iff {ts : Option Timestamp} {condition : Int → LogCondition} {conditions : List LogCondition}
    (h : logTimeBound ts condition = .ok conditions) (row : LogRow) :
    (∀ c ∈ conditions, c.holds env fold row = true) ↔
      ∀ ts' ∈ ts, (condition ts'.exactNanos).holds env fold row = true := by
  cases ts with
  | none =>
    cases h
    simp
  | some ts =>
    obtain ⟨n, hn, h⟩ := bind_eq_ok.mp h
    rw [mapError_eq_ok] at hn
    obtain rfl := Except.ok.inj h
    simp [eq_exactNanos hn]

/-- A trace id adds conditions only if it is there: on the id that the text is of, and on its length. -/
lemma holds_traceIdConditions_iff {conditions : List LogCondition} {text : String}
    (hdigits : ∀ c ∈ text.toList, IsHexDigit c) (h : traceIdConditions text = .ok conditions) :
    (∀ c ∈ conditions, c.holds env fold row = true) ↔
      text = "" ∨ text.toLower = hex row.traceId ∧ row.traceId.length = 16 := by
  obtain ⟨decoded, hdecoded, hexact⟩ := hexDecodesExactly_of_not_misread (not_misread_of_digits hdigits)
  unfold traceIdConditions at h
  split at h
  next hempty =>
    obtain rfl := Except.ok.inj h
    simp [String.isEmpty_iff.mp hempty]
  next hne =>
    have hne' : text ≠ "" := fun heq => hne (String.isEmpty_iff.mpr heq)
    split at h
    next => cases h
    next => cases h
    next id hid =>
      obtain rfl := Except.ok.inj h
      obtain rfl := Except.ok.inj (hdecoded.symm.trans hid)
      rw [or_iff_right hne', ← hexact]
      simp only [List.forall_mem_cons, List.not_mem_nil, false_imp_iff, implies_true, and_true, LogCondition.holds,
        beq_iff_eq, Option.some.injEq]
      exact and_congr_left fun _ => eq_comm

lemma columns_of_logItemRow (h : logItemRow env x = .ok row) :
    row.service = resourceService x.resource ∧ row.severityNumber = x.item.severityNumber := by
  obtain ⟨time, -, h⟩ := bind_eq_ok.mp h
  obtain ⟨observed, -, h⟩ := bind_eq_ok.mp h
  obtain rfl := Except.ok.inj h
  exact ⟨serviceName_resourceAttributes x.resource, rfl⟩

/-- The row of a record meets the conditions of a query if and only if the record has what it asks for
and, where that is a trace id, an id of sixteen bytes. -/
theorem matches_iff_askedOf (hfold : KeepsWildcards fold) (hdigits : ∀ c ∈ query.traceId.toList, IsHexDigit c)
    (h : logItemRow env x = .ok row) {conditions : List LogCondition}
    (hconditions : logConditions query = .ok conditions) :
    query.Matches env fold row ↔
      query.AskedOf env fold x ∧ (query.traceId = "" ∨ x.item.traceId.length = 16) := by
  rw [matches_iff_all hconditions, List.all_eq_true]
  obtain ⟨traceId, htraceId, hrest⟩ := bind_eq_ok.mp hconditions
  obtain ⟨timeMin, hmin, hrest⟩ := bind_eq_ok.mp hrest
  obtain ⟨timeMax, hmax, hrest⟩ := bind_eq_ok.mp hrest
  obtain rfl := Except.ok.inj hrest
  obtain ⟨hservice, hseverity⟩ := columns_of_logItemRow h
  obtain ⟨hbody, hseverityText, hattributes⟩ := texts_of_logItemRow h
  simp only [List.forall_mem_append]
  rw [forall_mem_unless, forall_mem_when, forall_mem_unless, holds_traceIdConditions_iff hdigits htraceId,
    holds_logTimeBound_iff hmin, holds_logTimeBound_iff hmax]
  simp only [LogCondition.holds, decide_eq_true_iff, beq_iff_eq, Bool.or_eq_true, ilike_searchPattern hfold,
    String.isEmpty_iff, Int32.not_lt, traceId_of_logItemRow h, (logItemRow_eq_ok h).1, hservice, hseverity, hbody,
    hseverityText, hattributes]
  constructor
  · rintro ⟨⟨⟨⟨⟨h1, h2⟩, h3⟩, h4⟩, h5⟩, h6⟩
    refine ⟨⟨h1.imp_right Eq.symm, h2, h3.imp_right And.left, h4, h5, h6.imp_right or_assoc.mp⟩, ?_⟩
    exact h3.imp_right And.right
  · rintro ⟨⟨h1, h2, h3, h4, h5, h6⟩, hlength⟩
    refine ⟨⟨⟨⟨⟨h1.imp_right Eq.symm, h2⟩, ?_⟩, h4⟩, h5⟩, h6.imp_right or_assoc.mpr⟩
    rw [or_and_left]
    exact ⟨h3, hlength⟩

end Asked

/-- A search, for a trace or not, returns only records that have everything the query asks for, each
once, the newest first and no more than its depth. A record that has it is left out only if as many as
the depth are found that are not older, or if its trace is asked for and its id has not sixteen bytes. -/
theorem log_search_finds_asked (env : Externals) (s : Store) (hs : s.Reachable env) (fold : Char → Char)
    (hfold : KeepsWildcards fold) (maxSearchDepth : ℕ) (order : OrderBy (Stored LogRow) NewerLog)
    (query : LogQueryParameters) (hdigits : ∀ c ∈ query.traceId.toList, IsHexDigit c) (payloads : List Bytes)
    (hfind : findLogs env fold maxSearchDepth none none order query s.logs = .ok payloads) :
    ∃ rows : List (Stored LogRow), payloads = rows.map (fun r => r.row.payload) ∧ rows.Nodup ∧
      rows.Pairwise NewerLog ∧ rows.length ≤ searchDepth maxSearchDepth query.searchDepth ∧
      (∀ r ∈ rows, r ∈ s.logs.rows ∧ ∃ x, logItemRow env x = .ok r.row ∧ query.AskedOf env fold x ∧
        (query.traceId = "" ∨ x.item.traceId.length = 16)) ∧
      ∀ r ∈ s.logs.rows, ∀ x, logItemRow env x = .ok r.row → query.AskedOf env fold x →
        r ∈ rows ∨
          (rows.length = searchDepth maxSearchDepth query.searchDepth ∧ ∀ r' ∈ rows, r.row.time ≤ r'.row.time) ∨
          query.traceId ≠ "" ∧ x.item.traceId.length ≠ 16 := by
  obtain ⟨rows, hpayloads, hfound⟩ := foundLogs_of_findLogs hfind
  obtain ⟨conditions, hconditions, -⟩ := bind_eq_ok.mp hfind
  refine ⟨rows, hpayloads, hfound.nodup, hfound.newestFirst, hfound.length_le, fun r hr => ?_,
    fun r hr x hx hasked => ?_⟩
  · obtain ⟨hstored, hmatch⟩ := hfound.stored r hr
    obtain ⟨x, hx⟩ := exists_logItem hs r hstored
    exact ⟨hstored, x, hx, (matches_iff_askedOf hfold hdigits hx hconditions).mp hmatch⟩
  · by_cases hlength : query.traceId = "" ∨ x.item.traceId.length = 16
    · have hmatch := (matches_iff_askedOf hfold hdigits hx hconditions).mpr ⟨hasked, hlength⟩
      by_cases hmem : r ∈ rows
      · exact .inl hmem
      · exact .inr (.inl (hfound.newest r hr hmatch hmem))
    · exact .inr (.inr (not_or.mp hlength))

/-- Three records of two traces, of which two have a percent sign in their body. -/
def diskLogs : LogsData where
  resourceLogs := [{ scopeLogs := [{ logRecords := [
    { timeUnixNano := 5, traceId := .replicate 16 171, body := some (.stringValue "Disk 100% full") },
    { timeUnixNano := 6, traceId := .replicate 16 171, body := some (.stringValue "Disk 1000 full") },
    { timeUnixNano := 7, traceId := .replicate 16 2, body := some (.stringValue "Disk 100% full") }] }] }]

def diskLogged : Store where
  logs := (writeLogs .inert {} diskLogs ∅).2

/-- A text in a trace whose id is written with capital letters. -/
def diskQuery : LogQueryParameters where
  traceId := "ABABABABABABABABABABABABABABABAB"
  search := "100% F"

theorem log_search_finds_asked_percent :
    ∃ payloads, findLogs .inert Char.toLower 20 none none (.stable NewerLog) diskQuery diskLogged.logs =
        .ok payloads ∧
      ∃ rows : List (Stored LogRow), payloads = rows.map (fun r => r.row.payload) ∧
        ∀ r ∈ rows, r ∈ diskLogged.logs.rows ∧ ∃ x, logItemRow .inert x = .ok r.row ∧
          diskQuery.AskedOf .inert Char.toLower x ∧ (diskQuery.traceId = "" ∨ x.item.traceId.length = 16) := by
  have hdigits : ∀ c ∈ diskQuery.traceId.toList, IsHexDigit c := fun c hc => by
    have hall : diskQuery.traceId.toList.all (fun c => decide (IsHexDigit c)) = true := rfl
    exact of_decide_eq_true (List.all_eq_true.mp hall c hc)
  obtain ⟨rows, hpayloads, -, -, -, hasked, -⟩ := log_search_finds_asked .inert diskLogged
    (.writeLogs {} diskLogs .empty) Char.toLower keepsUncased_toLower.keepsWildcards 20 (.stable NewerLog)
    diskQuery hdigits _ rfl
  exact ⟨_, rfl, rows, hpayloads, hasked⟩

end OtelviewPostgres
