import OtelviewPostgres.Model.LogSearch
import OtelviewPostgres.Proofs.HexText
import OtelviewPostgres.Proofs.LogReadback

/-!
# Logs of a trace

A filter on a trace id turns into an equality and, for the index on the ids of sixteen bytes, a
condition on their length. Log records are stored with an id of any length, so that the condition
hides a record whose id has another one.
-/

namespace OtelviewPostgres

open Relational

section Matches

variable (env : Externals) (fold : Char → Char)

/-- The records of a table that meet the conditions. -/
def matchingLogs (conditions : List LogCondition) (t : LogsTable) : List (Stored LogRow) :=
  t.rows.filter fun r => conditions.all fun condition => condition.holds env fold r.row

def LogCondition.isTraceIdLength : LogCondition → Bool
  | traceIdLength => true
  | _ => false

/-- The conditions without the one on the length of the trace id. -/
def withoutLength (conditions : List LogCondition) : List LogCondition :=
  conditions.filter fun condition => !condition.isTraceIdLength

/-- The condition on the length does not change which records of the table a query finds. -/
def LengthRedundant (query : LogQueryParameters) (t : LogsTable) : Prop :=
  ∀ conditions, logConditions query = .ok conditions →
    matchingLogs env fold conditions t = matchingLogs env fold (withoutLength conditions) t

/-- The query for the records of one trace. -/
def LogQueryParameters.ofTrace (query : LogQueryParameters) (id : Bytes) : LogQueryParameters :=
  { query with traceId := hex id }

end Matches

section Conditions

lemma withoutLength_append (conditions conditions' : List LogCondition) :
    withoutLength (conditions ++ conditions') = withoutLength conditions ++ withoutLength conditions' :=
  List.filter_append ..

lemma withoutLength_timeBound {ts : Option Timestamp} {condition : Int → LogCondition} {bound : List LogCondition}
    (h : logTimeBound ts condition = .ok bound) (hcondition : ∀ n, (condition n).isTraceIdLength = false) :
    withoutLength bound = bound := by
  cases ts with
  | none =>
    cases h
    rfl
  | some ts =>
    obtain ⟨n, -, h⟩ := bind_eq_ok.mp h
    cases h
    rw [withoutLength, List.filter_singleton, hcondition n]
    rfl

lemma withoutLength_service_severity (noService severe : Bool) (s : String) (n : Int32) :
    withoutLength ((if noService then [] else [.serviceName s]) ++ if severe then [.minSeverity n] else []) =
      (if noService then [] else [.serviceName s]) ++ if severe then [.minSeverity n] else [] := by
  cases noService <;> cases severe <;> rfl

lemma withoutLength_search (noSearch : Bool) (pattern : String) :
    withoutLength (if noSearch then [] else [.search pattern]) = if noSearch then [] else [.search pattern] := by
  cases noSearch with
  | false => rfl
  | true => rfl

/-- What a trace id adds to the conditions the rest of the query asks for. -/
lemma logConditions_eq_ok {query : LogQueryParameters} {conditions : List LogCondition}
    (h : logConditions query = .ok conditions) :
    ∃ before traceId after, conditions = before ++ traceId ++ after ∧
      traceIdConditions query.traceId = .ok traceId ∧
      logConditions { query with traceId := "" } = .ok (before ++ after) ∧
      withoutLength before = before ∧ withoutLength after = after := by
  unfold logConditions at h
  obtain ⟨traceId, htraceId, h⟩ := bind_eq_ok.mp h
  obtain ⟨timeMin, hmin, h⟩ := bind_eq_ok.mp h
  obtain ⟨timeMax, hmax, h⟩ := bind_eq_ok.mp h
  obtain rfl := Except.ok.inj h
  refine ⟨(if query.serviceName.isEmpty then [] else [.serviceName query.serviceName]) ++
      if 0 < query.minSeverity then [.minSeverity query.minSeverity] else [],
    traceId,
    timeMin ++ timeMax ++ if query.search.isEmpty then [] else [.search ("%" ++ escapeLike query.search ++ "%")],
    ?_, htraceId, ?_, ?_, ?_⟩
  · simp only [List.append_assoc]
  · unfold logConditions
    rw [hmin, hmax]
    simp only [List.append_assoc]
    rfl
  · have hparts := withoutLength_service_severity query.serviceName.isEmpty (decide (0 < query.minSeverity))
      query.serviceName query.minSeverity
    simpa only [decide_eq_true_eq] using hparts
  · rw [withoutLength_append, withoutLength_append, withoutLength_timeBound hmin fun _ => rfl,
      withoutLength_timeBound hmax fun _ => rfl, withoutLength_search]

end Conditions

section Correlation

variable {env : Externals} {fold : Char → Char} {query : LogQueryParameters} {row : LogRow}

/-- The conditions a trace id adds ask for the id and for its length. -/
lemma traceIdConditions_eq_ok {hex : String} {id : Bytes} {traceId : List LogCondition} (hne : hex ≠ "")
    (hid : hexDecode hex = .ok (some id)) (h : traceIdConditions hex = .ok traceId) :
    traceId = [.traceId id, .traceIdLength] := by
  unfold traceIdConditions at h
  rw [if_neg (by rwa [String.isEmpty_iff]), hid] at h
  exact (Except.ok.inj h).symm

variable (env fold row) in
/-- Conditions with a filter on a trace id, with and without the condition on its length. -/
lemma holds_of_traceId {conditions : List LogCondition} {id : Bytes} (hne : query.traceId ≠ "")
    (hid : hexDecode query.traceId = .ok (some id)) (h : logConditions query = .ok conditions) :
    ((conditions.all fun condition => condition.holds env fold row) = true ↔
      { query with traceId := "" }.Matches env fold row ∧ row.traceId = id ∧ id.length = 16) ∧
    (((withoutLength conditions).all fun condition => condition.holds env fold row) = true ↔
      { query with traceId := "" }.Matches env fold row ∧ row.traceId = id) := by
  obtain ⟨before, traceId, after, rfl, htraceId, hrest, hbefore, hafter⟩ := logConditions_eq_ok h
  obtain rfl := traceIdConditions_eq_ok hne hid htraceId
  have hmatches : { query with traceId := "" }.Matches env fold row ↔
      ((before ++ after).all fun condition => condition.holds env fold row) = true := by
    constructor
    · rintro ⟨conditions, hconditions, hall⟩
      rw [hrest] at hconditions
      cases hconditions
      exact hall
    · exact fun hall => ⟨_, hrest, hall⟩
  have hwithout : withoutLength [.traceId id, .traceIdLength] = [.traceId id] := rfl
  rw [hmatches, withoutLength_append, withoutLength_append, hbefore, hafter, hwithout]
  simp only [List.all_append, Bool.and_eq_true, List.all_cons, List.all_nil, LogCondition.holds, beq_iff_eq,
    Bool.and_true]
  constructor
  · constructor
    · rintro ⟨⟨hb, rfl, hlength⟩, ha⟩
      exact ⟨⟨hb, ha⟩, rfl, hlength⟩
    · rintro ⟨⟨hb, ha⟩, rfl, hlength⟩
      exact ⟨⟨hb, rfl, hlength⟩, ha⟩
  · constructor
    · rintro ⟨⟨hb, heq⟩, ha⟩
      exact ⟨⟨hb, ha⟩, heq⟩
    · rintro ⟨⟨hb, ha⟩, heq⟩
      exact ⟨⟨hb, heq⟩, ha⟩

/-- Without a filter on a trace id there is no condition on the length. -/
lemma withoutLength_of_no_traceId {conditions : List LogCondition} (hempty : query.traceId = "")
    (h : logConditions query = .ok conditions) : withoutLength conditions = conditions := by
  obtain ⟨before, traceId, after, rfl, htraceId, -, hbefore, hafter⟩ := logConditions_eq_ok h
  rw [hempty] at htraceId
  have hnil : traceId = [] := (Except.ok.inj htraceId).symm
  rw [hnil, List.append_nil, withoutLength_append, hbefore, hafter]

lemma exists_hexDecode_of_conditions {conditions : List LogCondition} (hne : query.traceId ≠ "")
    (h : logConditions query = .ok conditions) : ∃ id, hexDecode query.traceId = .ok (some id) := by
  obtain ⟨before, traceId, after, -, htraceId, -⟩ := logConditions_eq_ok h
  unfold traceIdConditions at htraceId
  rw [if_neg (by rwa [String.isEmpty_iff])] at htraceId
  split at htraceId
  · cases htraceId
  · cases htraceId
  · exact ⟨_, by assumption⟩

/-- Two conditions select the same rows exactly when they agree on each row. -/
lemma matchingLogs_eq_iff {conditions conditions' : List LogCondition} {t : LogsTable} :
    matchingLogs env fold conditions t = matchingLogs env fold conditions' t ↔
      ∀ r ∈ t.rows, ((conditions.all fun condition => condition.holds env fold r.row) = true ↔
        (conditions'.all fun condition => condition.holds env fold r.row) = true) := by
  unfold matchingLogs
  constructor
  · intro h r hr
    have hmem : r ∈ t.rows.filter (fun r => conditions.all fun condition => condition.holds env fold r.row) ↔
        r ∈ t.rows.filter fun r => conditions'.all fun condition => condition.holds env fold r.row := by rw [h]
    rw [List.mem_filter, List.mem_filter] at hmem
    exact ⟨fun hall => (hmem.mp ⟨hr, hall⟩).2, fun hall => (hmem.mpr ⟨hr, hall⟩).2⟩
  · intro h
    exact List.filter_congr fun r hr => Bool.eq_iff_iff.mpr (h r hr)

/-- A trace id that can be decoded does not make a query fail. -/
lemma exists_logConditions {id : Bytes} {conditions : List LogCondition} (hid : hexDecode query.traceId = .ok (some id))
    (h : logConditions { query with traceId := "" } = .ok conditions) :
    ∃ conditions', logConditions query = .ok conditions' := by
  obtain ⟨_, -, h⟩ := bind_eq_ok.mp h
  obtain ⟨timeMin, hmin, h⟩ := bind_eq_ok.mp h
  obtain ⟨timeMax, hmax, h⟩ := bind_eq_ok.mp h
  have htraceId : ∃ traceId, traceIdConditions query.traceId = .ok traceId := by
    unfold traceIdConditions
    rw [hid]
    split
    · exact ⟨_, rfl⟩
    · exact ⟨_, rfl⟩
  obtain ⟨traceId, htraceId⟩ := htraceId
  unfold logConditions
  rw [htraceId, hmin, hmax]
  exact ⟨_, rfl⟩

lemma lengthRedundant_of_no_traceId {t : LogsTable} (hempty : query.traceId = "") :
    LengthRedundant env fold query t := by
  intro conditions h
  rw [withoutLength_of_no_traceId hempty h]

lemma lengthRedundant_of_traceId {t : LogsTable} {id : Bytes} (hne : query.traceId ≠ "")
    (hid : hexDecode query.traceId = .ok (some id)) :
    LengthRedundant env fold query t ↔ id.length = 16 ∨
      ∀ r ∈ t.rows, r.row.traceId = id → ¬ { query with traceId := "" }.Matches env fold r.row := by
  constructor
  · intro hredundant
    by_cases hlength : id.length = 16
    · exact .inl hlength
    · refine .inr fun r hr heq hmatches => ?_
      obtain ⟨rest, hrest, hall⟩ := hmatches
      obtain ⟨conditions, h⟩ := exists_logConditions hid hrest
      obtain ⟨hwith, hwithout⟩ := holds_of_traceId env fold r.row hne hid h
      have hagree := matchingLogs_eq_iff.mp (hredundant conditions h) r hr
      exact hlength (hwith.mp (hagree.mpr (hwithout.mpr ⟨⟨rest, hrest, hall⟩, heq⟩))).2.2
  · intro hcond conditions h
    refine matchingLogs_eq_iff.mpr fun r hr => ?_
    obtain ⟨hwith, hwithout⟩ := holds_of_traceId env fold r.row hne hid h
    rw [hwith, hwithout]
    constructor
    · exact fun hall => ⟨hall.1, hall.2.1⟩
    · intro hall
      cases hcond with
      | inl hlength => exact ⟨hall.1, hall.2, hlength⟩
      | inr hnone => exact absurd hall.1 (hnone r hr hall.2)

lemma lengthRedundant_of_not_hex {t : LogsTable} (hne : query.traceId ≠ "")
    (hnot : ¬ ∃ id, hexDecode query.traceId = .ok (some id)) : LengthRedundant env fold query t :=
  fun _ h => absurd (exists_hexDecode_of_conditions hne h) hnot

lemma hex_ne_empty {id : Bytes} (h : id ≠ []) : hex id ≠ "" := by
  intro hempty
  have hlength := length_hex id
  rw [hempty] at hlength
  exact h (List.length_eq_zero_iff.mp (by simpa using hlength.symm))

/-- The query for a trace finds a record with an id of sixteen bytes, and no other. -/
lemma matches_ofTrace {id : Bytes} (hid : id ≠ []) (hquery : query.Unfiltered) :
    (query.ofTrace id).Matches env fold row ↔ row.traceId = id ∧ id.length = 16 := by
  have hrest : logConditions { query.ofTrace id with traceId := "" } = .ok [] :=
    logConditions_of_unfiltered ⟨hquery.serviceName, hquery.minSeverity, rfl, hquery.timeMin, hquery.timeMax,
      hquery.search⟩
  have hne : (query.ofTrace id).traceId ≠ "" := hex_ne_empty hid
  have hdecode : hexDecode (query.ofTrace id).traceId = .ok (some id) := hexDecode_hex id
  obtain ⟨conditions, h⟩ := exists_logConditions hdecode hrest
  obtain ⟨hwith, -⟩ := holds_of_traceId env fold row hne hdecode h
  constructor
  · rintro ⟨conditions', h', hall⟩
    rw [h] at h'
    cases h'
    exact (hwith.mp hall).2
  · exact fun hrow => ⟨conditions, h, hwith.mpr ⟨⟨[], hrest, rfl⟩, hrow⟩⟩

lemma traceId_of_logItemRow {x : InContext LogRecord} (h : logItemRow env x = .ok row) :
    row.traceId = x.item.traceId := by
  obtain ⟨time, -, h⟩ := bind_eq_ok.mp h
  obtain ⟨observed, -, h⟩ := bind_eq_ok.mp h
  obtain rfl := Except.ok.inj h
  rfl

end Correlation

section Trace

variable (env : Externals) (fold : Char → Char)

/-- The record is stored, and the query for its trace finds it. -/
def FoundByTrace (query : LogQueryParameters) (t : LogsTable) (x : InContext LogRecord) : Prop :=
  ∃ r ∈ t.rows, logItemRow env x = .ok r.row ∧ (query.ofTrace x.item.traceId).Matches env fold r.row

variable {env fold}

lemma foundByTrace_iff {exports : List LogsData} {t : LogsTable} (hexported : LogsExported env exports t)
    {x : InContext LogRecord} (hx : x ∈ exports.flatMap logItems) (hid : x.item.traceId ≠ [])
    {query : LogQueryParameters} (hquery : query.Unfiltered) :
    FoundByTrace env fold query t x ↔ x.item.traceId.length = 16 := by
  constructor
  · rintro ⟨r, -, -, hmatches⟩
    exact ((matches_ofTrace hid hquery).mp hmatches).2
  · intro hlength
    obtain ⟨r, hr, hstored⟩ := exists_stored_of_exported hexported hx
    exact ⟨r, hr, hstored, (matches_ofTrace hid hquery).mpr ⟨traceId_of_logItemRow hstored, hlength⟩⟩

/-- The records of a trace are found by its id, and the condition on the length changes nothing,
exactly for the ids of sixteen bytes, and for those of which there is nothing to be found. -/
theorem trace_correlation_iff (env : Externals) (fold : Char → Char) :
    (∀ exports t, LogsExported env exports t → ∀ x ∈ exports.flatMap logItems, x.item.traceId ≠ [] →
      ∀ query : LogQueryParameters, query.Unfiltered →
        (FoundByTrace env fold query t x ↔ x.item.traceId.length = 16)) ∧
    ∀ (query : LogQueryParameters) (t : LogsTable), LengthRedundant env fold query t ↔
      ∀ id, query.traceId ≠ "" → hexDecode query.traceId = .ok (some id) → id.length = 16 ∨
        ∀ r ∈ t.rows, r.row.traceId = id → ¬ { query with traceId := "" }.Matches env fold r.row := by
  refine ⟨fun exports t hexported x hx hid query hquery => foundByTrace_iff hexported hx hid hquery, fun query t => ?_⟩
  constructor
  · exact fun hredundant id hne hid => (lengthRedundant_of_traceId hne hid).mp hredundant
  · intro hcond
    by_cases hne : query.traceId = ""
    · exact lengthRedundant_of_no_traceId hne
    · by_cases hid : ∃ id, hexDecode query.traceId = .ok (some id)
      · obtain ⟨id, hid⟩ := hid
        exact (lengthRedundant_of_traceId hne hid).mpr (hcond id hne hid)
      · exact lengthRedundant_of_not_hex hne hid

end Trace

/-- One record of the trace. -/
def logOfTrace (id : Bytes) : LogsData where
  resourceLogs := [{ scopeLogs := [{ logRecords := [{ traceId := id }] }] }]

def oneTraceLogged (id : Bytes) : LogsTable := (writeLogs .inert {} (logOfTrace id) ∅).2

lemma logsExported_oneTrace (id : Bytes) : LogsExported .inert [logOfTrace id] (oneTraceLogged id) :=
  .accepted {} (logOfTrace id) 1 .nothing rfl

lemma mem_logItems_oneTrace (id : Bytes) :
    ⟨none, "", none, "", { traceId := id }⟩ ∈ [logOfTrace id].flatMap logItems :=
  List.mem_cons_self

/-- A stored record with a trace id of one byte is not found by it, and it is the condition on the
length that hides it. -/
theorem short_trace_id_hidden :
    ¬ ((∀ exports t, LogsExported .inert exports t → ∀ x ∈ exports.flatMap logItems, x.item.traceId ≠ [] →
        ∀ query : LogQueryParameters, query.Unfiltered → FoundByTrace .inert Char.toLower query t x) ∧
      ∀ (query : LogQueryParameters) (t : LogsTable), LengthRedundant .inert Char.toLower query t) ∧
    ¬ FoundByTrace .inert Char.toLower {} (oneTraceLogged [1]) ⟨none, "", none, "", { traceId := [1] }⟩ ∧
    ¬ LengthRedundant .inert Char.toLower { traceId := "01" } (oneTraceLogged [1]) := by
  have hfound : ¬ FoundByTrace .inert Char.toLower {} (oneTraceLogged [1])
      ⟨none, "", none, "", { traceId := [1] }⟩ := by
    rw [foundByTrace_iff (logsExported_oneTrace [1]) (mem_logItems_oneTrace [1]) (by decide)
      ⟨rfl, by decide, rfl, rfl, rfl, rfl⟩]
    decide
  refine ⟨fun h => hfound ?_, hfound, ?_⟩
  · exact h.1 _ _ (logsExported_oneTrace [1]) _ (mem_logItems_oneTrace [1]) (by decide) {}
      ⟨rfl, by decide, rfl, rfl, rfl, rfl⟩
  · have hdecode : hexDecode ({ traceId := "01" } : LogQueryParameters).traceId = .ok (some [1]) := by decide
    rw [lengthRedundant_of_traceId (by decide) hdecode]
    rintro (hlength | hnone)
    · exact absurd hlength (by decide)
    · exact hnone _ List.mem_cons_self rfl ⟨[], rfl, rfl⟩

end OtelviewPostgres
