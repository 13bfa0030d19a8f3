import OtelviewPostgres.Model.Retention
import OtelviewPostgres.Proofs.TraceSearches

/-!
# What a failed search tells the client

The server reads off the text of an error whether a parameter of the request was refused. It is
right about the errors that the storage code raises and about those that it wraps. An error of
the database that arrives as it is goes to the client where its text happens to name a parameter.
-/

namespace OtelviewPostgres

open Relational

def Timestamp.OutOfRange (ts : Timestamp) : Prop := checkedNanos ts.seconds ts.nanos = none

def Duration.OutOfRange (d : Duration) : Prop := checkedNanos d.seconds d.nanos = none

def TraceQueryParameters.Refused (query : TraceQueryParameters) : Prop :=
  (∃ ts ∈ query.startTimeMin, ts.OutOfRange) ∨ (∃ ts ∈ query.startTimeMax, ts.OutOfRange) ∨
    (∃ d ∈ query.durationMin, d.OutOfRange) ∨ ∃ d ∈ query.durationMax, d.OutOfRange

/-- A trace id is refused if there are no bytes that it is read as. -/
def LogQueryParameters.Refused (query : LogQueryParameters) : Prop :=
  (query.traceId ≠ "" ∧ ∀ id, hexDecode query.traceId ≠ .ok (some id)) ∨
    (∃ ts ∈ query.timeMin, ts.OutOfRange) ∨ ∃ ts ∈ query.timeMax, ts.OutOfRange

def MetricQueryParameters.Refused (query : MetricQueryParameters) : Prop :=
  query.metricName = "" ∨ (∃ ts ∈ query.timeMin, ts.OutOfRange) ∨ ∃ ts ∈ query.timeMax, ts.OutOfRange

/-- The words that the server looks for in the text of an error. -/
def parameterWords : List String := ["timestamp", "duration", "trace_id", "metric_name"]

def Error.NamesParameter (e : Error) : Prop := ∃ word ∈ parameterWords, mentions e.display word = true

/-- An error that names a parameter, or no error at all. -/
def Failure.NamesParameter : Failure Error → Prop
  | error e => e.NamesParameter
  | panic _ => True

section Parameters

lemma checks_timestampToNanos (ts : Timestamp) :
    Checks Error.NamesParameter ts.OutOfRange (timestampToNanos ts) := by
  unfold timestampToNanos Timestamp.OutOfRange
  cases hnanos : checkedNanos ts.seconds ts.nanos with
  | none => exact ⟨rfl, "timestamp", by decide, by decide⟩
  | some n => exact Option.some_ne_none n

lemma checks_durationToNanos (d : Duration) : Checks Error.NamesParameter d.OutOfRange (durationToNanos d) := by
  unfold durationToNanos Duration.OutOfRange
  cases hnanos : checkedNanos d.seconds d.nanos with
  | none => exact ⟨rfl, "duration", by decide, by decide⟩
  | some n => exact Option.some_ne_none n

lemma checks_timeBound (ts : Option Timestamp) (condition : Int → SpanCondition) :
    Checks Error.NamesParameter (∃ t ∈ ts, t.OutOfRange) (timeBound ts condition) := by
  cases ts with
  | none => exact .of_none _ _
  | some ts => exact .of_some ((checks_timestampToNanos ts).bind_pure _)

lemma checks_durationBound (d : Option Duration) :
    Checks Error.NamesParameter (∃ d' ∈ d, d'.OutOfRange) (durationBound d) := by
  cases d with
  | none => exact .of_none _ _
  | some d => exact .of_some ((checks_durationToNanos d).bind_pure _)

lemma checks_optionalNanos (ts : Option Timestamp) :
    Checks Error.NamesParameter (∃ t ∈ ts, t.OutOfRange) (optionalNanos ts) := by
  cases ts with
  | none => exact .of_none _ _
  | some ts => exact .of_some ((checks_timestampToNanos ts).bind_pure _)

lemma checks_logTimeBound (ts : Option Timestamp) (condition : Int → LogCondition) :
    Checks Failure.NamesParameter (∃ t ∈ ts, t.OutOfRange) (logTimeBound ts condition) := by
  cases ts with
  | none => exact .of_none _ _
  | some ts =>
    have hnanos : Checks Failure.NamesParameter ts.OutOfRange ((timestampToNanos ts).mapError .error) :=
      (checks_timestampToNanos ts).mapError fun _ h => h
    exact .of_some (hnanos.bind_pure _)

lemma checks_traceIdConditions (hex : String) :
    Checks Failure.NamesParameter (hex ≠ "" ∧ ∀ id, hexDecode hex ≠ .ok (some id)) (traceIdConditions hex) := by
  unfold traceIdConditions
  by_cases hempty : hex = ""
  · rw [if_pos (by rwa [String.isEmpty_iff])]
    exact fun h => h.1 hempty
  · rw [if_neg (by rwa [String.isEmpty_iff])]
    cases hdecode : hexDecode hex with
    | error p =>
      refine ⟨⟨hempty, ?_⟩, trivial⟩
      rintro id ⟨⟩
    | ok decoded =>
      cases decoded with
      | none =>
        refine ⟨⟨hempty, ?_⟩, "trace_id", by decide, by decide⟩
        rintro id ⟨⟩
      | some id => exact fun h => h.2 id rfl

/-- A trace query is refused for its bounds, and the error names one. -/
lemma checks_applyQuery (query : TraceQueryParameters) :
    Checks Error.NamesParameter query.Refused (applyQuery query) := by
  unfold applyQuery
  exact (checks_timeBound _ _).bind fun _ => (checks_timeBound _ _).bind fun _ =>
    (checks_durationBound _).bind fun _ => (checks_durationBound _).bind_pure _

lemma checks_logConditions (query : LogQueryParameters) :
    Checks Failure.NamesParameter query.Refused (logConditions query) := by
  unfold logConditions
  exact (checks_traceIdConditions _).bind fun _ => (checks_logTimeBound _ _).bind fun _ =>
    (checks_logTimeBound _ _).bind_pure _

lemma checks_metricConditions (query : MetricQueryParameters) :
    Checks Error.NamesParameter query.Refused (metricConditions query) := by
  unfold metricConditions
  by_cases hname : query.metricName = ""
  · rw [if_pos (by rwa [String.isEmpty_iff])]
    exact ⟨.inl hname, "metric_name", by decide, by decide⟩
  · have hrefused : query.Refused ↔
        (∃ ts ∈ query.timeMin, ts.OutOfRange) ∨ ∃ ts ∈ query.timeMax, ts.OutOfRange := or_iff_right hname
    rw [hrefused, if_neg (by rwa [String.isEmpty_iff])]
    exact (checks_optionalNanos _).bind fun _ => (checks_optionalNanos _).bind_pure _

end Parameters

/-- How a call fails, if it does. -/
def failureOf {ε α : Type} : Except ε α → Option ε
  | .error e => some e
  | .ok _ => none

/-- The status that tells a client nothing. -/
def undisclosed : Status := { code := .internal, message := "storage request failed" }

/-- A search that fails is answered by the cause: with `InvalidArgument` exactly if a parameter is
refused, and without a word of the error that the database raises. -/
structure ClassifiedByCause (refused : Prop) (raises : Error → Prop) (failure : Option (Failure Error))
    (status : Option (Failure Status)) : Prop where
  invalid_iff : ∀ f, failure = some f →
    ((∃ message, status = some (.error (invalidArgument message))) ↔ refused)
  internal : ∀ e, raises e → status = some (.error undisclosed)

section Classifier

lemma invalidOrInternal_of_names {e : Error} (h : e.NamesParameter) :
    invalidOrInternal e = invalidArgument e.display := by
  have hmentions : (mentions e.display "timestamp" || mentions e.display "duration" ||
      mentions e.display "trace_id" || mentions e.display "metric_name") = true := by
    obtain ⟨word, hword, hmentions⟩ := h
    simp only [parameterWords, List.mem_cons, List.not_mem_nil, or_false] at hword
    rcases hword with rfl | rfl | rfl | rfl
    all_goals simp only [hmentions, Bool.true_or, Bool.or_true]
  rw [invalidOrInternal, if_pos hmentions]

lemma invalidOrInternal_of_not_names {e : Error} (h : ¬ e.NamesParameter) :
    invalidOrInternal e = undisclosed := by
  have hmentions : ∀ word ∈ parameterWords, mentions e.display word = false := by
    intro word hword
    rw [← Bool.not_eq_true]
    exact fun hmentions => h ⟨word, hword, hmentions⟩
  rw [invalidOrInternal, hmentions "timestamp" (by decide), hmentions "duration" (by decide),
    hmentions "trace_id" (by decide), hmentions "metric_name" (by decide)]
  rfl

lemma undisclosed_ne_invalidArgument (message : String) : undisclosed ≠ invalidArgument message := by
  intro h
  cases congrArg Status.code h

variable {refused : Prop} {raises : Error → Prop} {failure : Option (Failure Error)}
  {status : Option (Failure Status)} {e : Error}

lemma classified_of_refused (hrefused : refused) (hraises : ∀ e, ¬ raises e)
    (hstatus : status = some (.error (invalidArgument e.display))) :
    ClassifiedByCause refused raises failure status where
  invalid_iff _ _ := iff_of_true ⟨e.display, hstatus⟩ hrefused
  internal e he := absurd he (hraises e)

/-- A client whose call panics gets no status. -/
lemma not_classified_of_panic {p : Panic} (hrefused : refused) (hfailure : failure = some (.panic p))
    (hstatus : status = some (.panic p)) : ¬ ClassifiedByCause refused raises failure status := by
  intro h
  obtain ⟨message, hmessage⟩ := (h.invalid_iff _ hfailure).mpr hrefused
  rw [hstatus] at hmessage
  cases hmessage

lemma classified_iff_of_surfaced (hrefused : ¬ refused) (hfailure : failure = some (.error e))
    (hstatus : status = some (.error (invalidOrInternal e))) :
    ClassifiedByCause refused raises failure status ↔ ¬ e.NamesParameter := by
  constructor
  · intro h hnames
    rw [invalidOrInternal_of_names hnames] at hstatus
    exact hrefused ((h.invalid_iff _ hfailure).mp ⟨e.display, hstatus⟩)
  · intro hnames
    rw [invalidOrInternal_of_not_names hnames] at hstatus
    refine ⟨fun _ _ => iff_of_false ?_ hrefused, fun _ _ => hstatus⟩
    rintro ⟨message, hmessage⟩
    rw [hstatus] at hmessage
    injection hmessage with hmessage
    injection hmessage with hmessage
    exact undisclosed_ne_invalidArgument message hmessage

end Classifier

/-- A search that checks its parameters and then runs a statement: `raised` is the error of the
database, and `surfaced` is what the handler gets of it. -/
structure CheckedSearch {α : Type} (check : Except (Failure Error) α) (refused : Prop) (raised surfaced : Option Error)
    (failure : Option (Failure Error)) (status : Option (Failure Status)) : Prop where
  checks : Checks Failure.NamesParameter refused check
  failure_eq : failure = (failureOf check).or (surfaced.map .error)
  isSome_surfaced : surfaced.isSome = raised.isSome
  status_eq : ∀ f, failure = some f → status = some (f.map invalidOrInternal)

namespace CheckedSearch

variable {α : Type} {check : Except (Failure Error) α} {refused : Prop} {raised surfaced : Option Error}
  {failure : Option (Failure Error)} {status : Option (Failure Status)}

/-- There is no other cause of a failure. -/
lemma fails_iff (h : CheckedSearch check refused raised surfaced failure status) :
    (∃ f, failure = some f) ↔ refused ∨ ∃ e, ¬ refused ∧ raised = some e := by
  obtain ⟨hcheck, hfailure, hsurfaced, -⟩ := h
  rw [hfailure]
  cases check with
  | error f => exact iff_of_true ⟨f, rfl⟩ (.inl hcheck.1)
  | ok a =>
    have haccepted : ¬ refused := hcheck
    rw [or_iff_right haccepted, exists_and_left, and_iff_right haccepted, ← Option.isSome_iff_exists, failureOf,
      Option.none_or, Option.isSome_map, hsurfaced, Option.isSome_iff_exists]

lemma classified_iff (h : CheckedSearch check refused raised surfaced failure status) :
    ClassifiedByCause refused (fun e => ¬ refused ∧ raised = some e) failure status ↔
      (∀ p, check ≠ .error (.panic p)) ∧ (refused ∨ ∀ e, surfaced = some e → ¬ e.NamesParameter) := by
  obtain ⟨hcheck, hfailure, hsurfaced, hstatus⟩ := h
  cases check with
  | error f =>
    have hfstatus := hstatus f hfailure
    cases f with
    | error e =>
      have hclassified : ClassifiedByCause refused (fun e => ¬ refused ∧ raised = some e) failure status := by
        apply classified_of_refused hcheck.1
        · exact fun _ h => h.1 hcheck.1
        · rw [hfstatus, Failure.map, invalidOrInternal_of_names hcheck.2]
      refine iff_of_true hclassified ⟨?_, .inl hcheck.1⟩
      rintro p ⟨⟩
    | panic p =>
      refine iff_of_false (not_classified_of_panic hcheck.1 hfailure hfstatus) ?_
      exact fun h => h.1 p rfl
  | ok a =>
    have hpanic : ∀ p, (.ok a : Except (Failure Error) α) ≠ .error (.panic p) := by rintro p ⟨⟩
    rw [and_iff_right hpanic, or_iff_right hcheck]
    cases surfaced with
    | none =>
      have hraised : raised = none := by simpa using hsurfaced.symm
      refine iff_of_true ⟨?_, ?_⟩ (by rintro e ⟨⟩)
      · rw [hfailure]
        rintro f ⟨⟩
      · rw [hraised]
        rintro e ⟨-, ⟨⟩⟩
    | some e =>
      rw [classified_iff_of_surfaced hcheck hfailure (hstatus _ hfailure)]
      simp only [Option.some.injEq, forall_eq']

end CheckedSearch

/-- What the searches meet: the stored rows, what the database leaves open, and how it fails, in
the statement or in a row of its result. -/
structure SearchSetting where
  store : Store
  traces : TraceSearch
  fold : Char → Char
  logs : OrderBy (Stored LogRow) NewerLog
  window : OrderBy StoredPoint NotLater
  points : OrderBy StoredPoint NotLater
  queryFault : Option Error
  rowFault : Option Error

namespace SearchSetting

variable (s : SearchSetting)

/-- The error that the database raises, if any. -/
def raised : Option Error := s.queryFault.or s.rowFault

/-- The search for traces with the error of the database. -/
def search : TraceSearch := { s.traces with findFault := s.raised }

end SearchSetting

/-- The calls that search. -/
inductive SearchCall where
  | findTraces (query : TraceQueryParameters)
  | findTraceIDs (query : TraceQueryParameters)
  | findTraceSummaries (query : TraceQueryParameters)
  | findLogs (query : LogQueryParameters)
  | findMetrics (query : MetricQueryParameters)

namespace SearchCall

/-- A parameter of the request is refused. -/
def Refused : SearchCall → Prop
  | findTraces query | findTraceIDs query | findTraceSummaries query => query.Refused
  | findLogs query => query.Refused
  | findMetrics query => query.Refused

/-- Reading a parameter of the request panics. -/
def Panics : SearchCall → Prop
  | findLogs query => query.traceId ≠ "" ∧ ∃ p, hexDecode query.traceId = .error p
  | _ => False

/-- The database raises the error, in a search for accepted parameters. -/
def Raises (s : SearchSetting) (call : SearchCall) (e : Error) : Prop := ¬ call.Refused ∧ s.raised = some e

/-- The error is raised where the search does not wrap it. -/
def Unwrapped (s : SearchSetting) (e : Error) : SearchCall → Prop
  | findTraces _ | findTraceIDs _ | findTraceSummaries _ => s.raised = some e
  | findLogs _ | findMetrics _ => s.queryFault = none ∧ s.rowFault = some e

variable (env : Externals) (maxSearchDepth : ℕ) (s : SearchSetting)

/-- How `find_ids`, `find_logs` or `find_metrics` fails. -/
def failure : SearchCall → Option (Failure Error)
  | findTraces query | findTraceIDs query | findTraceSummaries query =>
    (failureOf (findIds env maxSearchDepth s.raised s.traces.groups query s.store.spans)).map .error
  | findLogs query =>
    failureOf (OtelviewPostgres.findLogs env s.fold maxSearchDepth s.queryFault s.rowFault s.logs query s.store.logs)
  | findMetrics query =>
    (failureOf (findMetricsByRow env s.queryFault s.rowFault s.window s.points query s.store.metricPoints)).map .error

/-- How the handler fails. -/
def status : SearchCall → Option (Failure Status)
  | findTraces query =>
    (failureOf (TraceReader.findTraces env maxSearchDepth s.search (some query) s.store.spans)).map .error
  | findTraceIDs query =>
    (failureOf (TraceReader.findTraceIDs env maxSearchDepth s.search (some query) s.store.spans)).map .error
  | findTraceSummaries query =>
    (failureOf (TraceReader.findTraceSummaries env maxSearchDepth s.search (some query) s.store.spans)).map .error
  | findLogs query => failureOf (LogReader.findLogs env maxSearchDepth s.fold s.queryFault s.rowFault s.logs
      (some query) s.store.logs)
  | findMetrics query => (failureOf (MetricReader.findMetricsByRow env s.queryFault s.rowFault s.window s.points
      (some query) s.store.metricPoints)).map .error

/-- The handler answers a failed search by what made it fail. -/
def Classified (call : SearchCall) : Prop :=
  ClassifiedByCause call.Refused (call.Raises s) (call.failure env maxSearchDepth s) (call.status env maxSearchDepth s)

end SearchCall

section Searches

variable {env : Externals} {maxSearchDepth : ℕ}

lemma failureOf_mapError {ε ε' α : Type} (x : Except ε α) (g : ε → ε') :
    failureOf (x.mapError g) = (failureOf x).map g := by
  cases x with
  | error e => rfl
  | ok a => rfl

/-- A handler fails where its search does. -/
lemma failureOf_mapError_bind {ε ε' α β : Type} {x : Except ε α} {e : ε} (h : failureOf x = some e) (g : ε → ε')
    (k : α → Except ε' β) : failureOf (x.mapError g >>= k) = some (g e) := by
  cases x with
  | error e' =>
    obtain rfl := Option.some.inj h
    rfl
  | ok a => cases h

lemma failureOf_findIds {fault : Option Error} {order : OrderBy TraceGroup TraceGroup.NotOlder}
    {query : TraceQueryParameters} {t : SpansTable} :
    failureOf (findIds env maxSearchDepth fault order query t) = (failureOf (applyQuery query)).or fault := by
  unfold findIds
  cases applyQuery query with
  | error e => rfl
  | ok conditions =>
    cases fault with
    | none => rfl
    | some e => rfl

lemma failureOf_findLogs {fold : Char → Char} {queryFault rowFault : Option Error}
    {order : OrderBy (Stored LogRow) NewerLog} {query : LogQueryParameters} {t : LogsTable} :
    failureOf (findLogs env fold maxSearchDepth queryFault rowFault order query t) =
      (failureOf (logConditions query)).or
        (((queryFault.map (.context "query logs")).or rowFault).map .error) := by
  unfold findLogs
  cases logConditions query with
  | error f => rfl
  | ok conditions =>
    cases queryFault with
    | some e => rfl
    | none =>
      cases rowFault with
      | none => rfl
      | some e => rfl

lemma failureOf_findMetricsByRow {queryFault rowFault : Option Error} {window order : OrderBy StoredPoint NotLater}
    {query : MetricQueryParameters} {t : MetricsTable} :
    failureOf (findMetricsByRow env queryFault rowFault window order query t) =
      (failureOf (metricConditions query)).or
        ((queryFault.map (.context "query metric points")).or rowFault) := by
  unfold findMetricsByRow findMetrics findPoints
  cases metricConditions query with
  | error e => rfl
  | ok conditions =>
    cases queryFault with
    | some e => rfl
    | none =>
      cases rowFault with
      | none => rfl
      | some e => rfl

lemma mapError_ne_panic {α : Type} (x : Except Error α) (p : Panic) :
    x.mapError Failure.error ≠ .error (.panic p) := by
  cases x with
  | error e => rintro ⟨⟩
  | ok a => rintro ⟨⟩

lemma logTimeBound_ne_panic (ts : Option Timestamp) (condition : Int → LogCondition) (p : Panic) :
    logTimeBound ts condition ≠ .error (.panic p) := by
  cases ts with
  | none => rintro ⟨⟩
  | some ts =>
    intro h
    rcases bind_eq_error.mp h with h | ⟨n, -, h⟩
    · exact mapError_ne_panic _ p h
    · cases h

lemma traceIdConditions_eq_panic {hex : String} {p : Panic} :
    traceIdConditions hex = .error (.panic p) ↔ hex ≠ "" ∧ hexDecode hex = .error p := by
  unfold traceIdConditions
  by_cases hempty : hex = ""
  · rw [if_pos (by rwa [String.isEmpty_iff])]
    exact iff_of_false (by rintro ⟨⟩) fun h => h.1 hempty
  · rw [if_neg (by rwa [String.isEmpty_iff]), and_iff_right hempty]
    cases hexDecode hex with
    | error p' =>
      constructor
      · rintro ⟨⟩
        rfl
      · rintro ⟨⟩
        rfl
    | ok decoded =>
      cases decoded with
      | none => exact iff_of_false (by rintro ⟨⟩) (by rintro ⟨⟩)
      | some id => exact iff_of_false (by rintro ⟨⟩) (by rintro ⟨⟩)

/-- Of the parameters of a log query only the trace id can panic, and it is read first. -/
lemma logConditions_eq_panic {query : LogQueryParameters} {p : Panic} :
    logConditions query = .error (.panic p) ↔ query.traceId ≠ "" ∧ hexDecode query.traceId = .error p := by
  rw [← traceIdConditions_eq_panic]
  unfold logConditions
  constructor
  · intro h
    rcases bind_eq_error.mp h with h | ⟨_, -, h⟩
    · exact h
    · rcases bind_eq_error.mp h with h | ⟨_, -, h⟩
      · exact absurd h (logTimeBound_ne_panic _ _ p)
      · rcases bind_eq_error.mp h with h | ⟨_, -, h⟩
        · exact absurd h (logTimeBound_ne_panic _ _ p)
        · cases h
  · intro h
    exact bind_eq_error.mpr (.inl h)

/-- A wrapped error names no parameter if the context does not. -/
lemma forall_surfaced_iff {text : String} (htext : ∀ word ∈ parameterWords, mentions text word = false)
    {queryFault rowFault : Option Error} :
    (∀ e, (queryFault.map (.context text)).or rowFault = some e → ¬ e.NamesParameter) ↔
      ∀ e, queryFault = none ∧ rowFault = some e → ¬ e.NamesParameter := by
  cases queryFault with
  | none => simp only [Option.map_none, Option.none_or, true_and]
  | some cause =>
    refine iff_of_true ?_ (by rintro e ⟨⟨⟩, -⟩)
    rintro e ⟨⟩ ⟨word, hword, hmentions⟩
    exact Bool.false_ne_true ((htext word hword).symm.trans hmentions)

lemma isSome_surfaced (wrap : Error → Error) (queryFault rowFault : Option Error) :
    ((queryFault.map wrap).or rowFault).isSome = (queryFault.or rowFault).isSome := by
  cases queryFault with
  | none => rfl
  | some e => rfl

variable (env maxSearchDepth) (s : SearchSetting)

/-- What holds of every handler that searches for traces. -/
lemma checkedSearch_findIds (query : TraceQueryParameters) {status : Option (Failure Status)}
    (hstatus : ∀ e, failureOf (findIds env maxSearchDepth s.raised s.traces.groups query s.store.spans) = some e →
      status = some (.error (invalidOrInternal e))) :
    CheckedSearch ((applyQuery query).mapError .error) query.Refused s.raised s.raised
      ((failureOf (findIds env maxSearchDepth s.raised s.traces.groups query s.store.spans)).map .error) status where
  checks := (checks_applyQuery query).mapError fun _ h => h
  failure_eq := by rw [failureOf_findIds, failureOf_mapError, Option.map_or]
  isSome_surfaced := rfl
  status_eq f hf := by
    obtain ⟨e, he, rfl⟩ := Option.map_eq_some_iff.mp hf
    exact hstatus e he

lemma checkedSearch_findLogs (query : LogQueryParameters) :
    CheckedSearch (logConditions query) query.Refused s.raised
      ((s.queryFault.map (.context "query logs")).or s.rowFault)
      ((SearchCall.findLogs query).failure env maxSearchDepth s)
      ((SearchCall.findLogs query).status env maxSearchDepth s) where
  checks := checks_logConditions query
  failure_eq := failureOf_findLogs
  isSome_surfaced := isSome_surfaced _ _ _
  status_eq _ hf := failureOf_mapError_bind hf (Failure.map invalidOrInternal) _

lemma checkedSearch_findMetrics (query : MetricQueryParameters) :
    CheckedSearch ((metricConditions query).mapError .error) query.Refused s.raised
      ((s.queryFault.map (.context "query metric points")).or s.rowFault)
      ((SearchCall.findMetrics query).failure env maxSearchDepth s)
      ((SearchCall.findMetrics query).status env maxSearchDepth s) where
  checks := (checks_metricConditions query).mapError fun _ h => h
  failure_eq := by rw [SearchCall.failure, failureOf_findMetricsByRow, failureOf_mapError, Option.map_or]
  isSome_surfaced := isSome_surfaced _ _ _
  status_eq f hf := by
    obtain ⟨e, he, rfl⟩ := Option.map_eq_some_iff.mp hf
    exact congrArg (Option.map Failure.error) (failureOf_mapError_bind he invalidOrInternal _)

/-- Every call runs a search of that kind. -/
lemma exists_checkedSearch (call : SearchCall) :
    ∃ (α : Type) (check : Except (Failure Error) α) (surfaced : Option Error),
      CheckedSearch check call.Refused s.raised surfaced (call.failure env maxSearchDepth s)
        (call.status env maxSearchDepth s) ∧
      ((∃ p, check = .error (.panic p)) ↔ call.Panics) ∧
      ((∀ e, surfaced = some e → ¬ e.NamesParameter) ↔ ∀ e, call.Unwrapped s e → ¬ e.NamesParameter) := by
  have hnever : ∀ {α : Type} (x : Except Error α),
      (∃ p, x.mapError Failure.error = .error (.panic p)) ↔ False := by
    intro α x
    exact iff_of_false (not_exists.mpr (mapError_ne_panic x)) not_false
  cases call with
  | findTraces query =>
    refine ⟨_, _, s.raised, checkedSearch_findIds env maxSearchDepth s query fun e he => ?_, hnever _, Iff.rfl⟩
    exact congrArg (Option.map Failure.error) (failureOf_mapError_bind he invalidOrInternal _)
  | findTraceIDs query =>
    refine ⟨_, _, s.raised, checkedSearch_findIds env maxSearchDepth s query fun e he => ?_, hnever _, Iff.rfl⟩
    change (failureOf ((findIds env maxSearchDepth s.raised s.traces.groups query s.store.spans).mapError
      invalidOrInternal)).map Failure.error = _
    rw [failureOf_mapError, he]
    rfl
  | findTraceSummaries query =>
    refine ⟨_, _, s.raised, checkedSearch_findIds env maxSearchDepth s query fun e he => ?_, hnever _, Iff.rfl⟩
    exact congrArg (Option.map Failure.error) (failureOf_mapError_bind he invalidOrInternal _)
  | findLogs query =>
    refine ⟨_, _, _, checkedSearch_findLogs env maxSearchDepth s query, ?_, forall_surfaced_iff (by decide)⟩
    simp only [logConditions_eq_panic, exists_and_left]
    rfl
  | findMetrics query =>
    exact ⟨_, _, _, checkedSearch_findMetrics env maxSearchDepth s query, hnever _, forall_surfaced_iff (by decide)⟩

/-- A search fails for a parameter that is refused or an error that the database raises, and for nothing else. -/
theorem search_fails_iff (call : SearchCall) :
    (∃ f, call.failure env maxSearchDepth s = some f) ↔ call.Refused ∨ ∃ e, call.Raises s e := by
  obtain ⟨α, check, surfaced, hsearch, -, -⟩ := exists_checkedSearch env maxSearchDepth s call
  exact hsearch.fails_iff

/-- The cause of a failed search decides its status exactly if reading the request does not panic
and no error of the database that the search leaves as it is names a parameter. -/
theorem search_classified_iff (call : SearchCall) :
    call.Classified env maxSearchDepth s ↔
      ¬ call.Panics ∧ (call.Refused ∨ ∀ e, call.Unwrapped s e → ¬ e.NamesParameter) := by
  obtain ⟨α, check, surfaced, hsearch, hpanics, hunwrapped⟩ := exists_checkedSearch env maxSearchDepth s call
  rw [← hpanics, not_exists, ← hunwrapped]
  exact hsearch.classified_iff

/-- Where every row can be read, the search for points is the one without the loop over the rows. -/
theorem findMetricsByRow_none {fault : Option Error} {window order : OrderBy StoredPoint NotLater}
    {query : Option MetricQueryParameters} {t : MetricsTable} :
    MetricReader.findMetricsByRow env fault none window order query t =
      MetricReader.findMetrics env fault window order query t := by
  have hsearch : ∀ query, findMetricsByRow env fault none window order query t =
      findMetrics env fault window order query t := fun _ => bind_pure _
  unfold MetricReader.findMetricsByRow MetricReader.findMetrics
  simp only [hsearch]

end Searches

/-- A database without one of the columns of a filter. -/
def missingColumn : SearchSetting where
  store := {}
  traces := .stable
  fold := Char.toLower
  logs := .stable NewerLog
  window := .stable NotLater
  points := .stable NotLater
  queryFault := some (.database "error returned from database: column \"duration_nano\" does not exist")
  rowFault := none

def longTraces : TraceQueryParameters where
  durationMin := some ⟨0, 1⟩

def splitTraceId : LogQueryParameters where
  traceId := "aéb"

/-- The text of the database goes to the client for parameters that are accepted, and a trace id
that is not hexadecimal is not answered at all. -/
theorem database_text_disclosed :
    (¬ ∀ (env : Externals) (maxSearchDepth : ℕ) (s : SearchSetting) (call : SearchCall),
      call.Classified env maxSearchDepth s) ∧
    ¬ (SearchCall.findTraceIDs longTraces).Refused ∧
    (SearchCall.findTraceIDs longTraces).status .inert 20 missingColumn = some (.error (invalidArgument
      "error returned from database: column \"duration_nano\" does not exist")) ∧
    (SearchCall.findLogs splitTraceId).Refused ∧
    (SearchCall.findLogs splitTraceId).status .inert 20 missingColumn = some (.panic .charBoundary) := by
  have haccepted : ¬ (SearchCall.findTraceIDs longTraces).Refused := checks_applyQuery longTraces
  have hfailure : (SearchCall.findTraceIDs longTraces).failure .inert 20 missingColumn =
      missingColumn.queryFault.map .error := rfl
  have hnames : (Error.database
      "error returned from database: column \"duration_nano\" does not exist").NamesParameter :=
    ⟨"duration", by decide, by decide⟩
  have hstatus : (SearchCall.findTraceIDs longTraces).status .inert 20 missingColumn = some (.error (invalidArgument
      "error returned from database: column \"duration_nano\" does not exist")) :=
    congrArg (some ∘ Failure.error) (invalidOrInternal_of_names hnames)
  have hrefused : (SearchCall.findLogs splitTraceId).Refused := by
    have hsplit : hexDecode splitTraceId.traceId = .error .charBoundary := by decide
    refine .inl ⟨by decide, fun id hid => ?_⟩
    rw [hsplit] at hid
    cases hid
  refine ⟨?_, haccepted, hstatus, hrefused, rfl⟩
  intro h
  exact haccepted (((h .inert 20 missingColumn _).invalid_iff _ hfailure).mp ⟨_, hstatus⟩)

end OtelviewPostgres
