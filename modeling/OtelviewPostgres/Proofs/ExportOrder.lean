import OtelviewPostgres.Proofs.History

/-!
# Exports in another order and exports sent again

Whether an export is accepted does not depend on what is stored. Exports that share no span may
change places, and a trace export that is sent again until it is accepted counts once.
-/

namespace OtelviewPostgres

open Relational

/-- The stores hold the same rows. -/
structure Store.Alike (s s' : Store) : Prop where
  spans : ∀ id, s.spans.lookup id = s'.spans.lookup id
  logs : s.logs.contents.Perm s'.logs.contents
  metricPoints : s.metricPoints.contents.Perm s'.metricPoints.contents

namespace StoreEvent

def IsExport : StoreEvent → Prop
  | .sweep _ _ => False
  | _ => True

/-- The ids of the spans that an export sends. -/
def spanIds : StoreEvent → List (Bytes × Bytes)
  | .write _ data => (spanItems data).map fun x => (x.item.traceId, x.item.spanId)
  | _ => []

/-- No statement of a sweep fails. -/
def Reliable : StoreEvent → Prop
  | .sweep run _ => run.spanFaults = (fun _ => none) ∧ run.logFaults = (fun _ => none) ∧ run.pointFaults = fun _ => none
  | _ => True

/-- Two exports that share no span. -/
structure Independent (a b : StoreEvent) : Prop where
  left : a.IsExport
  right : b.IsExport
  disjoint : ∀ id ∈ a.spanIds, id ∉ b.spanIds

end StoreEvent

lemma Store.Alike.refl (s : Store) : s.Alike s := ⟨fun _ => rfl, .refl _, .refl _⟩

lemma Store.Alike.trans {s s' s'' : Store} (h : s.Alike s') (h' : s'.Alike s'') : s.Alike s'' where
  spans id := (h.spans id).trans (h'.spans id)
  logs := h.logs.trans h'.logs
  metricPoints := h.metricPoints.trans h'.metricPoints

section Exports

variable (env : Externals)

lemma write_related {R : SpansTable → SpansTable → Prop}
    (hR : ∀ rows t t', R t t' → R (t.upsertAll spanConflict rows) (t'.upsertAll spanConflict rows))
    (server : Server SpanRow) (data : TracesData) {t t' : SpansTable} (h : R t t') :
    (write env server data t).1 = (write env server data t').1 ∧
      R (write env server data t).2 (write env server data t').2 := by
  unfold write
  cases collectSpans env data with
  | error e => exact ⟨rfl, h⟩
  | ok batch =>
    have hstatements : List.Forall₂ (StatementsRelated R) ((spanChunks batch).map (upsertSpans server))
        ((spanChunks batch).map (upsertSpans server)) := by
      apply List.forall₂_same.mpr
      intro statement hstatement t t' ht
      obtain ⟨chunk, -, rfl⟩ := List.mem_map.mp hstatement
      unfold upsertSpans
      cases chunk.findSome? server.refuses with
      | some e => exact .inl ⟨e, rfl, rfl⟩
      | none =>
        simp only
        split
        · exact .inl ⟨_, rfl, rfl⟩
        · split
          · exact .inl ⟨_, rfl, rfl⟩
          · exact .inr ⟨_, _, rfl, rfl, hR chunk t t' ht⟩
    obtain ⟨hres, htable⟩ := runTransaction_related server.faults hstatements h
    simp only
    cases hrun : runTransaction server.faults ((spanChunks batch).map (upsertSpans server)) t with
    | mk res u =>
      cases hrun' : runTransaction server.faults ((spanChunks batch).map (upsertSpans server)) t' with
      | mk res' u' =>
        rw [hrun, hrun'] at hres htable
        obtain rfl : res = res' := hres
        cases res with
        | error e => exact ⟨rfl, htable⟩
        | ok _ => exact ⟨rfl, htable⟩

lemma writeRecords_related {ρ : Type} {R : IdentityTable ρ → IdentityTable ρ → Prop}
    (hR : ∀ rows t t', R t t' → R (t.insertAll rows) (t'.insertAll rows)) (server : Server ρ)
    (collected : Except Error (List ρ)) {t t' : IdentityTable ρ} (h : R t t') :
    (writeRecords server collected t).1 = (writeRecords server collected t').1 ∧
      R (writeRecords server collected t).2 (writeRecords server collected t').2 := by
  unfold writeRecords
  cases collected with
  | error e => exact ⟨rfl, h⟩
  | ok rows =>
    simp only
    split
    · exact ⟨rfl, h⟩
    · have hstatements : List.Forall₂ (StatementsRelated R) ((recordChunks rows).map (insertRecords server))
          ((recordChunks rows).map (insertRecords server)) := by
        apply List.forall₂_same.mpr
        intro statement hstatement t t' ht
        obtain ⟨chunk, -, rfl⟩ := List.mem_map.mp hstatement
        unfold insertRecords
        cases chunk.findSome? server.refuses with
        | some e => exact .inl ⟨e, rfl, rfl⟩
        | none => exact .inr ⟨_, _, rfl, rfl, hR chunk t t' ht⟩
      obtain ⟨hres, htable⟩ := runTransaction_related server.faults hstatements h
      cases hrun : runTransaction server.faults ((recordChunks rows).map (insertRecords server)) t with
      | mk res u =>
        cases hrun' : runTransaction server.faults ((recordChunks rows).map (insertRecords server)) t' with
        | mk res' u' =>
          rw [hrun, hrun'] at hres htable
          obtain rfl : res = res' := hres
          cases res with
          | error e => exact ⟨rfl, htable⟩
          | ok _ => exact ⟨rfl, htable⟩

/-- Whether an export is accepted does not depend on the store. -/
lemma perform_fst_eq {event : StoreEvent} (hexport : event.IsExport) (s s' : Store) :
    (s.perform env event).1 = (s'.perform env event).1 := by
  cases event with
  | write server data =>
    exact congrArg Except.isOk (write_related env (R := fun _ _ => True) (fun _ _ _ _ => trivial) server data trivial).1
  | writeLogs server data =>
    exact congrArg Except.isOk
      (writeRecords_related (R := fun _ _ => True) (fun _ _ _ _ => trivial) server _ trivial).1
  | writeMetrics server data =>
    exact congrArg Except.isOk
      (writeRecords_related (R := fun _ _ => True) (fun _ _ _ _ => trivial) server _ trivial).1
  | sweep run retention => cases hexport

variable {env}

lemma spanEntry_of_export {event : StoreEvent} (hexport : event.IsExport) (ok : Bool) :
    (spanEntry env (event, ok)).mayDelete = fun _ => false := by
  cases event with
  | write server data => cases ok <;> rfl
  | sweep run retention => cases hexport
  | _ => rfl

lemma logEntry_of_export {event : StoreEvent} (hexport : event.IsExport) (ok : Bool) :
    (logEntry env (event, ok)).mayDelete = fun _ => false := by
  cases event with
  | writeLogs server data => cases ok <;> rfl
  | sweep run retention => cases hexport
  | _ => rfl

lemma pointEntry_of_export {event : StoreEvent} (hexport : event.IsExport) (ok : Bool) :
    (pointEntry env (event, ok)).mayDelete = fun _ => false := by
  cases event with
  | writeMetrics server data => cases ok <;> rfl
  | sweep run retention => cases hexport
  | _ => rfl

/-- Under each id there is what the export committed last or, without that, what was there. -/
lemma lookup_perform {event : StoreEvent} (hexport : event.IsExport) (s : Store) (id : Bytes × Bytes) :
    (s.perform env event).2.spans.lookup id =
      (lastOf SpanRow.key id (spanEntry env (event, (s.perform env event).1)).committed).or (s.spans.lookup id) := by
  have hchange := changes_perform env s event
  cases hlast : lastOf SpanRow.key id (spanEntry env (event, (s.perform env event).1)).committed with
  | some row => exact hchange.committed id row hlast
  | none =>
    rcases hchange.kept id hlast with heq | ⟨-, row, -, hmay⟩
    · exact heq
    · rw [spanEntry_of_export hexport] at hmay
      cases hmay

/-- Where nothing is deleted, the rows are those before and the committed ones. -/
lemma eq_append_of_appends {ρ : Type} {e : JournalEntry ρ} {rows rows' kept : List ρ} (h : e.Appends rows rows' kept)
    (hmay : e.mayDelete = fun _ => false) : rows' = rows ++ e.committed := by
  have hlive := h.live
  simp only [hmay, Bool.not_false, List.filter_true] at hlive
  rw [h.rows_eq, (h.left.trans List.filter_sublist).antisymm hlive]

lemma logs_perform {event : StoreEvent} (hexport : event.IsExport) (s : Store) :
    (s.perform env event).2.logs.contents =
      s.logs.contents ++ (logEntry env (event, (s.perform env event).1)).committed := by
  obtain ⟨kept, happend⟩ := exists_appends_perform_logs env s event
  exact eq_append_of_appends happend (logEntry_of_export hexport _)

lemma points_perform {event : StoreEvent} (hexport : event.IsExport) (s : Store) :
    (s.perform env event).2.metricPoints.contents =
      s.metricPoints.contents ++ (pointEntry env (event, (s.perform env event).1)).committed := by
  obtain ⟨kept, happend⟩ := exists_appends_perform_points env s event
  exact eq_append_of_appends happend (pointEntry_of_export hexport _)

/-- An export commits spans that it sends. -/
lemma lastOf_eq_none {event : StoreEvent} {ok : Bool} {id : Bytes × Bytes} (hid : id ∉ event.spanIds) :
    lastOf SpanRow.key id (spanEntry env (event, ok)).committed = none := by
  unfold lastOf
  rw [List.find?_eq_none]
  intro row hrow
  rw [decide_eq_true_iff]
  rintro rfl
  cases event with
  | write server data =>
    cases ok with
    | false => cases List.mem_reverse.mp hrow
    | true =>
      obtain ⟨x, hx, hxr⟩ := List.mem_filterMap.mp (List.mem_reverse.mp hrow)
      have hrow' : spanItemRow env x = .ok row := by
        cases hres : spanItemRow env x with
        | error e =>
          rw [hres] at hxr
          cases hxr
        | ok row' =>
          rw [hres] at hxr
          rw [Option.some.inj hxr]
      rw [(spanItemRow_eq_ok env hrow').2.2.2.2] at hid
      exact hid (List.mem_map_of_mem (List.mem_filter.mp hx).1)
  | writeLogs server data => cases List.mem_reverse.mp hrow
  | writeMetrics server data => cases List.mem_reverse.mp hrow
  | sweep run retention => cases List.mem_reverse.mp hrow

variable (env) in
/-- Two exports that share no span leave the same rows in either order. -/
lemma perform_swap {a b : StoreEvent} (h : a.Independent b) (s : Store) :
    (((s.perform env a).2.perform env b).2).Alike ((s.perform env b).2.perform env a).2 := by
  have ha := perform_fst_eq env h.left (s.perform env b).2 s
  have hb := perform_fst_eq env h.right (s.perform env a).2 s
  constructor
  · intro id
    rw [lookup_perform h.right, lookup_perform h.left, lookup_perform h.left, lookup_perform h.right, ha, hb]
    by_cases hid : id ∈ a.spanIds
    · rw [lastOf_eq_none (h.disjoint id hid), Option.none_or, Option.none_or]
    · rw [lastOf_eq_none hid, Option.none_or, Option.none_or]
  · rw [logs_perform h.right, logs_perform h.left, logs_perform h.left, logs_perform h.right, ha, hb, List.append_assoc,
      List.append_assoc]
    exact (List.perm_append_comm).append_left _
  · rw [points_perform h.right, points_perform h.left, points_perform h.left, points_perform h.right, ha, hb,
      List.append_assoc, List.append_assoc]
    exact (List.perm_append_comm).append_left _

variable (env) in
/-- A sweep of which no statement fails does nothing for want of a clock, or it succeeds. -/
lemma perform_reliable_sweep {run : SweepRun} {retention : ℕ} (hreliable : (StoreEvent.sweep run retention).Reliable)
    (s : Store) :
    (run.nowNanos = none ∧ s.perform env (.sweep run retention) = (false, s)) ∨
      ∃ now s', run.nowNanos = some now ∧ s.perform env (.sweep run retention) = (true, s') ∧
        s.LeftBySweep (sweepCutoff now retention) true s' := by
  obtain ⟨res, s', hsweep⟩ := exists_sweepExpired run retention s
  have hperform : s.perform env (.sweep run retention) = (res.isOk, s') := by
    simp only [Store.perform, hsweep]
  rcases sweepExpired_left hsweep with ⟨hnow, hok, rfl⟩ | ⟨now, hnow, hleft⟩
  · rw [hok] at hperform
    exact .inl ⟨hnow, hperform⟩
  · cases res with
    | error e => exact absurd hsweep (sweepExpired_ne_error hnow hreliable.1 hreliable.2.1 hreliable.2.2)
    | ok counts => exact .inr ⟨now, s', hnow, hperform, hleft⟩

lemma rows_of_leftBySweep {ρ κ : Type} {key : ρ → κ} {time : ρ → Int} {cutoff : Int} {t t' : KeyedTable key}
    (h : LeftBySweep time cutoff true t t') : t'.rows = t.rows.filter fun r => cutoff ≤ time r := by
  obtain ⟨left, hrows, hlive, hall⟩ := h
  rw [hrows]
  apply List.filter_congr
  intro r _
  rw [Bool.eq_iff_iff, decide_eq_true_iff]
  exact ⟨hall rfl r, hlive r⟩

lemma contents_of_leftBySweep {ρ : Type} {time : ρ → Int} {cutoff : Int} {t t' : IdentityTable ρ}
    (h : LeftBySweep (fun r : Stored ρ => time r.row) cutoff true t t') :
    t'.contents = t.contents.filter fun row => cutoff ≤ time row := by
  unfold IdentityTable.contents
  rw [rows_of_leftBySweep h, List.filter_map]
  rfl

lemma lookup_of_leftBySweep {cutoff : Int} {t t' : SpansTable} (h : LeftBySweep SpanRow.startTime cutoff true t t')
    (id : Bytes × Bytes) (row : SpanRow) :
    t'.lookup id = some row ↔ t.lookup id = some row ∧ cutoff ≤ row.startTime := by
  rw [KeyedTable.lookup_eq_some_iff, KeyedTable.lookup_eq_some_iff, rows_of_leftBySweep h, List.mem_filter,
    decide_eq_true_iff, and_right_comm]

/-- A sweep of which no statement fails leaves the same rows of stores that hold the same. -/
lemma alike_sweep {run : SweepRun} {retention : ℕ} (hreliable : (StoreEvent.sweep run retention).Reliable)
    {s s' : Store} (h : s.Alike s') :
    (s.perform env (.sweep run retention)).1 = (s'.perform env (.sweep run retention)).1 ∧
      (s.perform env (.sweep run retention)).2.Alike (s'.perform env (.sweep run retention)).2 := by
  rcases perform_reliable_sweep env hreliable s with ⟨hnow, hs⟩ | ⟨now, u, hnow, hs, hleft⟩
  · rcases perform_reliable_sweep env hreliable s' with ⟨-, hs'⟩ | ⟨now, u', hnow', -, -⟩
    · rw [hs, hs']
      exact ⟨rfl, h⟩
    · rw [hnow] at hnow'
      cases hnow'
  · rcases perform_reliable_sweep env hreliable s' with ⟨hnow', -⟩ | ⟨now', u', hnow', hs', hleft'⟩
    · rw [hnow] at hnow'
      cases hnow'
    · obtain rfl := Option.some.inj (hnow.symm.trans hnow')
      rw [hs, hs']
      refine ⟨rfl, fun id => Option.ext fun row => ?_, ?_, ?_⟩
      · rw [lookup_of_leftBySweep hleft.spans, lookup_of_leftBySweep hleft'.spans, h.spans id]
      · rw [contents_of_leftBySweep hleft.logs, contents_of_leftBySweep hleft'.logs]
        exact h.logs.filter _
      · rw [contents_of_leftBySweep hleft.metricPoints, contents_of_leftBySweep hleft'.metricPoints]
        exact h.metricPoints.filter _

variable (env) in
/-- A call has the same answer on stores that hold the same rows, and leaves such stores. -/
lemma alike_perform {event : StoreEvent} (hreliable : event.Reliable) {s s' : Store} (h : s.Alike s') :
    (s.perform env event).1 = (s'.perform env event).1 ∧ (s.perform env event).2.Alike (s'.perform env event).2 := by
  by_cases hexport : event.IsExport
  · have hok := perform_fst_eq env hexport s s'
    refine ⟨hok, fun id => ?_, ?_, ?_⟩
    · rw [lookup_perform hexport, lookup_perform hexport, hok, h.spans id]
    · rw [logs_perform hexport, logs_perform hexport, hok]
      exact h.logs.append_right _
    · rw [points_perform hexport, points_perform hexport, hok]
      exact h.metricPoints.append_right _
  · cases event with
    | sweep run retention => exact alike_sweep hreliable h
    | _ => exact absurd trivial hexport

variable (env) in
/-- The same calls on stores that hold the same rows have the same answers, and leave such stores. -/
lemma alike_after {events : List StoreEvent} (hreliable : ∀ event ∈ events, event.Reliable) {s s' : Store}
    (h : s.Alike s') :
    s.history env events = s'.history env events ∧ (s.after env events).Alike (s'.after env events) := by
  induction events generalizing s s' with
  | nil => exact ⟨rfl, h⟩
  | cons event events ih =>
    rw [List.forall_mem_cons] at hreliable
    obtain ⟨hok, hnext⟩ := alike_perform env hreliable.1 h
    obtain ⟨hhistory, hafter⟩ := ih hreliable.2 hnext
    refine ⟨?_, hafter⟩
    rw [Store.history, Store.history, hok, hhistory]

end Exports

/-! ### Exports in another order -/

/-- Two exports that share no span have changed places. -/
def Swapped (events events' : List StoreEvent) : Prop :=
  ∃ before a b after, events = before ++ a :: b :: after ∧ events' = before ++ b :: a :: after ∧ a.Independent b

section Order

variable {env : Externals}

lemma after_append (s : Store) (before events : List StoreEvent) :
    s.after env (before ++ events) = (s.after env before).after env events := List.foldl_append

lemma history_append (s : Store) (before events : List StoreEvent) :
    s.history env (before ++ events) = s.history env before ++ (s.after env before).history env events := by
  induction before generalizing s with
  | nil => rfl
  | cons event before ih => exact congrArg _ (ih (s.perform env event).2)

variable (env) in
lemma alike_of_swapped {events events' : List StoreEvent} (hreliable : ∀ event ∈ events, event.Reliable)
    (h : Swapped events events') (s : Store) :
    (s.history env events).Perm (s.history env events') ∧ (s.after env events).Alike (s.after env events') := by
  obtain ⟨before, a, b, after, rfl, rfl, hindependent⟩ := h
  have hafter : ∀ event ∈ after, event.Reliable := by
    intro event hevent
    apply hreliable
    exact List.mem_append_right _ (List.mem_cons_of_mem _ (List.mem_cons_of_mem _ hevent))
  obtain ⟨hhistory, halike⟩ := alike_after env hafter (perform_swap env hindependent (s.after env before))
  have ha := perform_fst_eq env hindependent.left ((s.after env before).perform env b).2 (s.after env before)
  have hb := perform_fst_eq env hindependent.right ((s.after env before).perform env a).2 (s.after env before)
  constructor
  · rw [history_append, history_append]
    apply List.Perm.append_left
    simp only [Store.history]
    rw [ha, hb, hhistory]
    exact .swap _ _ _
  · rw [after_append, after_append]
    exact halike

lemma Swapped.perm {events events' : List StoreEvent} (h : Swapped events events') : events.Perm events' := by
  obtain ⟨before, a, b, after, rfl, rfl, -⟩ := h
  exact List.Perm.append_left _ (.swap _ _ _)

end Order

/-- Exports may change places with those next to them that share no span with them, any number of
times: each is accepted or not as before, and in the end the store holds the same rows. -/
theorem exports_reorder (env : Externals) (s : Store) (events events' : List StoreEvent)
    (hreliable : ∀ event ∈ events, event.Reliable) (h : Relation.ReflTransGen Swapped events events') :
    (s.history env events).Perm (s.history env events') ∧ (s.after env events).Alike (s.after env events') := by
  have hperm : events.Perm events' ∧
      (s.history env events).Perm (s.history env events') ∧ (s.after env events).Alike (s.after env events') := by
    induction h with
    | refl => exact ⟨.refl _, .refl _, .refl _⟩
    | @tail events₁ events₂ _ hswap ih =>
      obtain ⟨hevents, hhistory, halike⟩ := ih
      have hreliable₁ : ∀ event ∈ events₁, event.Reliable := fun event hevent =>
        hreliable event (hevents.mem_iff.mpr hevent)
      obtain ⟨hhistory', halike'⟩ := alike_of_swapped env hreliable₁ hswap s
      exact ⟨hevents.trans hswap.perm, hhistory.trans hhistory', halike.trans halike'⟩
  exact hperm.2

/-- Two trace exports that share no span, logs, and a sweep. -/
def mixedCalls : List StoreEvent :=
  [.write {} (exportOf [spanOf 1 "a" 5]), .write {} (exportOf [spanOf 2 "b" 6]), .writeLogs {} { resourceLogs := [] },
    .sweep { nowNanos := some 10 } 4]

theorem exports_reorder_mixed :
    ((({} : Store).history .inert mixedCalls).Perm (({} : Store).history .inert
        [.write {} (exportOf [spanOf 2 "b" 6]), .write {} (exportOf [spanOf 1 "a" 5]),
          .writeLogs {} { resourceLogs := [] }, .sweep { nowNanos := some 10 } 4])) := by
  have hindependent : StoreEvent.Independent (.write {} (exportOf [spanOf 1 "a" 5]))
      (.write {} (exportOf [spanOf 2 "b" 6])) := ⟨trivial, trivial, by decide⟩
  refine (exports_reorder .inert {} mixedCalls _ ?_ (.single ⟨[], _, _, _, rfl, rfl, hindependent⟩)).1
  unfold mixedCalls
  simp [StoreEvent.Reliable]

section Retries

variable {env : Externals} (data : TracesData)

/-- The calls of a run, with attempts to send one export among them. -/
def withAttempts (calls : List (Server SpanRow ⊕ StoreEvent)) : List StoreEvent :=
  calls.map (Sum.elim (fun server => .write server data) id)

/-- The calls without the attempts. -/
def withoutAttempts (calls : List (Server SpanRow ⊕ StoreEvent)) : List StoreEvent :=
  calls.filterMap (Sum.elim (fun _ => none) some)

/-- The first store holds the rows of the second and, over them, those of the export if it was accepted. -/
structure Overlaid (env : Externals) (data : TracesData) (accepted : Bool) (s s' : Store) : Prop where
  spans : ∀ id, s.spans.lookup id =
    (lastOf SpanRow.key id (spanEntry env (.write {} data, accepted)).committed).or (s'.spans.lookup id)
  logs : s.logs.contents = s'.logs.contents
  metricPoints : s.metricPoints.contents = s'.metricPoints.contents

variable {data}

lemma Overlaid.alike {accepted : Bool} {s s' s'' : Store} (h : Overlaid env data accepted s s'')
    (h' : Overlaid env data accepted s' s'') : s.Alike s' where
  spans id := (h.spans id).trans (h'.spans id).symm
  logs := .of_eq (h.logs.trans h'.logs.symm)
  metricPoints := .of_eq (h.metricPoints.trans h'.metricPoints.symm)

variable (env data) in
lemma overlaid_refl (s : Store) : Overlaid env data false s s := ⟨fun _ => rfl, rfl, rfl⟩

/-- One attempt overlays the rows of the export, if it is accepted. -/
lemma Overlaid.attempt {accepted : Bool} {s s' : Store} (h : Overlaid env data accepted s s')
    (server : Server SpanRow) :
    Overlaid env data ((s.perform env (.write server data)).1 || accepted) (s.perform env (.write server data)).2
      s' := by
  have hexport : (StoreEvent.write server data).IsExport := trivial
  have hcommitted : ∀ ok, (spanEntry env (.write server data, ok)).committed =
      (spanEntry env (.write {} data, ok)).committed := fun ok => by cases ok <;> rfl
  refine ⟨fun id => ?_, h.logs, h.metricPoints⟩
  rw [lookup_perform hexport, h.spans id, hcommitted]
  cases hok : (s.perform env (.write server data)).1 with
  | false => rfl
  | true =>
    rw [Bool.true_or]
    cases hlast : lastOf SpanRow.key id (spanEntry env (.write {} data, true)).committed with
    | some row => rfl
    | none =>
      cases accepted with
      | false => rfl
      | true => rw [hlast, Option.none_or]

/-- An export that shares no span with it does not matter. -/
lemma Overlaid.other {accepted : Bool} {s s' : Store} (h : Overlaid env data accepted s s') {event : StoreEvent}
    (hexport : event.IsExport) (hdisjoint : ∀ id ∈ event.spanIds, id ∉ (StoreEvent.write {} data).spanIds) :
    Overlaid env data accepted (s.perform env event).2 (s'.perform env event).2 := by
  have hok := perform_fst_eq env hexport s s'
  refine ⟨fun id => ?_, ?_, ?_⟩
  · rw [lookup_perform hexport, lookup_perform hexport, hok, h.spans id]
    by_cases hid : id ∈ event.spanIds
    · rw [lastOf_eq_none (hdisjoint id hid), Option.none_or, Option.none_or]
    · rw [lastOf_eq_none hid, Option.none_or, Option.none_or]
  · rw [logs_perform hexport, logs_perform hexport, hok, h.logs]
  · rw [points_perform hexport, points_perform hexport, hok, h.metricPoints]

/-- The calls beside the attempts are exports that share no span with them. -/
def OthersIndependent (data : TracesData) (calls : List (Server SpanRow ⊕ StoreEvent)) : Prop :=
  ∀ event, .inr event ∈ calls → event.IsExport ∧ (∀ server, event ≠ .write server data) ∧
    ∀ id ∈ event.spanIds, id ∉ (StoreEvent.write {} data).spanIds

lemma overlaid_after {calls : List (Server SpanRow ⊕ StoreEvent)} (hothers : OthersIndependent data calls)
    {before : Bool} {s s' : Store} (h : Overlaid env data before s s') :
    ∃ accepted,
      Overlaid env data accepted (s.after env (withAttempts data calls)) (s'.after env (withoutAttempts calls)) ∧
      (accepted = true ↔
        before = true ∨ ∃ server, (.write server data, true) ∈ s.history env (withAttempts data calls)) := by
  induction calls generalizing before s s' with
  | nil => exact ⟨before, h, by simp [withAttempts, Store.history]⟩
  | cons call calls ih =>
    have hrest : OthersIndependent data calls := fun event hevent => hothers event (List.mem_cons_of_mem _ hevent)
    cases call with
    | inl server =>
      obtain ⟨accepted, hafter, hiff⟩ := ih hrest (h.attempt server)
      refine ⟨accepted, hafter, hiff.trans ?_⟩
      simp only [withAttempts, List.map_cons, Sum.elim_inl, Store.history, List.mem_cons]
      constructor
      · rintro (hor | ⟨server', hmem⟩)
        · rcases Bool.or_eq_true_iff.mp hor with hok | hbefore
          · exact .inr ⟨server, .inl (by rw [hok])⟩
          · exact .inl hbefore
        · exact .inr ⟨server', .inr hmem⟩
      · rintro (hbefore | ⟨server', heq | hmem⟩)
        · exact .inl (by rw [hbefore, Bool.or_true])
        · obtain ⟨hcall, hok⟩ := Prod.mk.inj heq
          exact .inl (by rw [← hok, Bool.true_or])
        · exact .inr ⟨server', hmem⟩
    | inr event =>
      obtain ⟨hexport, hne, hdisjoint⟩ := hothers event List.mem_cons_self
      obtain ⟨accepted, hafter, hiff⟩ := ih hrest (h.other hexport hdisjoint)
      refine ⟨accepted, hafter, hiff.trans ?_⟩
      apply or_congr_right
      apply exists_congr
      intro server
      simp only [withAttempts, List.map_cons, Sum.elim_inr, Store.history, List.mem_cons, id_eq]
      constructor
      · exact .inr
      · rintro (heq | hmem)
        · exact absurd (Prod.mk.inj heq).1.symm (hne server)
        · exact hmem

end Retries

/-- Whether an export is accepted in a run does not depend on where the run begins. -/
lemma perform_of_mem_history {env : Externals} {event : StoreEvent} (hexport : event.IsExport) {ok : Bool}
    {events : List StoreEvent} {s : Store} (h : (event, ok) ∈ s.history env events) (s' : Store) :
    (s'.perform env event).1 = ok := by
  induction events generalizing s with
  | nil => cases h
  | cons e events ih =>
    rw [Store.history] at h
    rcases List.mem_cons.mp h with heq | hmem
    · obtain ⟨rfl, rfl⟩ := Prod.mk.inj heq
      exact perform_fst_eq env hexport s' s
    · exact ih hmem

/-- A trace export that is sent any number of times, among other exports that share no span with it,
leaves nothing if no attempt is accepted, and otherwise what one attempt after the others leaves. -/
theorem retried_export_counts_once (env : Externals) (s : Store) (data : TracesData)
    (calls : List (Server SpanRow ⊕ StoreEvent)) (hothers : OthersIndependent data calls) :
    ((∀ server, (.write server data, true) ∉ s.history env (withAttempts data calls)) →
        (s.after env (withAttempts data calls)).Alike (s.after env (withoutAttempts calls))) ∧
      ∀ server, (.write server data, true) ∈ s.history env (withAttempts data calls) →
        (s.after env (withAttempts data calls)).Alike
          (s.after env (withoutAttempts calls ++ [.write server data])) := by
  obtain ⟨accepted, hafter, hiff⟩ := overlaid_after hothers (overlaid_refl env data s)
  constructor
  · intro hnone
    have hfalse : accepted = false := by
      rw [Bool.eq_false_iff]
      intro htrue
      rcases hiff.mp htrue with hbefore | ⟨server, hmem⟩
      · cases hbefore
      · exact hnone server hmem
    rw [hfalse] at hafter
    exact hafter.alike (overlaid_refl env data _)
  · intro server hmem
    have hexport : (StoreEvent.write server data).IsExport := trivial
    have htrue : accepted = true := hiff.mpr (.inr ⟨server, hmem⟩)
    have hone := (overlaid_refl env data (s.after env (withoutAttempts calls))).attempt server
    rw [perform_of_mem_history hexport hmem, Bool.true_or] at hone
    rw [htrue] at hafter
    rw [after_append_singleton]
    exact hafter.alike hone

/-- A server that loses the connection before it commits. -/
def lostBeforeCommit : Server SpanRow := { faults := { onCommit := some (.database "connection reset") } }

theorem retried_export_counts_once_second_try :
    (({} : Store).after .inert (withAttempts (exportOf [spanOf 1 "a" 5])
        [.inl lostBeforeCommit, .inr (.write {} (exportOf [spanOf 2 "b" 6])), .inl {}, .inl {}])).Alike
      (({} : Store).after .inert (withoutAttempts
          [.inl lostBeforeCommit, .inr (.write {} (exportOf [spanOf 2 "b" 6])), .inl {}, .inl {}] ++
        [.write {} (exportOf [spanOf 1 "a" 5])])) := by
  refine (retried_export_counts_once .inert {} (exportOf [spanOf 1 "a" 5]) _ ?_).2 {} ?_
  · intro event hevent
    simp only [List.mem_cons, reduceCtorEq, Sum.inr.injEq, List.not_mem_nil, or_false, false_or] at hevent
    rw [hevent]
    refine ⟨trivial, fun server heq => ?_, by decide⟩
    injection heq with _ hdata
    exact absurd (congrArg (fun data => (spanItems data).map fun x => x.item.name) hdata) (by decide)
  · refine List.mem_cons_of_mem _ (List.mem_cons_of_mem _ (List.mem_cons.mpr (.inl ?_)))
    rfl

end OtelviewPostgres
