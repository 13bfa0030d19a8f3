import OtelviewPostgres.Model.OverlappingDeletes
import OtelviewPostgres.Proofs.SpanIngest

/-!
# Exports overlapped by deletes

However the rows of exports and of the deletes of sweeps interleave, waiting for each other's locks and
rolled back at any point, the committed table is that of the committed exports alone, less rows that
were expired.
-/

namespace OtelviewPostgres

open Relational CellState

variable {ω : Type} [DecidableEq ω]

/-- Every row is under its own id. -/
def Keyed (table : Bytes × Bytes → Option (RowVersion ω)) : Prop :=
  ∀ id version, table id = some version → version.row.key = id

omit [DecidableEq ω] in
lemma keyed_apply_upsertOp {table : Bytes × Bytes → Option (RowVersion ω)} (h : Keyed table) (w : ω) (row : SpanRow) :
    Keyed (CellOp.apply table (upsertOp w row)) ∧
      CellOp.apply table (upsertOp w row) row.key = some { writer := some w, row } := by
  have hself : CellOp.apply table (upsertOp w row) row.key = some { writer := some w, row } := by
    have hmerged : ((table row.key).map fun version => version.row.updateOnConflict row).getD row = row := by
      cases hcurrent : table row.key with
      | none => rfl
      | some version => exact spanConflict_overwrites version.row row (h _ _ hcurrent)
    calc CellOp.apply table (upsertOp w row) row.key = (upsertOp w row).act (table row.key) := Function.update_self ..
      _ = some { writer := some w, row } := by simp only [upsertOp, hmerged]
  refine ⟨fun id version hversion => ?_, hself⟩
  by_cases hid : id = row.key
  · rw [hid, hself] at hversion
    obtain rfl := Option.some.inj hversion
    exact hid.symm
  · apply h id version
    rw [← hversion]
    exact (Function.update_of_ne hid _ _).symm

omit [DecidableEq ω] in
/-- The upserts of an export write each of its rows, and leave the others alone. -/
lemma applyAll_upserts (w : ω) {rows : List SpanRow} (hnodup : (rows.map SpanRow.key).Nodup)
    {table : Bytes × Bytes → Option (RowVersion ω)} (h : Keyed table) :
    (∀ row ∈ rows, CellOp.applyAll (rows.map (upsertOp w)) table row.key = some { writer := some w, row }) ∧
      ∀ id, id ∉ rows.map SpanRow.key → CellOp.applyAll (rows.map (upsertOp w)) table id = table id := by
  have hothers : ∀ (rows : List SpanRow) (table : Bytes × Bytes → Option (RowVersion ω)) (id : Bytes × Bytes),
      id ∉ rows.map SpanRow.key → CellOp.applyAll (rows.map (upsertOp w)) table id = table id := by
    intro rows table id hid
    apply CellOp.applyAll_of_notMem
    rwa [List.map_map]
  refine ⟨fun row hrow => ?_, hothers rows table⟩
  induction rows generalizing table with
  | nil => cases hrow
  | cons head rows ih =>
    rw [List.map_cons, List.nodup_cons] at hnodup
    obtain ⟨hkeyed, hself⟩ := keyed_apply_upsertOp h w head
    rcases List.mem_cons.mp hrow with rfl | hrow
    · exact (hothers rows _ row.key hnodup.1).trans hself
    · exact ih hnodup.2 hkeyed hrow

omit [DecidableEq ω] in
/-- A statement deletes a row only if it is still the version that the statement saw. -/
lemma applyAll_deletes [DecidableEq ω] (seen : Bytes × Bytes → Option (RowVersion ω)) (chosen : List (Bytes × Bytes))
    (table : Bytes × Bytes → Option (RowVersion ω)) (id : Bytes × Bytes) :
    CellOp.applyAll (chosen.map (deleteOp seen)) table id = table id ∨
      CellOp.applyAll (chosen.map (deleteOp seen)) table id = none ∧ id ∈ chosen ∧
        ∃ version, table id = some version ∧ (seen id).map RowVersion.writer = some version.writer := by
  induction chosen generalizing table with
  | nil => exact .inl rfl
  | cons head chosen ih =>
    have hstep : CellOp.apply table (deleteOp seen head) id = table id ∨
        CellOp.apply table (deleteOp seen head) id = none ∧ id = head ∧
          ∃ version, table id = some version ∧ (seen id).map RowVersion.writer = some version.writer := by
      by_cases hid : id = head
      · subst hid
        have hself : CellOp.apply table (deleteOp seen id) id =
            if (table id).map RowVersion.writer = (seen id).map RowVersion.writer then none else table id :=
          Function.update_self ..
        rw [hself]
        split
        · rename_i hsame
          cases hcurrent : table id with
          | none => exact .inl rfl
          | some version =>
            rw [hcurrent] at hsame
            exact .inr ⟨rfl, rfl, version, rfl, hsame.symm⟩
        · exact .inl rfl
      · exact .inl (Function.update_of_ne hid _ _)
    rcases ih (CellOp.apply table (deleteOp seen head)) with hrest | ⟨hgone, hmem, version, hversion, hsame⟩
    · rcases hstep with hkept | ⟨hgone, hid, hversion⟩
      · exact .inl (hrest.trans hkept)
      · exact .inr ⟨hrest.trans hgone, hid ▸ List.mem_cons_self, hversion⟩
    · rcases hstep with hkept | ⟨hnone, -, -⟩
      · exact .inr ⟨hgone, List.mem_cons_of_mem _ hmem, version, hkept ▸ hversion, hsame⟩
      · rw [hnone] at hversion
        cases hversion

section Histories

variable {env : Externals} {job : ω → SpanJob} {t : SpansTable}
  {commits : List (ω × List (CellOp (Bytes × Bytes) (RowVersion ω)))}

/-- The rows that an export writes. -/
def writtenRows (env : Externals) (data : TracesData) : List SpanRow :=
  match collectSpans env data with
  | .ok batch => (spanChunks batch).flatten
  | .error _ => []

lemma nodup_writtenRows (env : Externals) (data : TracesData) : ((writtenRows env data).map SpanRow.key).Nodup := by
  unfold writtenRows
  split
  · rw [flatten_spanChunks]
    exact nodup_keys_keepLast ..
  · exact List.nodup_nil

omit [DecidableEq ω] in
/-- What a transaction settles on: the upserts of an export, or deletes of rows that it sees expired. -/
lemma spanPlan_cases {w : ω} {chosen : List (Bytes × Bytes)} {table : Bytes × Bytes → Option (RowVersion ω)}
    [DecidableEq ω] {ops : List (CellOp (Bytes × Bytes) (RowVersion ω))}
    (h : spanPlan env job w chosen table = some ops) :
    (∃ data batch, job w = .write data ∧ collectSpans env data = .ok batch ∧
      ops = (writtenRows env data).map (upsertOp w)) ∨
    ∃ cutoff, job w = .delete cutoff ∧ ops = chosen.map (deleteOp table) ∧
      ∀ id ∈ chosen, ∃ version, table id = some version ∧ version.row.startTime < cutoff := by
  unfold spanPlan at h
  split at h
  · rename_i data hjob
    split at h
    · rename_i batch hbatch
      refine .inl ⟨data, batch, hjob, hbatch, ?_⟩
      rw [writtenRows, hbatch]
      exact (Option.some.inj h).symm
    · cases h
  · rename_i cutoff hjob
    split at h
    · rename_i hchosen
      refine .inr ⟨cutoff, hjob, (Option.some.inj h).symm, fun id hid => ?_⟩
      simpa [Option.any_eq_true] using hchosen.2 id hid
    · cases h

variable (env job t) in
/-- Where a version of a row comes from. -/
def Origin (id : Bytes × Bytes) (version : RowVersion ω) : Prop :=
  match version.writer with
  | none => t.lookup id = some version.row
  | some w => ∃ data, job w = .write data ∧ version.row ∈ writtenRows env data ∧ version.row.key = id

omit [DecidableEq ω] in
lemma Origin.key_eq {id : Bytes × Bytes} {version : RowVersion ω} (h : Origin env job t id version) :
    version.row.key = id := by
  unfold Origin at h
  split at h
  · exact ((t.lookup_eq_some_iff id version.row).mp h).2
  · obtain ⟨-, -, -, hkey⟩ := h
    exact hkey

omit [DecidableEq ω] in
/-- A version is known by its writer. -/
lemma Origin.row_eq {id : Bytes × Bytes} {version version' : RowVersion ω} (h : Origin env job t id version)
    (h' : Origin env job t id version') (hwriter : version.writer = version'.writer) : version.row = version'.row := by
  unfold Origin at h h'
  rw [← hwriter] at h'
  split at h
  · rename_i hnone
    rw [hnone] at h'
    exact Option.some.inj (h.symm.trans h')
  · rename_i w hsome
    rw [hsome] at h'
    obtain ⟨data, hjob, hrow, hkey⟩ := h
    obtain ⟨data', hjob', hrow', hkey'⟩ := h'
    obtain rfl := SpanJob.write.inj (hjob.symm.trans hjob')
    exact List.inj_on_of_nodup_map (nodup_writtenRows env data) hrow hrow' (hkey.trans hkey'.symm)

/-- Every version that a serial history leaves comes from somewhere. -/
lemma origin_of_serial (h : Serial (spanPlan env job) (spanCells t) commits) {id : Bytes × Bytes}
    {version : RowVersion ω} (hversion : contents (spanCells t) commits id = some version) :
    Origin env job t id version := by
  induction h generalizing id version with
  | nil =>
    obtain ⟨row, hrow, rfl⟩ := Option.map_eq_some_iff.mp hversion
    exact hrow
  | snoc h hbefore hplan ih =>
    rename_i commits before w chosen ops
    rw [contents_append_singleton] at hversion
    rcases spanPlan_cases hplan with ⟨data, batch, hjob, -, rfl⟩ | ⟨cutoff, -, rfl, -⟩
    · have hkeyed : Keyed (contents (spanCells t) commits) := fun id version hversion => (ih hversion).key_eq
      obtain ⟨hwritten, hothers⟩ := applyAll_upserts w (nodup_writtenRows env data) hkeyed
      by_cases hid : id ∈ (writtenRows env data).map SpanRow.key
      · obtain ⟨row, hrow, rfl⟩ := List.mem_map.mp hid
        rw [hwritten row hrow] at hversion
        obtain rfl := Option.some.inj hversion
        exact ⟨data, hjob, hrow, rfl⟩
      · rw [hothers id hid] at hversion
        exact ih hversion
    · rcases applyAll_deletes (contents (spanCells t) before) chosen (contents (spanCells t) commits) id with
        hkept | ⟨hgone, -⟩
      · exact ih (hkept.symm.trans hversion)
      · cases hgone.symm.trans hversion

/-- The table after exports one after another. -/
def afterWrites (env : Externals) (t : SpansTable) (writes : List TracesData) : SpansTable :=
  writes.foldl (fun t data => (write env {} data t).2) t

lemma afterWrites_append_singleton (writes : List TracesData) (data : TracesData) :
    afterWrites env t (writes ++ [data]) = (write env {} data (afterWrites env t writes)).2 :=
  List.foldl_append

omit [DecidableEq ω] in
lemma committedWrites_append_singleton (c : ω × List (CellOp (Bytes × Bytes) (RowVersion ω))) :
    committedWrites job (commits ++ [c]) = committedWrites job commits ++ committedWrites job [c] :=
  List.filterMap_append

/-- A write on a steady server upserts its rows. -/
lemma lookup_write {data : TracesData} {batch : SpanBatch} (hbatch : collectSpans env data = .ok batch) :
    (∀ row ∈ writtenRows env data, (write env {} data t).2.lookup row.key = some row) ∧
      ∀ id, id ∉ (writtenRows env data).map SpanRow.key → (write env {} data t).2.lookup id = t.lookup id := by
  have hnodup := nodup_writtenRows env data
  have hrows : writtenRows env data = keepLast SpanRow.key batch.rows := by
    rw [writtenRows, hbatch]
    exact flatten_spanChunks batch
  have hsteady : Server.Steady ({} : Server SpanRow) := rfl
  rw [write_of_steady hbatch hsteady fun _ _ => rfl, ← hrows]
  exact ⟨fun row hrow => KeyedTable.lookup_upsertAll_of_mem _ spanConflict_overwrites t hnodup hrow,
    fun id hid => KeyedTable.lookup_upsertAll_of_notMem _ t _ id hid⟩

variable (env job t commits) in
/-- Under an id is what the committed exports alone have left there, or nothing where that is older than
the floor. -/
def LeftByDeletes (floor : Int) (id : Bytes × Bytes) (current : Option (RowVersion ω)) : Prop :=
  current.map RowVersion.row = (afterWrites env t (committedWrites job commits)).lookup id ∨
    current = none ∧
      ∃ row, (afterWrites env t (committedWrites job commits)).lookup id = some row ∧ row.startTime < floor

lemma leftByDeletes_of_serial {floor : Int} (hcutoffs : ∀ w cutoff, job w = .delete cutoff → cutoff ≤ floor)
    (h : Serial (spanPlan env job) (spanCells t) commits) (id : Bytes × Bytes) :
    LeftByDeletes env job t commits floor id (contents (spanCells t) commits id) := by
  induction h with
  | nil =>
    left
    change ((t.lookup id).map _).map _ = t.lookup id
    cases t.lookup id <;> rfl
  | snoc h hbefore hplan ih =>
    rename_i commits before w chosen ops
    unfold LeftByDeletes at ih ⊢
    rw [contents_append_singleton, committedWrites_append_singleton]
    rcases spanPlan_cases hplan with ⟨data, batch, hjob, hbatch, rfl⟩ | ⟨cutoff, hjob, rfl, hchosen⟩
    · have hkeyed : Keyed (contents (spanCells t) commits) := fun id version hversion =>
        (origin_of_serial h hversion).key_eq
      obtain ⟨hwritten, hothers⟩ := applyAll_upserts w (nodup_writtenRows env data) hkeyed
      obtain ⟨hlookup, hlookupOthers⟩ := lookup_write (t := afterWrites env t (committedWrites job commits)) hbatch
      have hone : committedWrites job [(w, (writtenRows env data).map (upsertOp w))] = [data] := by
        simp only [committedWrites, List.filterMap_cons, hjob, List.filterMap_nil]
      rw [hone, afterWrites_append_singleton]
      by_cases hid : id ∈ (writtenRows env data).map SpanRow.key
      · obtain ⟨row, hrow, rfl⟩ := List.mem_map.mp hid
        left
        rw [hwritten row hrow, hlookup row hrow]
        rfl
      · rw [hothers id hid, hlookupOthers id hid]
        exact ih
    · have hnone : committedWrites job [(w, chosen.map (deleteOp (contents (spanCells t) before)))] = [] := by
        simp only [committedWrites, List.filterMap_cons, hjob, List.filterMap_nil]
      rw [hnone, List.append_nil]
      rcases applyAll_deletes (contents (spanCells t) before) chosen (contents (spanCells t) commits) id with
        hkept | ⟨hgone, hid, version, hversion, hsame⟩
      · rw [hkept]
        exact ih
      · right
        -- the version deleted is the one that the statement saw expired
        obtain ⟨seen, hseen, hexpired⟩ := hchosen id hid
        rw [hseen] at hsame
        have hrow : seen.row = version.row := (origin_of_serial (h.of_prefix hbefore) hseen).row_eq
          (origin_of_serial h hversion) (Option.some.inj hsame)
        refine ⟨hgone, version.row, ?_, ?_⟩
        · rcases ih with hsome | ⟨hcontra, -⟩
          · rw [← hsome, hversion]
            rfl
          · cases hcontra.symm.trans hversion
        · rw [← hrow]
          exact lt_of_lt_of_le hexpired (hcutoffs w cutoff hjob)

end Histories

/-- Exports and deletes of sweeps, row by row and in any order, waiting for locks and rolled back at any
point: under every id the table has what the committed exports alone would have left there, one after
another, or nothing where that row is older than the latest cutoff. -/
theorem overlapping_deletes_spare {ω : Type} [DecidableEq ω] (env : Externals) (job : ω → SpanJob) (t : SpansTable)
    (floor : Int) (hcutoffs : ∀ w cutoff, job w = .delete cutoff → cutoff ≤ floor)
    (actions : List (CellAction ω (List (Bytes × Bytes)))) (s : CellState (Bytes × Bytes) (RowVersion ω) ω)
    (hrun : runSteps (CellState.step (spanPlan env job)) actions { table := spanCells t } = some s) :
    ∀ id,
      (s.table id).map RowVersion.row = (afterWrites env t (committedWrites job s.commits)).lookup id ∨
        s.table id = none ∧
          ∃ row, (afterWrites env t (committedWrites job s.commits)).lookup id = some row ∧ row.startTime < floor := by
  obtain ⟨hserial, htable⟩ := serial_of_run hrun
  intro id
  rw [htable]
  exact leftByDeletes_of_serial hcutoffs hserial id

/-- Two expired spans. -/
def twoExpired : SpansTable := (write .inert {} (exportOf [spanOf 1 "a" 5, spanOf 2 "b" 6]) ∅).2

/-- One transaction exports the first of them anew, the other one deletes what is expired. -/
def renewalJob : Bool → SpanJob
  | false => .write (exportOf [spanOf 1 "c" 60])
  | true => .delete 40

def firstId : Bytes × Bytes := (.replicate 16 1, .replicate 8 1)

def secondId : Bytes × Bytes := (.replicate 16 2, .replicate 8 2)

/-- The delete finds the first one locked, and then renewed. -/
def renewal : List (CellAction Bool (List (Bytes × Bytes))) :=
  [.begin true [secondId, firstId], .begin false [], .op false, .op true, .commit false, .op true, .commit true]

theorem overlapping_deletes_spare_renewed :
    ∃ s, runSteps (CellState.step (spanPlan .inert renewalJob)) renewal { table := spanCells twoExpired } = some s ∧
      (s.table firstId).isSome ∧ s.table secondId = none ∧
      ((s.table firstId).map RowVersion.row =
          (afterWrites .inert twoExpired (committedWrites renewalJob s.commits)).lookup firstId ∨
        s.table firstId = none ∧ ∃ row,
          (afterWrites .inert twoExpired (committedWrites renewalJob s.commits)).lookup firstId = some row ∧
            row.startTime < 40) := by
  have hends : ∃ s, runSteps (CellState.step (spanPlan .inert renewalJob)) renewal { table := spanCells twoExpired } =
      some s ∧ (s.table firstId).isSome ∧ s.table secondId = none := ⟨_, rfl, rfl, rfl⟩
  obtain ⟨s, hrun, hkept, hgone⟩ := hends
  refine ⟨s, hrun, hkept, hgone, overlapping_deletes_spare .inert renewalJob twoExpired 40 (fun w cutoff hjob => ?_)
    renewal s hrun firstId⟩
  cases w with
  | false => cases hjob
  | true =>
    cases hjob
    exact le_refl _

end OtelviewPostgres
