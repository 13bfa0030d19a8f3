import OtelviewPostgres.Proofs.SpanIngest
import OtelviewPostgres.Relational.RowLocks

/-!
# Concurrent span exports

Any number of `Store::write` calls past row building, each of which upserts the rows of its
chunks one by one in one transaction. They have the effect of the committed ones run one
after another. They can wait for each other in a circle, since each takes the locks in the
order in which its spans arrived.
-/

namespace OtelviewPostgres

open Relational

/-- The rows a write sends, chunk by chunk. -/
def spanProgram (batch : SpanBatch) : List SpanRow := (spanChunks batch).flatten

lemma spanProgram_eq_keepLast (batch : SpanBatch) : spanProgram batch = keepLast SpanRow.key batch.rows :=
  flatten_spanChunks batch

/-- The states of the concurrent writes, started on one table. -/
abbrev SpanWrites (ω : Type) := LockState SpanRow.key ω

section Concurrent

variable {ω : Type} {env : Externals} {data : ω → TracesData} {batch : ω → SpanBatch}

lemma foldl_write_eq (hb : ∀ w, collectSpans env (data w) = .ok (batch w)) (ws : List ω) (t : SpansTable) :
    ws.foldl (fun t w => (write env {} (data w) t).2) t =
      ws.foldl (fun t w => t.upsertAll spanConflict (spanProgram (batch w))) t := by
  have hsteady : Server.Steady ({} : Server SpanRow) := rfl
  congr 1
  funext t w
  rw [write_of_steady (hb w) hsteady (fun _ _ => rfl), spanProgram_eq_keepLast]

end Concurrent

/-- In every interleaving of concurrent writes, the table is that of the committed ones run
in commit order, and a row of a committed write is there until one that commits later has
its id. -/
theorem concurrent_writes_serializable {ω : Type} [DecidableEq ω] (env : Externals) (data : ω → TracesData)
    (batch : ω → SpanBatch) (hb : ∀ w, collectSpans env (data w) = .ok (batch w)) (t : SpansTable)
    (actions : List (TxnAction ω)) (s : SpanWrites ω)
    (h : LockState.run spanConflict actions (LockState.start t (fun w => spanProgram (batch w))) = some s) :
    s.table = s.commits.foldl (fun t w => (write env {} (data w) t).2) t ∧
      ∀ before w after, s.commits = before ++ w :: after → ∀ row ∈ keepLast SpanRow.key (batch w).rows,
        (∀ v ∈ after, row.key ∉ (batch v).rows.map SpanRow.key) → s.table.lookup row.key = some row := by
  refine ⟨?_, fun before w after hcommits row hrow hafter => ?_⟩
  · rw [foldl_write_eq hb]
    exact LockState.table_eq_of_run h
  · have hnodup : ((spanProgram (batch w)).map SpanRow.key).Nodup := by
      rw [spanProgram_eq_keepLast]
      exact nodup_keys_keepLast SpanRow.key (batch w).rows
    refine LockState.lookup_of_run spanConflict_overwrites h hcommits hnodup ?_ ?_
    · rwa [spanProgram_eq_keepLast]
    · intro v hv
      rw [spanProgram_eq_keepLast, mem_map_keepLast]
      exact hafter v hv

/-- The batch of an export whose rows can be built. -/
def batchOf (data : TracesData) : SpanBatch :=
  match collectSpans .inert data with
  | .ok batch => batch
  | .error _ => {}

/-- Two exports, one after the other. -/
def exportPair (first second : List Span) (w : Bool) : TracesData := exportOf (cond w second first)

/-- Two exports that share a span, which the second sends after one of its own. -/
def sharingExports : Bool → TracesData := exportPair [spanOf 1 "a" 5, spanOf 2 "b" 5] [spanOf 3 "c" 6, spanOf 1 "d" 6]

/-- Each of the two writes has a row in before the first commit. -/
theorem concurrent_writes_serializable_shared_span :
    ∃ s, LockState.run spanConflict [.row false, .row true, .row false, .commit false, .row true, .commit true]
        (LockState.start ∅ fun w => spanProgram (batchOf (sharingExports w))) = some s ∧
      s.table = s.commits.foldl (fun t w => (write .inert {} (sharingExports w) t).2) ∅ := by
  have hb : ∀ w, collectSpans .inert (sharingExports w) = .ok (batchOf (sharingExports w)) := by
    intro w
    cases w <;> rfl
  obtain ⟨s, hs⟩ : ∃ s, LockState.run spanConflict
      [.row false, .row true, .row false, .commit false, .row true, .commit true]
      (LockState.start ∅ fun w => spanProgram (batchOf (sharingExports w))) = some s := ⟨_, rfl⟩
  exact ⟨s, hs, (concurrent_writes_serializable .inert _ _ hb ∅ _ s hs).1⟩

/-- Where the orders in which the writes take contested keys agree, no interleaving makes
writes wait for each other in a circle, and some open write can always go on. -/
theorem concurrent_writes_no_deadlock {ω : Type} [DecidableEq ω] [Finite ω] (batch : ω → SpanBatch)
    (hacyclic : ∀ k, ¬ Relation.TransGen
      (LockState.Precedes SpanRow.key (fun w => (dedupeSpans (batch w).rows))) k k)
    (t : SpansTable) (actions : List (TxnAction ω)) (s : SpanWrites ω)
    (h : LockState.run spanConflict actions (LockState.start t (fun w => spanProgram (batch w))) = some s) :
    (∀ w, ¬ Relation.TransGen s.WaitsFor w w) ∧
      ∀ w, (s.txns w).status = .running → ∃ v a s', (s.txns v).status = .running ∧
        (a = .row v ∨ a = .commit v) ∧ s.step spanConflict a = some s' := by
  have hprogram : (fun w => dedupeSpans (batch w).rows) = fun w => spanProgram (batch w) := by
    funext w
    rw [spanProgram_eq_keepLast, dedupeSpans_eq_keepLast]
  rw [hprogram] at hacyclic
  have hinv := (LockState.inv_start t (fun w => spanProgram (batch w))).run h
  have hcycle : ∀ w, ¬ Relation.TransGen s.WaitsFor w w := LockState.not_waitsFor_cycle hinv hacyclic
  exact ⟨hcycle, fun w hw => LockState.exists_step_of_acyclic hinv hcycle hw⟩

/-- Two writes that take two spans in the same order, the first of which has begun. -/
theorem concurrent_writes_no_deadlock_same_order :
    ∃ s : SpanWrites Bool, LockState.run spanConflict [.row false]
        (LockState.start ∅ (fun w => spanProgram (batchOf
          (exportPair [spanOf 1 "a" 5, spanOf 2 "b" 5] [spanOf 1 "c" 6, spanOf 2 "d" 6] w)))) = some s ∧
      ∀ w, ¬ Relation.TransGen s.WaitsFor w w := by
  have hprecedes : ∀ k l, LockState.Precedes SpanRow.key (fun w => dedupeSpans (batchOf
      (exportPair [spanOf 1 "a" 5, spanOf 2 "b" 5] [spanOf 1 "c" 6, spanOf 2 "d" 6] w)).rows) k l →
      k = (.replicate 16 1, .replicate 8 1) ∧ l = (.replicate 16 2, .replicate 8 2) := by
    rintro k l ⟨-, -, w, hw⟩
    have hkl := hw.eq_of_length (by cases w <;> rfl)
    cases w <;> exact List.cons.inj hkl |>.imp_right (fun h => (List.cons.inj h).1)
  obtain ⟨s, hs⟩ : ∃ s, LockState.run spanConflict [.row false]
      (LockState.start ∅ (fun w => spanProgram (batchOf
        (exportPair [spanOf 1 "a" 5, spanOf 2 "b" 5] [spanOf 1 "c" 6, spanOf 2 "d" 6] w)))) = some s := ⟨_, rfl⟩
  refine ⟨s, hs, (concurrent_writes_no_deadlock _ (fun k hk => ?_) ∅ _ s hs).1⟩
  obtain ⟨_, hfirst, -⟩ := Relation.TransGen.head'_iff.mp hk
  obtain ⟨_, -, hlast⟩ := Relation.TransGen.tail'_iff.mp hk
  have heq := (hprecedes _ _ hfirst).1.symm.trans (hprecedes _ _ hlast).2
  revert heq
  decide

/-- Two writes that take two spans in opposite orders, each of which waits for the other. -/
theorem opposite_orders_deadlock :
    ∃ s : SpanWrites Bool, LockState.run spanConflict [.row false, .row true]
        (LockState.start ∅ (fun w => spanProgram (batchOf
          (exportPair [spanOf 1 "a" 5, spanOf 2 "b" 5] [spanOf 2 "d" 6, spanOf 1 "c" 6] w)))) = some s ∧
      Relation.TransGen s.WaitsFor false false ∧
      ∀ w, s.step spanConflict (.row w) = none ∧ s.step spanConflict (.commit w) = none := by
  refine ⟨_, rfl, .tail (.single ⟨(.replicate 16 2, .replicate 8 2), rfl, rfl, rfl, by decide⟩)
    ⟨(.replicate 16 1, .replicate 8 1), rfl, rfl, rfl, by decide⟩, fun w => ?_⟩
  cases w <;> exact ⟨rfl, rfl⟩

end OtelviewPostgres
