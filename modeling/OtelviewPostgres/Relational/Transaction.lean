import Mathlib

/-!
# Batches in one transaction

A writer that splits its rows into chunks, runs one statement for each chunk inside
a transaction and commits at the end. The session keeps the committed state apart
from the working copy of the open transaction, so that what an early return leaves
behind is a consequence and not an assumption. Failures that come from outside the
statements are a parameter of the run.
-/

namespace Relational

section Chunks

variable {α : Type*}

def chunksFuel (n : ℕ) : ℕ → List α → List (List α)
  | 0, _ => []
  | fuel + 1, l => if l.isEmpty then [] else l.take n :: chunksFuel n fuel (l.drop n)

/-- Consecutive pieces of length `n`, the last one possibly shorter. -/
def chunks (n : ℕ) (l : List α) : List (List α) := chunksFuel n l.length l

lemma flatten_chunksFuel {n : ℕ} (hn : 0 < n) (fuel : ℕ) (l : List α) (h : l.length ≤ fuel) :
    (chunksFuel n fuel l).flatten = l := by
  induction fuel generalizing l with
  | zero => simpa [chunksFuel] using (List.length_eq_zero_iff.mp (Nat.le_zero.mp h)).symm
  | succ fuel ih =>
    unfold chunksFuel
    cases l with
    | nil => rfl
    | cons a l =>
      have hlen : ((a :: l).drop n).length ≤ fuel := by
        rw [List.length_drop]
        omega
      simp only [List.isEmpty_cons, Bool.false_eq_true, if_false, List.flatten_cons, ih _ hlen,
        List.take_append_drop]

/-- Every element is in exactly one chunk, in the order of the list. -/
@[simp] theorem flatten_chunks {n : ℕ} (hn : 0 < n) (l : List α) : (chunks n l).flatten = l :=
  flatten_chunksFuel hn l.length l le_rfl

lemma length_mem_chunksFuel {n : ℕ} (hn : 0 < n) (fuel : ℕ) (l : List α) :
    ∀ c ∈ chunksFuel n fuel l, 0 < c.length ∧ c.length ≤ n := by
  induction fuel generalizing l with
  | zero => simp [chunksFuel]
  | succ fuel ih =>
    unfold chunksFuel
    cases l with
    | nil => simp
    | cons a l =>
      simp only [List.isEmpty_cons, Bool.false_eq_true, if_false, List.mem_cons, forall_eq_or_imp]
      refine ⟨?_, ih _⟩
      rw [List.length_take, List.length_cons]
      omega

theorem length_mem_chunks {n : ℕ} (hn : 0 < n) {l c : List α} (h : c ∈ chunks n l) :
    0 < c.length ∧ c.length ≤ n :=
  length_mem_chunksFuel hn l.length l c h

lemma sublist_of_mem_chunks {n : ℕ} (hn : 0 < n) {l c : List α} (h : c ∈ chunks n l) : c.Sublist l := by
  have hc := List.sublist_flatten_of_mem h
  rwa [flatten_chunks hn] at hc

end Chunks

variable {ε τ : Type}

/-- The calls of one transaction that fail for a reason outside its statements. -/
structure Faults (ε : Type) where
  onBegin : Option ε := none
  onStatement : ℕ → Option ε := fun _ => none
  onCommit : Option ε := none

structure Session (τ : Type) where
  committed : τ
  working : Option τ := none

def failWith (fault : Option ε) : EStateM ε (Session τ) Unit :=
  match fault with
  | some e => throw e
  | none => pure ()

def begin (f : Faults ε) : EStateM ε (Session τ) Unit := do
  failWith f.onBegin
  modify fun s => { s with working := some s.committed }

/-- Run one statement: on the working copy inside a transaction, directly outside. -/
def execute (f : Faults ε) (i : ℕ) (statement : τ → Except ε τ) : EStateM ε (Session τ) Unit := do
  failWith (f.onStatement i)
  let s ← get
  match statement (s.working.getD s.committed) with
  | .error e => throw e
  | .ok t => match s.working with
    | some _ => set { s with working := some t }
    | none => set { s with committed := t }

def executeAll (f : Faults ε) : ℕ → List (τ → Except ε τ) → EStateM ε (Session τ) Unit
  | _, [] => pure ()
  | i, statement :: rest => do
    execute f i statement
    executeAll f (i + 1) rest

def commit (f : Faults ε) : EStateM ε (Session τ) Unit := do
  failWith f.onCommit
  modify fun s => { committed := s.working.getD s.committed, working := none }

/-- Dropping a transaction that was not committed rolls it back. -/
def rollback : EStateM ε (Session τ) Unit := modify fun s => { s with working := none }

def transact (f : Faults ε) (statements : List (τ → Except ε τ)) : EStateM ε (Session τ) Unit := do
  begin f
  try
    executeAll f 0 statements
    commit f
  catch e =>
    rollback
    throw e

/-- The result of a transaction and the state it leaves committed. -/
def runTransaction (f : Faults ε) (statements : List (τ → Except ε τ)) (t : τ) : Except ε Unit × τ :=
  match (transact f statements).run { committed := t } with
  | .ok _ s => (.ok (), s.committed)
  | .error e s => (.error e, s.committed)

lemma run_execute_working (f : Faults ε) (i : ℕ) (statement : τ → Except ε τ) (t w : τ) :
    (execute f i statement).run ⟨t, some w⟩ =
      match f.onStatement i, statement w with
      | some e, _ => .error e ⟨t, some w⟩
      | none, .error e => .error e ⟨t, some w⟩
      | none, .ok w' => .ok () ⟨t, some w'⟩ := by
  unfold execute failWith
  cases f.onStatement i with
  | some e => rfl
  | none =>
    simp only [EStateM.run_bind, EStateM.run_pure, EStateM.run_get, Option.getD_some]
    cases statement w <;> rfl

/-- Inside a transaction the statements touch the working copy only. -/
lemma run_executeAll_working (f : Faults ε) (i : ℕ) (statements : List (τ → Except ε τ)) (t w : τ) :
    (∃ e w', (executeAll f i statements).run ⟨t, some w⟩ = .error e ⟨t, some w'⟩) ∨
      ∃ w', statements.foldlM (fun t statement => statement t) w = .ok w' ∧
        (executeAll f i statements).run ⟨t, some w⟩ = .ok () ⟨t, some w'⟩ := by
  induction statements generalizing i w with
  | nil => exact .inr ⟨w, rfl, rfl⟩
  | cons statement rest ih =>
    rw [executeAll, EStateM.run_bind, run_execute_working]
    cases f.onStatement i with
    | some e => exact .inl ⟨e, w, rfl⟩
    | none =>
      cases hw : statement w with
      | error e => exact .inl ⟨e, w, rfl⟩
      | ok w' =>
        rcases ih (i + 1) w' with ⟨e, w'', h⟩ | ⟨w'', hfold, h⟩
        · exact .inl ⟨e, w'', h⟩
        · exact .inr ⟨w'', by rw [List.foldlM_cons, hw]; exact hfold, h⟩

lemma run_tryCatch {α : Type} (x : EStateM ε (Session τ) α) (handle : ε → EStateM ε (Session τ) α)
    (s : Session τ) :
    (tryCatch x handle).run s =
      match x.run s with
      | .ok a s' => .ok a s'
      | .error e s' => (handle e).run s' := by
  change EStateM.tryCatch x handle s = _
  unfold EStateM.tryCatch EStateM.run
  cases x s <;> rfl

lemma run_commit (f : Faults ε) (t w : τ) :
    (commit f).run ⟨t, some w⟩ =
      match f.onCommit with
      | some e => .error e ⟨t, some w⟩
      | none => .ok () ⟨w, none⟩ := by
  unfold commit failWith
  cases f.onCommit <;> rfl

lemma run_transact_of_begin (f : Faults ε) (statements : List (τ → Except ε τ)) (t : τ)
    (h : f.onBegin = none) :
    (transact f statements).run ⟨t, none⟩ =
      (tryCatch (do executeAll f 0 statements; commit f)
        (fun e => do rollback; throw e)).run ⟨t, some t⟩ := by
  unfold transact begin failWith
  rw [h]
  rfl

/-- A transaction either reports an error and leaves the committed state alone, or its
statements all ran, one after another, and the state they reach is committed. -/
theorem runTransaction_cases (f : Faults ε) (statements : List (τ → Except ε τ)) (t : τ) :
    (∃ e, runTransaction f statements t = (.error e, t)) ∨
      ∃ t', statements.foldlM (fun t statement => statement t) t = .ok t' ∧
        runTransaction f statements t = (.ok (), t') := by
  unfold runTransaction
  cases hb : f.onBegin with
  | some e =>
    refine .inl ⟨e, ?_⟩
    unfold transact begin failWith
    rw [hb]
    rfl
  | none =>
    rw [run_transact_of_begin f statements t hb, run_tryCatch, EStateM.run_bind]
    rcases run_executeAll_working f 0 statements t t with ⟨e, w, h⟩ | ⟨w, hfold, h⟩
    · rw [h]
      exact .inl ⟨e, rfl⟩
    · rw [h]
      simp only [run_commit]
      cases f.onCommit with
      | some e => exact .inl ⟨e, rfl⟩
      | none => exact .inr ⟨w, hfold, rfl⟩

lemma run_executeAll_of_no_faults (i : ℕ) (statements : List (τ → Except ε τ)) (t w w' : τ)
    (h : statements.foldlM (fun t statement => statement t) w = .ok w') :
    (executeAll {} i statements).run ⟨t, some w⟩ = .ok () ⟨t, some w'⟩ := by
  induction statements generalizing i w with
  | nil =>
    cases h
    rfl
  | cons statement rest ih =>
    rw [executeAll, EStateM.run_bind, run_execute_working]
    rw [List.foldlM_cons] at h
    cases hw : statement w with
    | error e =>
      rw [hw] at h
      cases h
    | ok w'' =>
      rw [hw] at h
      exact ih (i + 1) w'' h

/-- With no failure from outside the result is that of the statements. -/
theorem runTransaction_of_no_faults {statements : List (τ → Except ε τ)} {t t' : τ}
    (h : statements.foldlM (fun t statement => statement t) t = .ok t') :
    runTransaction {} statements t = (.ok (), t') := by
  unfold runTransaction
  rw [run_transact_of_begin {} statements t rfl, run_tryCatch, EStateM.run_bind,
    run_executeAll_of_no_faults 0 statements t t t' h]
  rfl

/-- The statements fail alike on related states, and lead from related states to related ones. -/
def StatementsRelated (R : τ → τ → Prop) (statement statement' : τ → Except ε τ) : Prop :=
  ∀ t t', R t t' → (∃ e, statement t = .error e ∧ statement' t' = .error e) ∨
    ∃ u u', statement t = .ok u ∧ statement' t' = .ok u' ∧ R u u'

lemma run_executeAll_related {R : τ → τ → Prop} (f : Faults ε) (i : ℕ) {statements statements' : List (τ → Except ε τ)}
    (h : List.Forall₂ (StatementsRelated R) statements statements') (t t' : τ) {w w' : τ} (hw : R w w') :
    (∃ e u u', (executeAll f i statements).run ⟨t, some w⟩ = .error e ⟨t, some u⟩ ∧
        (executeAll f i statements').run ⟨t', some w'⟩ = .error e ⟨t', some u'⟩) ∨
      ∃ u u', (executeAll f i statements).run ⟨t, some w⟩ = .ok () ⟨t, some u⟩ ∧
        (executeAll f i statements').run ⟨t', some w'⟩ = .ok () ⟨t', some u'⟩ ∧ R u u' := by
  induction h generalizing i w w' with
  | nil => exact .inr ⟨w, w', rfl, rfl, hw⟩
  | @cons statement statement' rest rest' hstatement _ ih =>
    rw [executeAll, executeAll, EStateM.run_bind, EStateM.run_bind, run_execute_working, run_execute_working]
    cases f.onStatement i with
    | some e => exact .inl ⟨e, w, w', rfl, rfl⟩
    | none =>
      rcases hstatement w w' hw with ⟨e, he, he'⟩ | ⟨u, u', hu, hu', huu⟩
      · rw [he, he']
        exact .inl ⟨e, w, w', rfl, rfl⟩
      · rw [hu, hu']
        exact ih (i + 1) huu

/-- A transaction has the same result on related states, and leaves related states behind. -/
theorem runTransaction_related {R : τ → τ → Prop} (f : Faults ε) {statements statements' : List (τ → Except ε τ)}
    (h : List.Forall₂ (StatementsRelated R) statements statements') {t t' : τ} (ht : R t t') :
    (runTransaction f statements t).1 = (runTransaction f statements' t').1 ∧
      R (runTransaction f statements t).2 (runTransaction f statements' t').2 := by
  unfold runTransaction
  cases hb : f.onBegin with
  | some e =>
    unfold transact begin failWith
    rw [hb]
    exact ⟨rfl, ht⟩
  | none =>
    rw [run_transact_of_begin f statements t hb, run_transact_of_begin f statements' t' hb, run_tryCatch, run_tryCatch,
      EStateM.run_bind, EStateM.run_bind]
    rcases run_executeAll_related f 0 h t t' ht with ⟨e, u, u', hu, hu'⟩ | ⟨u, u', hu, hu', huu⟩
    · rw [hu, hu']
      exact ⟨rfl, ht⟩
    · rw [hu, hu']
      simp only [run_commit]
      cases f.onCommit with
      | some e => exact ⟨rfl, ht⟩
      | none => exact ⟨rfl, huu⟩

end Relational
