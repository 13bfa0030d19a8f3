import OtelviewPostgres.Relational.KeyedTable

/-!
# Transactions that lock the rows they upsert

Any number of transactions upsert their rows one by one into one table. A row can be
written only when no other open transaction has its key; the key stays locked until the
transaction ends, and what was written becomes visible when it commits. Whatever the
interleaving, the committed table is that of the committed transactions run one after
another, and only the orders in which they take contested keys can make them wait in a
circle.
-/

namespace Relational

variable {ρ κ ω : Type*} [DecidableEq κ] {key : ρ → κ} (c : ConflictUpdate key)

namespace KeyedTable

def putAll (t : KeyedTable key) (rows : List ρ) : KeyedTable key := rows.foldl put t

/-- The row versions that upserting `rows` into `t` writes. -/
def versions (t : KeyedTable key) : List ρ → List ρ
  | [] => []
  | r :: rows => t.resolve c r :: versions (t.put (t.resolve c r)) rows

lemma versions_append_singleton (t : KeyedTable key) (rows : List ρ) (r : ρ) :
    t.versions c (rows ++ [r]) = t.versions c rows ++ [(t.putAll (t.versions c rows)).resolve c r] := by
  induction rows generalizing t with
  | nil => rfl
  | cons x rows ih =>
    rw [List.cons_append, versions, ih, versions, List.cons_append]
    rfl

lemma putAll_versions (t : KeyedTable key) (rows : List ρ) : t.putAll (t.versions c rows) = t.upsertAll c rows := by
  induction rows generalizing t with
  | nil => rfl
  | cons r rows ih => exact ih (t.put (t.resolve c r))

lemma map_key_versions (t : KeyedTable key) (rows : List ρ) : (t.versions c rows).map key = rows.map key := by
  induction rows generalizing t with
  | nil => rfl
  | cons r rows ih => rw [versions, List.map_cons, List.map_cons, t.key_resolve c r, ih]

lemma lookup_putAll_of_notMem (t : KeyedTable key) (rows : List ρ) (k : κ) (h : k ∉ rows.map key) :
    (t.putAll rows).lookup k = t.lookup k := by
  induction rows generalizing t with
  | nil => rfl
  | cons r rows ih =>
    rw [List.map_cons, List.mem_cons, not_or] at h
    have hput := ih (t.put r) h.2
    rw [lookup_put, if_neg h.1] at hput
    exact hput

/-- Which versions are written depends on the rows that are there under the same keys only. -/
lemma versions_congr {t t' : KeyedTable key} {rows : List ρ}
    (h : ∀ k ∈ rows.map key, t.lookup k = t'.lookup k) : t.versions c rows = t'.versions c rows := by
  induction rows generalizing t t' with
  | nil => rfl
  | cons r rows ih =>
    have hr : t.resolve c r = t'.resolve c r := by
      unfold resolve
      rw [h (key r) List.mem_cons_self]
    rw [versions, versions, hr]
    congr 1
    apply ih
    intro k hk
    rw [lookup_put, lookup_put]
    split
    · rfl
    · exact h k (List.mem_cons_of_mem _ hk)

end KeyedTable

inductive TxnStatus where
  | running
  | committed
  | aborted
deriving DecidableEq

/-- The rows a transaction has upserted, those it has yet to, and the versions it wrote. -/
structure Txn (ρ : Type*) where
  done : List ρ := []
  pending : List ρ
  written : List ρ := []
  status : TxnStatus := .running

/-- The committed table, the owner of each locked key, the transactions, and those that
have committed, in that order. -/
structure LockState (key : ρ → κ) (ω : Type*) where
  table : KeyedTable key
  locks : κ → Option ω
  txns : ω → Txn ρ
  commits : List ω := []

inductive TxnAction (ω : Type*) where
  | row (w : ω)
  | commit (w : ω)
  | abort (w : ω)

namespace LockState

variable [DecidableEq ω]

/-- All transactions are open and have done nothing. -/
def start (t : KeyedTable key) (program : ω → List ρ) : LockState key ω where
  table := t
  locks _ := none
  txns w := { pending := program w }

def setTxn (s : LockState key ω) (w : ω) (x : Txn ρ) : LockState key ω :=
  { s with txns := Function.update s.txns w x }

def release (s : LockState key ω) (w : ω) : LockState key ω :=
  { s with locks := fun k => if s.locks k = some w then none else s.locks k }

/-- The table as the transaction sees it. -/
def view (s : LockState key ω) (w : ω) : KeyedTable key := s.table.putAll (s.txns w).written

/-- Lock the key of a row and write its version. -/
def upsertRow (s : LockState key ω) (w : ω) (r : ρ) (rest : List ρ) : LockState key ω :=
  let x := s.txns w
  { s with
    locks := Function.update s.locks (key r) (some w)
    txns := Function.update s.txns w
      { x with done := x.done ++ [r], pending := rest, written := x.written ++ [(s.view w).resolve c r] } }

/-- One step, where it is possible: upsert the next row unless another transaction has its
key, commit when no row is left, or abort. -/
def step (s : LockState key ω) : TxnAction ω → Option (LockState key ω)
  | .row w =>
    match (s.txns w).status, (s.txns w).pending with
    | .running, r :: rest =>
      match s.locks (key r) with
      | some w' => if w' = w then some (s.upsertRow c w r rest) else none
      | none => some (s.upsertRow c w r rest)
    | _, _ => none
  | .commit w =>
    match (s.txns w).status, (s.txns w).pending with
    | .running, [] =>
      some (({ s with table := s.view w, commits := s.commits ++ [w] }.setTxn w
        { s.txns w with status := .committed }).release w)
    | _, _ => none
  | .abort w =>
    match (s.txns w).status with
    | .running => some ((s.setTxn w { s.txns w with status := .aborted }).release w)
    | _ => none

def run (actions : List (TxnAction ω)) (s : LockState key ω) : Option (LockState key ω) :=
  actions.foldlM (step c) s

lemma step_cases {s s' : LockState key ω} {a : TxnAction ω} (h : s.step c a = some s') :
    (∃ w r rest, a = .row w ∧ (s.txns w).status = .running ∧ (s.txns w).pending = r :: rest ∧
      (∀ w', s.locks (key r) = some w' → w' = w) ∧ s' = s.upsertRow c w r rest) ∨
    (∃ w, a = .commit w ∧ (s.txns w).status = .running ∧ (s.txns w).pending = [] ∧
      s' = ({ s with table := s.view w, commits := s.commits ++ [w] }.setTxn w
        { s.txns w with status := .committed }).release w) ∨
    ∃ w, a = .abort w ∧ (s.txns w).status = .running ∧
      s' = (s.setTxn w { s.txns w with status := .aborted }).release w := by
  cases a with
  | row w =>
    simp only [step] at h
    split at h
    · rename_i r rest hstatus hpending
      split at h
      · rename_i w' hlock
        split at h
        · rename_i hw
          subst hw
          cases h
          refine .inl ⟨w', r, rest, rfl, hstatus, hpending, fun w'' hw'' => ?_, rfl⟩
          exact Option.some.inj (hw''.symm.trans hlock)
        · cases h
      · rename_i hlock
        cases h
        refine .inl ⟨w, r, rest, rfl, hstatus, hpending, fun w' hw' => ?_, rfl⟩
        rw [hlock] at hw'
        cases hw'
    · cases h
  | commit w =>
    simp only [step] at h
    split at h
    · rename_i hstatus hpending
      cases h
      exact .inr (.inl ⟨w, rfl, hstatus, hpending, rfl⟩)
    · cases h
  | abort w =>
    simp only [step] at h
    split at h
    · rename_i hstatus
      cases h
      exact .inr (.inr ⟨w, rfl, hstatus, rfl⟩)
    · cases h

/-- The transactions execute their programs, own the keys they have upserted until they
end, have written what upserting into the committed table would write, and that table is
the result of the committed programs in commit order. -/
structure Inv (t : KeyedTable key) (program : ω → List ρ) (s : LockState key ω) : Prop where
  program_eq : ∀ w, program w = (s.txns w).done ++ (s.txns w).pending
  locks_iff : ∀ k w, s.locks k = some w ↔ (s.txns w).status = .running ∧ k ∈ (s.txns w).done.map key
  written_eq : ∀ w, (s.txns w).status = .running → (s.txns w).written = s.table.versions c (s.txns w).done
  table_eq : s.table = s.commits.foldl (fun t w => t.upsertAll c (program w)) t

variable {c} {t : KeyedTable key} {program : ω → List ρ} {s s' : LockState key ω}

omit [DecidableEq ω] in
lemma inv_start (t : KeyedTable key) (program : ω → List ρ) : Inv c t program (start t program) where
  program_eq _ := rfl
  locks_iff k w := by simp [start]
  written_eq _ _ := rfl
  table_eq := rfl

lemma Inv.upsertRow (h : Inv c t program s) {w : ω} {r : ρ} {rest : List ρ}
    (hstatus : (s.txns w).status = .running) (hpending : (s.txns w).pending = r :: rest)
    (hfree : ∀ w', s.locks (key r) = some w' → w' = w) : Inv c t program (s.upsertRow c w r rest) where
  program_eq v := by
    by_cases hv : v = w
    · subst hv
      simp [LockState.upsertRow, h.program_eq v, hpending]
    · simp [LockState.upsertRow, Function.update_of_ne hv, h.program_eq v]
  locks_iff k v := by
    have hk := h.locks_iff k v
    by_cases hv : v = w
    · subst hv
      by_cases hkr : k = key r
      · simp [LockState.upsertRow, hkr, hstatus]
      · simp [LockState.upsertRow, hkr, hk]
    · by_cases hkr : k = key r
      · -- the key is not locked by `v`, for it was free for `w`
        subst hkr
        have hnot : s.locks (key r) ≠ some v := fun hlock => hv (hfree v hlock)
        have hne : ¬ w = v := fun he => hv he.symm
        rw [Ne, hk] at hnot
        simp only [LockState.upsertRow, Function.update_self, Function.update_of_ne hv, Option.some.injEq, hne,
          false_iff]
        exact hnot
      · simp only [LockState.upsertRow, Function.update_of_ne hv, Function.update_of_ne hkr]
        exact hk
  written_eq v hv := by
    by_cases hvw : v = w
    · subst hvw
      have hw := h.written_eq v hstatus
      simp only [LockState.upsertRow, Function.update_self, view, KeyedTable.versions_append_singleton, hw]
    · simp only [LockState.upsertRow, Function.update_of_ne hvw] at hv ⊢
      exact h.written_eq v hv
  table_eq := h.table_eq

lemma Inv.locks_release (h : Inv c t program s) {w : ω} {x : Txn ρ} (hx : x.status ≠ .running) (k : κ) (v : ω) :
    ((s.setTxn w x).release w).locks k = some v ↔
      (((s.setTxn w x).release w).txns v).status = .running ∧
        k ∈ (((s.setTxn w x).release w).txns v).done.map key := by
  have hk := h.locks_iff k v
  by_cases hv : v = w
  · subst hv
    simp only [release, setTxn, Function.update_self, hx, false_and, iff_false]
    by_cases hlock : s.locks k = some v
    · simp [hlock]
    · simp [hlock]
  · simp only [release, setTxn, Function.update_of_ne hv, ← hk]
    by_cases hlock : s.locks k = some w
    · simp [hlock, Ne.symm hv]
    · simp [hlock]

omit [DecidableEq κ] in
/-- The end of a transaction changes no program. -/
lemma program_end {s : LockState key ω} {w : ω} {x : Txn ρ} (hdone : x.done = (s.txns w).done)
    (hpending : x.pending = (s.txns w).pending) (v : ω) :
    (s.txns v).done ++ (s.txns v).pending =
      (((s.setTxn w x).release w).txns v).done ++ (((s.setTxn w x).release w).txns v).pending := by
  by_cases hv : v = w
  · subst hv
    simp only [release, setTxn, Function.update_self, hdone, hpending]
  · simp only [release, setTxn, Function.update_of_ne hv]

omit [DecidableEq κ] in
/-- The transactions that are still open after the end of one are the others, as they were. -/
lemma running_end {s : LockState key ω} {w v : ω} {x : Txn ρ} (hx : x.status ≠ .running)
    (hv : (((s.setTxn w x).release w).txns v).status = .running) :
    v ≠ w ∧ ((s.setTxn w x).release w).txns v = s.txns v := by
  by_cases hvw : v = w
  · subst hvw
    simp only [release, setTxn, Function.update_self] at hv
    exact absurd hv hx
  · exact ⟨hvw, Function.update_of_ne hvw _ _⟩

lemma Inv.abort (h : Inv c t program s) (w : ω) :
    Inv c t program ((s.setTxn w { s.txns w with status := .aborted }).release w) where
  program_eq v := by
    rw [h.program_eq v]
    apply program_end
    · rfl
    · rfl
  locks_iff := h.locks_release (by simp)
  written_eq v hv := by
    obtain ⟨-, htxn⟩ := running_end (by simp) hv
    rw [htxn] at hv ⊢
    exact h.written_eq v hv
  table_eq := h.table_eq

/-- A commit changes rows under keys of the transaction only, so the others, who own other
keys, have still written what they would write now. -/
lemma Inv.commit (h : Inv c t program s) {w : ω} (hstatus : (s.txns w).status = .running)
    (hpending : (s.txns w).pending = []) :
    Inv c t program (({ s with table := s.view w, commits := s.commits ++ [w] }.setTxn w
      { s.txns w with status := .committed }).release w) where
  program_eq v := by
    rw [h.program_eq v]
    apply program_end
    · rfl
    · rfl
  locks_iff := h.locks_release (by simp)
  written_eq v hv := by
    obtain ⟨hvw, htxn⟩ := running_end (by simp) hv
    rw [htxn] at hv ⊢
    have hwritten : (s.txns v).written = s.table.versions c (s.txns v).done := h.written_eq v hv
    have hothers : s.table.versions c (s.txns v).done = (s.view w).versions c (s.txns v).done := by
      apply KeyedTable.versions_congr
      intro k hk
      have hkw : k ∉ (s.txns w).written.map key := by
        rw [h.written_eq w hstatus, KeyedTable.map_key_versions]
        intro hmem
        have hv' := (h.locks_iff k v).mpr ⟨hv, hk⟩
        have hw' := (h.locks_iff k w).mpr ⟨hstatus, hmem⟩
        exact hvw (Option.some.inj (hv'.symm.trans hw'))
      exact (KeyedTable.lookup_putAll_of_notMem s.table _ k hkw).symm
    exact hwritten.trans hothers
  table_eq := by
    have hprogram := h.program_eq w
    rw [hpending, List.append_nil] at hprogram
    simp only [release, setTxn, view, List.foldl_append, List.foldl_cons, List.foldl_nil, ← h.table_eq, hprogram,
      h.written_eq w hstatus, KeyedTable.putAll_versions]

theorem Inv.step (h : Inv c t program s) {a : TxnAction ω} (ha : s.step c a = some s') : Inv c t program s' := by
  obtain ⟨w, r, rest, -, hstatus, hpending, hfree, rfl⟩ | ⟨w, -, hstatus, hpending, rfl⟩ | ⟨w, -, -, rfl⟩ :=
    step_cases c ha
  · exact h.upsertRow hstatus hpending hfree
  · exact h.commit hstatus hpending
  · exact h.abort w

theorem Inv.run (h : Inv c t program s) {actions : List (TxnAction ω)} (ha : s.run c actions = some s') :
    Inv c t program s' := by
  induction actions generalizing s with
  | nil =>
    cases ha
    exact h
  | cons a actions ih =>
    obtain ⟨s'', hs'', ha⟩ := Option.bind_eq_some_iff.mp ha
    exact ih (h.step hs'') ha

/-- Every interleaving has the effect of the committed transactions in commit order. -/
theorem table_eq_of_run {actions : List (TxnAction ω)} (h : run c actions (start t program) = some s) :
    s.table = s.commits.foldl (fun t w => t.upsertAll c (program w)) t :=
  ((inv_start t program).run h).table_eq

omit [DecidableEq ω] in
lemma lookup_foldl_upsertAll_of_notMem (t : KeyedTable key) (ws : List ω) (k : κ)
    (h : ∀ w ∈ ws, k ∉ (program w).map key) :
    (ws.foldl (fun t w => t.upsertAll c (program w)) t).lookup k = t.lookup k := by
  induction ws generalizing t with
  | nil => rfl
  | cons w ws ih =>
    rw [List.forall_mem_cons] at h
    rw [List.foldl_cons, ih _ h.2, KeyedTable.lookup_upsertAll_of_notMem c t _ _ h.1]

/-- What a committed transaction wrote under a key stays until one that commits later has
that key. -/
theorem lookup_of_run (hc : c.Overwrites) {actions : List (TxnAction ω)}
    (h : run c actions (start t program) = some s) {before after : List ω} {w : ω}
    (hcommits : s.commits = before ++ w :: after) (hnodup : ((program w).map key).Nodup) {r : ρ}
    (hr : r ∈ program w) (hafter : ∀ v ∈ after, key r ∉ (program v).map key) : s.table.lookup (key r) = some r := by
  rw [table_eq_of_run h, hcommits, List.foldl_append, List.foldl_cons,
    lookup_foldl_upsertAll_of_notMem _ after _ hafter, KeyedTable.lookup_upsertAll_of_mem c hc _ hnodup hr]

/-- The next row of the open transaction `w` has the key `k`, and another one owns it. -/
def WaitsOn (s : LockState key ω) (w : ω) (k : κ) (owner : ω) : Prop :=
  (s.txns w).status = .running ∧ (s.txns w).pending.head?.map key = some k ∧ s.locks k = some owner ∧ owner ≠ w

def WaitsFor (s : LockState key ω) (w owner : ω) : Prop := ∃ k, s.WaitsOn w k owner

variable (key program) in
/-- More than one transaction upserts the key. -/
def Contested (k : κ) : Prop := ∃ w w', w ≠ w' ∧ k ∈ (program w).map key ∧ k ∈ (program w').map key

variable (key program) in
/-- Some transaction upserts the contested key `k` before the contested key `l`. -/
def Precedes (k l : κ) : Prop :=
  Contested key program k ∧ Contested key program l ∧
    ∃ w, [k, l].Sublist ((program w).map key)

omit [DecidableEq ω] in
lemma mem_program_of_locks (h : Inv c t program s) {k : κ} {w : ω} (hk : s.locks k = some w) :
    k ∈ (program w).map key := by
  rw [h.program_eq w, List.map_append]
  exact List.mem_append_left _ ((h.locks_iff k w).mp hk).2

omit [DecidableEq ω] in
lemma contested_of_waitsOn (h : Inv c t program s) {w owner : ω} {k : κ} (hw : s.WaitsOn w k owner) :
    Contested key program k := by
  obtain ⟨-, hhead, hlock, hne⟩ := hw
  obtain ⟨r, hr, rfl⟩ := Option.map_eq_some_iff.mp hhead
  refine ⟨w, owner, hne.symm, ?_, mem_program_of_locks h hlock⟩
  rw [h.program_eq w, List.map_append]
  exact List.mem_append_right _ (List.mem_map_of_mem (List.mem_of_head? hr))

omit [DecidableEq ω] in
/-- A transaction that waits while another one waits for it took that key before. -/
lemma precedes_of_waitsOn (h : Inv c t program s) {u w v : ω} {k l : κ} (huw : s.WaitsOn u k w)
    (hwv : s.WaitsOn w l v) : Precedes key program k l := by
  refine ⟨contested_of_waitsOn h huw, contested_of_waitsOn h hwv, w, ?_⟩
  have hk : k ∈ (s.txns w).done.map key := ((h.locks_iff k w).mp huw.2.2.1).2
  obtain ⟨r, hr, rfl⟩ := Option.map_eq_some_iff.mp hwv.2.1
  have hl : key r ∈ (s.txns w).pending.map key := List.mem_map_of_mem (List.mem_of_head? hr)
  rw [h.program_eq w, List.map_append]
  exact (List.singleton_sublist.mpr hk).append (List.singleton_sublist.mpr hl)

omit [DecidableEq κ] [DecidableEq ω] in
lemma WaitsOn.key_unique {w v v' : ω} {k l : κ} (hk : s.WaitsOn w k v) (hl : s.WaitsOn w l v') : k = l :=
  Option.some.inj (hk.2.1.symm.trans hl.2.1)

omit [DecidableEq ω] in
lemma transGen_precedes (h : Inv c t program s) {u w : ω} (hchain : Relation.TransGen s.WaitsFor u w) {k l : κ}
    {u' v : ω} (hu : s.WaitsOn u k u') (hw : s.WaitsOn w l v) :
    Relation.TransGen (Precedes key program) k l := by
  induction hchain generalizing l v with
  | single huw =>
    obtain ⟨k', huw⟩ := huw
    rw [hu.key_unique huw]
    exact .single (precedes_of_waitsOn h huw hw)
  | tail _ hbw ih =>
    obtain ⟨m, hbw⟩ := hbw
    exact (ih hbw).tail (precedes_of_waitsOn h hbw hw)

omit [DecidableEq ω] in
theorem not_waitsFor_cycle (h : Inv c t program s)
    (hacyclic : ∀ k, ¬ Relation.TransGen (Precedes key program) k k) (w : ω) :
    ¬ Relation.TransGen s.WaitsFor w w := by
  intro hcycle
  obtain ⟨v, ⟨k, hk⟩, -⟩ := Relation.TransGen.head'_iff.mp hcycle
  exact hacyclic k (transGen_precedes h hcycle hk hk)

lemma exists_step_or_waitsFor {w : ω} (hw : (s.txns w).status = .running) :
    (∃ a s', (a = .row w ∨ a = .commit w) ∧ s.step c a = some s') ∨ ∃ v, s.WaitsFor w v := by
  cases hpending : (s.txns w).pending with
  | nil =>
    have hsome : (s.step c (.commit w)).isSome := by
      simp only [LockState.step, hw, hpending]
      rfl
    obtain ⟨s', hs'⟩ := Option.isSome_iff_exists.mp hsome
    exact .inl ⟨.commit w, s', .inr rfl, hs'⟩
  | cons r rest =>
    cases hlock : s.locks (key r) with
    | none =>
      refine .inl ⟨.row w, s.upsertRow c w r rest, .inl rfl, ?_⟩
      simp only [LockState.step, hw, hpending, hlock]
    | some v =>
      by_cases hv : v = w
      · refine .inl ⟨.row w, s.upsertRow c w r rest, .inl rfl, ?_⟩
        simp only [LockState.step, hw, hpending, hlock, hv, if_true]
      · refine .inr ⟨v, key r, hw, ?_, hlock, hv⟩
        rw [hpending]
        rfl

/-- Where nobody waits in a circle, somebody can go on. -/
theorem exists_step_of_acyclic [Finite ω] (h : Inv c t program s)
    (hacyclic : ∀ w, ¬ Relation.TransGen s.WaitsFor w w) {w : ω} (hw : (s.txns w).status = .running) :
    ∃ v a s', (s.txns v).status = .running ∧ (a = .row v ∨ a = .commit v) ∧ s.step c a = some s' := by
  have htrans : IsTrans ω (fun v w => Relation.TransGen s.WaitsFor w v) := ⟨fun _ _ _ h₁ h₂ => h₂.trans h₁⟩
  have hirrefl : Std.Irrefl (fun v w => Relation.TransGen s.WaitsFor w v) := ⟨hacyclic⟩
  have hwf : WellFounded (fun v w => Relation.TransGen s.WaitsFor w v) :=
    Finite.wellFounded_of_trans_of_irrefl _
  induction w using hwf.induction with
  | _ w ih =>
    rcases exists_step_or_waitsFor (c := c) hw with ⟨a, s', ha, hs'⟩ | ⟨v, hv⟩
    · exact ⟨w, a, s', hw, ha, hs'⟩
    · obtain ⟨k, hk⟩ := id hv
      exact ih v (.single hv) ((h.locks_iff k v).mp hk.2.2.1).1

end LockState

end Relational
