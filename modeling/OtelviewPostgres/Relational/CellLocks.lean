import OtelviewPostgres.Relational.Runs

/-!
# Transactions that work row by row

Any number of transactions work on one table, each by operations that concern the row under one key.
What a transaction does is settled when it begins, by the committed table of that moment. A key stays
locked from the first operation on it until the transaction ends. Whatever the interleaving, the
committed table is that of the committed transactions one after another.
-/

namespace Relational

variable {κ α β ω : Type*} [DecidableEq κ]

/-- What a statement does to the row under a key, where there is one. -/
structure CellOp (κ α : Type*) where
  key : κ
  act : Option α → Option α

namespace CellOp

def apply (t : κ → Option α) (op : CellOp κ α) : κ → Option α := Function.update t op.key (op.act (t op.key))

def applyAll (ops : List (CellOp κ α)) (t : κ → Option α) : κ → Option α := ops.foldl apply t

@[simp] lemma applyAll_nil (t : κ → Option α) : applyAll [] t = t := rfl

lemma applyAll_append_singleton (ops : List (CellOp κ α)) (op : CellOp κ α) (t : κ → Option α) :
    applyAll (ops ++ [op]) t = apply (applyAll ops t) op :=
  List.foldl_append

lemma apply_congr {t t' : κ → Option α} {k : κ} (h : t k = t' k) (op : CellOp κ α) : apply t op k = apply t' op k := by
  by_cases hk : k = op.key
  · subst hk
    rw [apply, apply, Function.update_self, Function.update_self, h]
  · rw [apply, apply, Function.update_of_ne hk, Function.update_of_ne hk, h]

/-- What becomes of a row depends on no other. -/
lemma applyAll_congr {t t' : κ → Option α} {k : κ} (h : t k = t' k) (ops : List (CellOp κ α)) :
    applyAll ops t k = applyAll ops t' k := by
  induction ops generalizing t t' with
  | nil => exact h
  | cons op ops ih => exact ih (apply_congr h op)

lemma applyAll_of_notMem {ops : List (CellOp κ α)} {k : κ} (h : k ∉ ops.map key) (t : κ → Option α) :
    applyAll ops t k = t k := by
  induction ops generalizing t with
  | nil => rfl
  | cons op ops ih =>
    rw [List.map_cons, List.mem_cons, not_or] at h
    have hrest : applyAll (op :: ops) t k = apply t op k := ih h.2 (apply t op)
    rw [hrest, apply, Function.update_of_ne h.1]

end CellOp

/-- The operations done, those still to do, and the rows as the transaction has left them. -/
inductive CellTxn (κ α : Type*) where
  | idle
  | running (done pending : List (CellOp κ α)) (written : κ → Option (Option α))
  | committed
  | aborted

/-- The committed table, who has locked which key, and what has been committed so far. -/
structure CellState (κ α ω : Type*) where
  table : κ → Option α
  locks : κ → Option ω := fun _ => none
  txns : ω → CellTxn κ α := fun _ => .idle
  commits : List (ω × List (CellOp κ α)) := []

inductive CellAction (ω β : Type*) where
  | begin (w : ω) (b : β)
  | op (w : ω)
  | commit (w : ω)
  | abort (w : ω)

namespace CellState

variable [DecidableEq ω]

def setTxn (s : CellState κ α ω) (w : ω) (x : CellTxn κ α) : CellState κ α ω :=
  { s with txns := Function.update s.txns w x }

def release (s : CellState κ α ω) (w : ω) : CellState κ α ω :=
  { s with locks := fun k => if s.locks k = some w then none else s.locks k }

/-- The row under a key as a transaction sees it. -/
def view (s : CellState κ α ω) (written : κ → Option (Option α)) (k : κ) : Option α := (written k).getD (s.table k)

variable (plan : ω → β → (κ → Option α) → Option (List (CellOp κ α)))

/-- One step, where it is possible. An operation waits for the lock that another transaction has. -/
def step (s : CellState κ α ω) : CellAction ω β → Option (CellState κ α ω)
  | .begin w b =>
    match s.txns w with
    | .idle => (plan w b s.table).map fun ops => s.setTxn w (.running [] ops fun _ => none)
    | _ => none
  | .op w =>
    match s.txns w with
    | .running done (op :: rest) written =>
      if s.locks op.key = none ∨ s.locks op.key = some w then
        some ({ s with locks := Function.update s.locks op.key (some w) }.setTxn w
          (.running (done ++ [op]) rest (Function.update written op.key (some (op.act (s.view written op.key))))))
      else none
    | _ => none
  | .commit w =>
    match s.txns w with
    | .running done [] written =>
      some (({ s with table := s.view written, commits := s.commits ++ [(w, done)] }.setTxn w .committed).release w)
    | _ => none
  | .abort w =>
    match s.txns w with
    | .running _ _ _ => some ((s.setTxn w .aborted).release w)
    | _ => none

variable {plan} {s s' : CellState κ α ω}

/-- Everything a step can do. -/
theorem step_cases {a : CellAction ω β} (h : s.step plan a = some s') :
    (∃ w b ops, a = .begin w b ∧ s.txns w = .idle ∧ plan w b s.table = some ops ∧
      s' = s.setTxn w (.running [] ops fun _ => none)) ∨
    (∃ w done op rest written, a = .op w ∧ s.txns w = .running done (op :: rest) written ∧
      (∀ v, s.locks op.key = some v → v = w) ∧
      s' = { s with locks := Function.update s.locks op.key (some w) }.setTxn w
        (.running (done ++ [op]) rest (Function.update written op.key (some (op.act (s.view written op.key)))))) ∨
    (∃ w done written, a = .commit w ∧ s.txns w = .running done [] written ∧
      s' = ({ s with table := s.view written, commits := s.commits ++ [(w, done)] }.setTxn w .committed).release w) ∨
    ∃ w done pending written, a = .abort w ∧ s.txns w = .running done pending written ∧
      s' = (s.setTxn w .aborted).release w := by
  cases a with
  | begin w b =>
    simp only [step] at h
    split at h
    · rename_i hidle
      obtain ⟨ops, hops, hs'⟩ := Option.map_eq_some_iff.mp h
      exact .inl ⟨w, b, ops, rfl, hidle, hops, hs'.symm⟩
    · cases h
  | op w =>
    simp only [step] at h
    split at h
    · rename_i done op rest written hrunning
      split at h
      · rename_i hfree
        refine .inr (.inl ⟨w, done, op, rest, written, rfl, hrunning, fun v hv => ?_, (Option.some.inj h).symm⟩)
        rw [hv] at hfree
        simpa using hfree
      · cases h
    · cases h
  | commit w =>
    simp only [step] at h
    split at h
    · rename_i done written hrunning
      exact .inr (.inr (.inl ⟨w, done, written, rfl, hrunning, (Option.some.inj h).symm⟩))
    · cases h
  | abort w =>
    simp only [step] at h
    split at h
    · rename_i done pending written hrunning
      exact .inr (.inr (.inr ⟨w, done, pending, written, rfl, hrunning, (Option.some.inj h).symm⟩))
    · cases h

/-- The table after transactions one after another. -/
def contents (t : κ → Option α) (commits : List (ω × List (CellOp κ α))) : κ → Option α :=
  commits.foldl (fun t c => CellOp.applyAll c.2 t) t

omit [DecidableEq ω] in
lemma contents_append_singleton (t : κ → Option α) (commits : List (ω × List (CellOp κ α)))
    (c : ω × List (CellOp κ α)) : contents t (commits ++ [c]) = CellOp.applyAll c.2 (contents t commits) :=
  List.foldl_append

variable (plan) in
/-- Each transaction does, at its turn, what it settled on at some moment before. -/
inductive Serial (t : κ → Option α) : List (ω × List (CellOp κ α)) → Prop
  | nil : Serial t []
  | snoc {commits before : List (ω × List (CellOp κ α))} {w : ω} {b : β} {ops : List (CellOp κ α)} :
    Serial t commits → before <+: commits → plan w b (contents t before) = some ops →
      Serial t (commits ++ [(w, ops)])

omit [DecidableEq ω] in
lemma Serial.of_prefix {t : κ → Option α} {commits before : List (ω × List (CellOp κ α))}
    (h : Serial plan t commits) (hbefore : before <+: commits) : Serial plan t before := by
  induction h with
  | nil =>
    rw [List.prefix_nil.mp hbefore]
    exact .nil
  | snoc h hpre hplan ih =>
    rcases List.prefix_concat_iff.mp hbefore with rfl | hbefore
    · exact .snoc h hpre hplan
    · exact ih hbefore

variable (plan) in
/-- Transactions own the keys they have worked on until they end, have left there what their
operations make of the committed rows, and do what they settled on. -/
structure Inv (t : κ → Option α) (s : CellState κ α ω) : Prop where
  locks_iff : ∀ k w, s.locks k = some w ↔
    ∃ done pending written, s.txns w = .running done pending written ∧ k ∈ done.map CellOp.key
  written_eq : ∀ w done pending written, s.txns w = .running done pending written →
    ∀ k, written k = if k ∈ done.map CellOp.key then some (CellOp.applyAll done s.table k) else none
  planned : ∀ w done pending written, s.txns w = .running done pending written →
    ∃ before b, before <+: s.commits ∧ plan w b (contents t before) = some (done ++ pending)
  serial : Serial plan t s.commits
  table_eq : s.table = contents t s.commits

variable {t : κ → Option α}

omit [DecidableEq ω] in
lemma inv_start (t : κ → Option α) : Inv plan t ({ table := t } : CellState κ α ω) where
  locks_iff k w := by
    constructor
    · intro h
      cases h
    · rintro ⟨done, pending, written, h, -⟩
      cases h
  written_eq w done pending written h := by cases h
  planned w done pending written h := by cases h
  serial := .nil
  table_eq := rfl

omit [DecidableEq ω] in
/-- The row that a transaction sees is what its operations make of the committed one. -/
lemma Inv.view_eq (h : Inv plan t s) {w : ω} {done pending : List (CellOp κ α)} {written : κ → Option (Option α)}
    (hw : s.txns w = .running done pending written) (k : κ) : s.view written k = CellOp.applyAll done s.table k := by
  rw [view, h.written_eq w done pending written hw k]
  split
  · rfl
  · rename_i hk
    exact (CellOp.applyAll_of_notMem hk s.table).symm

omit [DecidableEq κ] in
lemma txns_setTxn_of_ne {w v : ω} (h : v ≠ w) (x : CellTxn κ α) : (s.setTxn w x).txns v = s.txns v :=
  Function.update_of_ne h ..

omit [DecidableEq κ] in
lemma txns_setTxn_self (w : ω) (x : CellTxn κ α) : (s.setTxn w x).txns w = x := Function.update_self ..

lemma Inv.begin (h : Inv plan t s) {w : ω} {b : β} {ops : List (CellOp κ α)} (hidle : s.txns w = .idle)
    (hops : plan w b s.table = some ops) : Inv plan t (s.setTxn w (.running [] ops fun _ => none)) where
  locks_iff k v := by
    have hk := h.locks_iff k v
    by_cases hv : v = w
    · subst hv
      rw [txns_setTxn_self]
      rw [hidle] at hk
      constructor
      · intro hlock
        obtain ⟨done, pending, written, hcontra, -⟩ := hk.mp hlock
        cases hcontra
      · rintro ⟨done, pending, written, hrunning, hmem⟩
        cases hrunning
        cases hmem
    · rw [txns_setTxn_of_ne hv]
      exact hk
  written_eq v done pending written hrunning k := by
    by_cases hv : v = w
    · subst hv
      rw [txns_setTxn_self] at hrunning
      cases hrunning
      rfl
    · rw [txns_setTxn_of_ne hv] at hrunning
      exact h.written_eq v done pending written hrunning k
  planned v done pending written hrunning := by
    by_cases hv : v = w
    · subst hv
      rw [txns_setTxn_self] at hrunning
      cases hrunning
      exact ⟨s.commits, b, List.prefix_refl _, h.table_eq ▸ hops⟩
    · rw [txns_setTxn_of_ne hv] at hrunning
      exact h.planned v done pending written hrunning
  serial := h.serial
  table_eq := h.table_eq

lemma Inv.op (h : Inv plan t s) {w : ω} {done rest : List (CellOp κ α)} {op : CellOp κ α}
    {written : κ → Option (Option α)} (hrunning : s.txns w = .running done (op :: rest) written)
    (hfree : ∀ v, s.locks op.key = some v → v = w) :
    Inv plan t ({ s with locks := Function.update s.locks op.key (some w) }.setTxn w
      (.running (done ++ [op]) rest (Function.update written op.key (some (op.act (s.view written op.key)))))) where
  locks_iff k v := by
    have hk := h.locks_iff k v
    by_cases hv : v = w
    · subst hv
      rw [txns_setTxn_self]
      rw [hrunning] at hk
      by_cases hkey : k = op.key
      · subst hkey
        simp [setTxn]
      · simp only [setTxn, Function.update_of_ne hkey, hk, CellTxn.running.injEq]
        constructor
        · rintro ⟨_, _, _, ⟨rfl, -, -⟩, hmem⟩
          exact ⟨_, _, _, ⟨rfl, rfl, rfl⟩, by simpa [hkey] using hmem⟩
        · rintro ⟨_, _, _, ⟨rfl, -, -⟩, hmem⟩
          exact ⟨_, _, _, ⟨rfl, rfl, rfl⟩, by simpa [hkey] using hmem⟩
    · rw [txns_setTxn_of_ne hv]
      by_cases hkey : k = op.key
      · subst hkey
        -- `v` cannot have worked on the key, for nobody but `w` has locked it
        have hnot : s.locks op.key ≠ some v := fun hlock => hv (hfree v hlock)
        rw [Ne, hk] at hnot
        simp only [setTxn, Function.update_self, Option.some.injEq, Ne.symm hv, false_iff]
        exact hnot
      · simp only [setTxn, Function.update_of_ne hkey]
        exact hk
  written_eq v done' pending' written' hrunning' k := by
    by_cases hv : v = w
    · subst hv
      rw [txns_setTxn_self] at hrunning'
      cases hrunning'
      have hview := h.view_eq hrunning op.key
      have hwritten := h.written_eq v done (op :: rest) written hrunning k
      rw [CellOp.applyAll_append_singleton]
      by_cases hkey : k = op.key
      · subst hkey
        rw [Function.update_self, hview]
        simp [CellOp.apply, setTxn]
      · rw [Function.update_of_ne hkey, hwritten]
        simp [CellOp.apply, hkey, setTxn]
    · rw [txns_setTxn_of_ne hv] at hrunning'
      exact h.written_eq v done' pending' written' hrunning' k
  planned v done' pending' written' hrunning' := by
    by_cases hv : v = w
    · subst hv
      rw [txns_setTxn_self] at hrunning'
      cases hrunning'
      rw [List.append_assoc, List.singleton_append]
      exact h.planned v done (op :: rest) written hrunning
    · rw [txns_setTxn_of_ne hv] at hrunning'
      exact h.planned v done' pending' written' hrunning'
  serial := h.serial
  table_eq := h.table_eq

/-- Who has locked which key, after the end of a transaction. -/
lemma Inv.locks_end (h : Inv plan t s) (w : ω) {x : CellTxn κ α}
    (hx : ∀ done pending written, x ≠ .running done pending written) (k : κ) (v : ω) :
    ((s.setTxn w x).release w).locks k = some v ↔
      ∃ done pending written, ((s.setTxn w x).release w).txns v = .running done pending written ∧
        k ∈ done.map CellOp.key := by
  have hk := h.locks_iff k v
  by_cases hv : v = w
  · subst hv
    have hself : ((s.setTxn v x).release v).txns v = x := txns_setTxn_self ..
    rw [hself]
    constructor
    · intro hlock
      by_cases hheld : s.locks k = some v
      · simp [release, setTxn, hheld] at hlock
      · simp [release, setTxn, hheld] at hlock
    · rintro ⟨done, pending, written, hcontra, -⟩
      exact absurd hcontra (hx done pending written)
  · have hother : ((s.setTxn w x).release w).txns v = s.txns v := txns_setTxn_of_ne hv ..
    rw [hother, ← hk]
    by_cases hheld : s.locks k = some w
    · simp [release, setTxn, hheld, Ne.symm hv]
    · simp [release, setTxn, hheld]

omit [DecidableEq κ] in
/-- A transaction that is open after the end of one is another one, and as it was. -/
lemma running_end {w v : ω} {x : CellTxn κ α} (hx : ∀ done pending written, x ≠ .running done pending written)
    {done pending : List (CellOp κ α)} {written : κ → Option (Option α)}
    (h : ((s.setTxn w x).release w).txns v = .running done pending written) :
    v ≠ w ∧ s.txns v = .running done pending written := by
  by_cases hv : v = w
  · subst hv
    have hself : ((s.setTxn v x).release v).txns v = x := Function.update_self ..
    exact absurd (hself.symm.trans h) (hx done pending written)
  · have hother : ((s.setTxn w x).release w).txns v = s.txns v := Function.update_of_ne hv ..
    exact ⟨hv, hother.symm.trans h⟩

lemma Inv.abort (h : Inv plan t s) (w : ω) : Inv plan t ((s.setTxn w .aborted).release w) where
  locks_iff := h.locks_end w fun _ _ _ hcontra => by cases hcontra
  written_eq v done pending written hrunning k := by
    obtain ⟨-, hrunning⟩ := running_end (fun _ _ _ hcontra => by cases hcontra) hrunning
    exact h.written_eq v done pending written hrunning k
  planned v done pending written hrunning := by
    obtain ⟨-, hrunning⟩ := running_end (fun _ _ _ hcontra => by cases hcontra) hrunning
    exact h.planned v done pending written hrunning
  serial := h.serial
  table_eq := h.table_eq

/-- A commit changes rows under keys of its transaction only. The others own other keys, and have left
there what they would leave there now. -/
lemma Inv.commit (h : Inv plan t s) {w : ω} {done : List (CellOp κ α)} {written : κ → Option (Option α)}
    (hrunning : s.txns w = .running done [] written) :
    Inv plan t (({ s with table := s.view written, commits := s.commits ++ [(w, done)] }.setTxn w .committed).release
      w) where
  locks_iff := h.locks_end w fun _ _ _ hcontra => by cases hcontra
  written_eq v done' pending' written' hrunning' k := by
    obtain ⟨hv, hrunning'⟩ := running_end (fun _ _ _ hcontra => by cases hcontra) hrunning'
    rw [h.written_eq v done' pending' written' hrunning' k]
    split
    · rename_i hk
      have hlock := (h.locks_iff k v).mpr ⟨_, _, _, hrunning', hk⟩
      have hkw : k ∉ done.map CellOp.key := fun hmem =>
        hv (Option.some.inj (hlock.symm.trans ((h.locks_iff k w).mpr ⟨_, _, _, hrunning, hmem⟩)))
      congr 1
      apply CellOp.applyAll_congr
      exact ((h.view_eq hrunning k).trans (CellOp.applyAll_of_notMem hkw s.table)).symm
    · rfl
  planned v done' pending' written' hrunning' := by
    obtain ⟨-, hrunning'⟩ := running_end (fun _ _ _ hcontra => by cases hcontra) hrunning'
    obtain ⟨before, b, hbefore, hplan⟩ := h.planned v done' pending' written' hrunning'
    exact ⟨before, b, hbefore.trans (List.prefix_append _ _), hplan⟩
  serial := by
    obtain ⟨before, b, hbefore, hplan⟩ := h.planned w done [] written hrunning
    rw [List.append_nil] at hplan
    exact .snoc h.serial hbefore hplan
  table_eq := by
    change s.view written = contents t (s.commits ++ [(w, done)])
    rw [contents_append_singleton, ← h.table_eq]
    funext k
    exact h.view_eq hrunning k

theorem Inv.step (h : Inv plan t s) {a : CellAction ω β} (ha : s.step plan a = some s') : Inv plan t s' := by
  rcases step_cases ha with ⟨w, b, ops, -, hidle, hops, rfl⟩ | ⟨w, done, op, rest, written, -, hrunning, hfree, rfl⟩ |
    ⟨w, done, written, -, hrunning, rfl⟩ | ⟨w, -, -, -, -, -, rfl⟩
  · exact h.begin hidle hops
  · exact h.op hrunning hfree
  · exact h.commit hrunning
  · exact h.abort w

/-- In every interleaving the committed table is that of a serial history. -/
theorem serial_of_run {actions : List (CellAction ω β)}
    (hrun : runSteps (step plan) actions ({ table := t } : CellState κ α ω) = some s) :
    Serial plan t s.commits ∧ s.table = contents t s.commits := by
  have hinv : Inv plan t s := invariant_of_run (fun _ _ _ h ha => h.step ha) (inv_start t) hrun
  exact ⟨hinv.serial, hinv.table_eq⟩

end CellState

end Relational
