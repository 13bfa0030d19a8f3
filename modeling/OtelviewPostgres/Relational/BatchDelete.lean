import OtelviewPostgres.Relational.KeyedTable

/-!
# Deleting in batches

A sweep that deletes the rows satisfying a condition, a bounded number in each statement,
until a statement deletes fewer rows than the bound. Which rows a statement takes is up to
the database, and each statement is a transaction of its own: what a failing sweep has
deleted stays deleted.
-/

namespace Relational

variable {ρ κ ε : Type*}

/-- The rows the statements of a sweep take: in each, as many of the candidate keys as the
bound allows, and otherwise arbitrary. -/
structure BatchChoice (κ : Type*) (limit : ℕ) where
  pick : ℕ → List κ → List κ
  pick_subperm : ∀ i candidates, (pick i candidates).Subperm candidates
  length_pick : ∀ i candidates, (pick i candidates).length = min limit candidates.length

/-- The choice of the first candidates. -/
def BatchChoice.first (κ : Type*) (limit : ℕ) : BatchChoice κ limit where
  pick _ candidates := candidates.take limit
  pick_subperm _ candidates := (List.take_sublist limit candidates).subperm
  length_pick _ _ := List.length_take

namespace KeyedTable

variable {key : ρ → κ}

def delete (t : KeyedTable key) (p : ρ → Bool) : KeyedTable key where
  rows := t.rows.filter (fun r => !p r)
  nodup_keys := t.nodup_keys.sublist (List.filter_sublist.map key)

@[simp] lemma mem_delete (t : KeyedTable key) (p : ρ → Bool) (r : ρ) :
    r ∈ (t.delete p).rows ↔ r ∈ t.rows ∧ p r = false := by
  simp [delete]

variable [DecidableEq κ] {limit : ℕ}

/-- The loop of a sweep, with the number of the next statement and the number of rows
deleted so far. It has no result where the fuel does not suffice. -/
def drain (faults : ℕ → Option ε) (choice : BatchChoice κ limit) (expired : ρ → Bool) :
    ℕ → ℕ → ℕ → KeyedTable key → Option (Except ε ℕ × KeyedTable key)
  | 0, _, _, _ => none
  | fuel + 1, i, deleted, t =>
    match faults i with
    | some e => some (.error e, t)
    | none =>
      let victims := choice.pick i ((t.rows.filter expired).map key)
      let t' := t.delete (fun r => key r ∈ victims)
      if victims.length < limit then some (.ok (deleted + victims.length), t')
      else drain faults choice expired fuel (i + 1) (deleted + victims.length) t'

/-- The rows one statement takes. -/
def victims (choice : BatchChoice κ limit) (expired : ρ → Bool) (i : ℕ) (t : KeyedTable key) : List κ :=
  choice.pick i ((t.rows.filter expired).map key)

section Batch

variable {choice : BatchChoice κ limit} {expired : ρ → Bool} {i : ℕ} {t : KeyedTable key} {r : ρ}

omit [DecidableEq κ] in
lemma nodup_victims : (victims choice expired i t).Nodup := by
  have hkeys : ((t.rows.filter expired).map key).Nodup := t.nodup_keys.sublist (List.filter_sublist.map key)
  obtain ⟨l, hperm, hsub⟩ := choice.pick_subperm i ((t.rows.filter expired).map key)
  exact hperm.nodup_iff.mp (hkeys.sublist hsub)

omit [DecidableEq κ] in
lemma expired_of_mem_victims (hr : r ∈ t.rows) (h : key r ∈ victims choice expired i t) : expired r = true := by
  obtain ⟨x, hx, hxr⟩ := List.mem_map.mp ((choice.pick_subperm i _).subset h)
  obtain ⟨hxt, hxe⟩ := List.mem_filter.mp hx
  rwa [t.eq_of_key_eq hr hxt hxr.symm]

lemma mem_delete_victims (hr : r ∈ t.rows) (hlive : expired r = false) :
    r ∈ (t.delete fun r => key r ∈ victims choice expired i t).rows := by
  rw [mem_delete, decide_eq_false_iff_not]
  refine ⟨hr, fun hmem => ?_⟩
  rw [expired_of_mem_victims hr hmem] at hlive
  cases hlive

variable (choice expired i t) in
/-- Each row that is taken is deleted, and no other. -/
lemma countP_delete_victims :
    (t.delete fun r => key r ∈ victims choice expired i t).rows.countP expired +
      (victims choice expired i t).length = t.rows.countP expired := by
  have hperm : ((t.rows.filter fun r => key r ∈ victims choice expired i t).map key).Perm
      (victims choice expired i t) := by
    rw [List.perm_ext_iff_of_nodup (t.nodup_keys.sublist (List.filter_sublist.map key)) nodup_victims]
    intro k
    rw [List.mem_map]
    constructor
    · rintro ⟨r, hr, rfl⟩
      exact of_decide_eq_true (List.mem_filter.mp hr).2
    · intro hk
      obtain ⟨r, hr, rfl⟩ := List.mem_map.mp ((choice.pick_subperm i _).subset hk)
      exact ⟨r, List.mem_filter.mpr ⟨(List.mem_filter.mp hr).1, decide_eq_true hk⟩, rfl⟩
  have htaken : t.rows.filter (fun r => key r ∈ victims choice expired i t) =
      (t.rows.filter expired).filter fun r => key r ∈ victims choice expired i t := by
    rw [List.filter_filter]
    apply List.filter_congr
    intro r hr
    by_cases hmem : key r ∈ victims choice expired i t
    · simp [hmem, expired_of_mem_victims hr hmem]
    · simp [hmem]
  have hleft : (t.delete fun r => key r ∈ victims choice expired i t).rows.filter expired =
      (t.rows.filter expired).filter fun r => !decide (key r ∈ victims choice expired i t) := by
    rw [delete, List.filter_filter, List.filter_filter]
    apply List.filter_congr
    intro r _
    rw [Bool.and_comm]
  have hsplit := List.length_eq_length_filter_add (l := t.rows.filter expired)
    (fun r => decide (key r ∈ victims choice expired i t))
  rw [List.countP_eq_length_filter, List.countP_eq_length_filter, hleft, ← hperm.length_eq, List.length_map, htaken]
  omega

/-- What is left to delete after a statement is what was expired before it. -/
lemma delete_delete_victims :
    (t.delete fun r => key r ∈ victims choice expired i t).delete expired = t.delete expired := by
  unfold delete
  congr 1
  rw [List.filter_filter]
  apply List.filter_congr
  intro r hr
  by_cases hmem : key r ∈ victims choice expired i t
  · simp [expired_of_mem_victims hr hmem]
  · simp [hmem]

/-- A statement that takes fewer rows than the bound takes all that are expired. -/
lemma delete_victims_of_lt (hshort : (victims choice expired i t).length < limit) :
    (t.delete fun r => key r ∈ victims choice expired i t) = t.delete expired := by
  have hlen := choice.length_pick i ((t.rows.filter expired).map key)
  have hall : (victims choice expired i t).Perm ((t.rows.filter expired).map key) := by
    refine (choice.pick_subperm i _).perm_of_length_le ?_
    unfold victims at hshort
    omega
  unfold delete
  congr 1
  apply List.filter_congr
  intro r hr
  congr 1
  rw [Bool.eq_iff_iff, decide_eq_true_iff]
  constructor
  · exact expired_of_mem_victims hr
  · intro hexpired
    exact hall.mem_iff.mpr (List.mem_map_of_mem (List.mem_filter.mpr ⟨hr, hexpired⟩))

end Batch

/-- A sweep adds no row, whether it fails or not. -/
theorem mem_of_mem_drain {faults : ℕ → Option ε} {choice : BatchChoice κ limit} {expired : ρ → Bool}
    {fuel i deleted : ℕ} {t t' : KeyedTable key} {res : Except ε ℕ}
    (h : drain faults choice expired fuel i deleted t = some (res, t')) : ∀ r ∈ t'.rows, r ∈ t.rows := by
  induction fuel generalizing i deleted t with
  | zero => cases h
  | succ fuel ih =>
    unfold drain at h
    cases hf : faults i with
    | some e =>
      rw [hf] at h
      cases h
      exact fun r hr => hr
    | none =>
      simp only [hf] at h
      split at h
      · cases h
        exact fun r hr => ((t.mem_delete _ r).mp hr).1
      · exact fun r hr => ((t.mem_delete _ r).mp (ih h r hr)).1

/-- A sweep, failing or not, deletes only expired rows. -/
theorem mem_drain_of_live {faults : ℕ → Option ε} {choice : BatchChoice κ limit} {expired : ρ → Bool}
    {fuel i deleted : ℕ} {t t' : KeyedTable key} {res : Except ε ℕ}
    (h : drain faults choice expired fuel i deleted t = some (res, t')) {r : ρ} (hr : r ∈ t.rows)
    (hlive : expired r = false) : r ∈ t'.rows := by
  induction fuel generalizing i deleted t with
  | zero => cases h
  | succ fuel ih =>
    unfold drain at h
    cases hf : faults i with
    | some e =>
      rw [hf] at h
      cases h
      exact hr
    | none =>
      simp only [hf] at h
      split at h
      · cases h
        exact mem_delete_victims hr hlive
      · exact ih h (mem_delete_victims hr hlive)

/-- A statement leaves rows by their own, all that are not expired among them. -/
lemma rows_delete_victims (choice : BatchChoice κ limit) (expired : ρ → Bool) (i : ℕ) (t : KeyedTable key) :
    (t.delete fun r => key r ∈ victims choice expired i t).rows =
      t.rows.filter fun r => !(expired r && decide (key r ∈ victims choice expired i t)) := by
  unfold delete
  apply List.filter_congr
  intro r hr
  by_cases hmem : key r ∈ victims choice expired i t
  · simp [hmem, expired_of_mem_victims hr hmem]
  · simp [hmem]

/-- A sweep, failing or not, leaves rows by their own in the order in which they were, all that are
not expired among them. -/
theorem exists_filter_drain {faults : ℕ → Option ε} {choice : BatchChoice κ limit} {expired : ρ → Bool}
    {fuel i deleted : ℕ} {t t' : KeyedTable key} {res : Except ε ℕ}
    (h : drain faults choice expired fuel i deleted t = some (res, t')) :
    ∃ left : ρ → Bool, t'.rows = t.rows.filter left ∧ ∀ r, expired r = false → left r = true := by
  induction fuel generalizing i deleted t with
  | zero => cases h
  | succ fuel ih =>
    unfold drain at h
    cases hf : faults i with
    | some e =>
      rw [hf] at h
      cases h
      exact ⟨fun _ => true, (List.filter_eq_self.mpr fun _ _ => rfl).symm, fun _ _ => rfl⟩
    | none =>
      simp only [hf] at h
      have hone := rows_delete_victims choice expired i t
      unfold victims at hone
      split at h
      · cases h
        exact ⟨_, hone, fun r hr => by simp [hr]⟩
      · obtain ⟨left, hrows, hleft⟩ := ih h
        rw [hone, List.filter_filter] at hrows
        exact ⟨_, hrows, fun r hr => by simp [hr, hleft r hr]⟩

/-- A sweep that does not fail deletes every expired row, and counts them. -/
theorem drain_eq_ok {faults : ℕ → Option ε} {choice : BatchChoice κ limit} {expired : ρ → Bool}
    {fuel i deleted n : ℕ} {t t' : KeyedTable key}
    (h : drain faults choice expired fuel i deleted t = some (.ok n, t')) :
    t' = t.delete expired ∧ n = deleted + t.rows.countP expired := by
  induction fuel generalizing i deleted t with
  | zero => cases h
  | succ fuel ih =>
    unfold drain at h
    cases hf : faults i with
    | some e =>
      rw [hf] at h
      cases h
    | none =>
      simp only [hf] at h
      have hcount := countP_delete_victims choice expired i t
      unfold victims at hcount
      split at h
      · rename_i hshort
        cases h
        have hdelete := delete_victims_of_lt hshort
        have hnone : (t.delete expired).rows.countP expired = 0 := by
          rw [List.countP_eq_zero]
          intro r hr
          simp [((t.mem_delete expired r).mp hr).2]
        unfold victims at hdelete
        rw [hdelete, hnone] at hcount
        exact ⟨hdelete, by omega⟩
      · obtain ⟨rfl, rfl⟩ := ih h
        exact ⟨delete_delete_victims, by omega⟩

/-- Without a failing statement a sweep does not fail. -/
lemma drain_ne_error {choice : BatchChoice κ limit} {expired : ρ → Bool} {fuel i deleted : ℕ}
    {t t' : KeyedTable key} {e : ε} :
    drain (fun _ => none) choice expired fuel i deleted t ≠ some (.error e, t') := by
  induction fuel generalizing i deleted t with
  | zero => exact nofun
  | succ fuel ih =>
    unfold drain
    simp only
    split
    · exact nofun
    · exact ih

/-- Every sweep ends: its statements are at most as many as the expired rows, and one. -/
theorem isSome_drain {faults : ℕ → Option ε} {choice : BatchChoice κ limit} {expired : ρ → Bool}
    (hlimit : 0 < limit) {fuel : ℕ} (i deleted : ℕ) (t : KeyedTable key) (hfuel : t.rows.countP expired < fuel) :
    (drain faults choice expired fuel i deleted t).isSome := by
  induction fuel generalizing i deleted t with
  | zero => omega
  | succ fuel ih =>
    unfold drain
    cases faults i with
    | some e => rfl
    | none =>
      simp only
      split
      · rfl
      · rename_i hfull
        have hcount := countP_delete_victims choice expired i t
        unfold victims at hcount
        exact ih _ _ _ (by omega)

end KeyedTable

end Relational
