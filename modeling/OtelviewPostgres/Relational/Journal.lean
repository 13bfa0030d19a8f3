import OtelviewPostgres.Relational.IdentityTable

/-!
# Tables and their journals

A journal lists what was done to a table, the earliest first: the rows each step commits, and
the rows it deletes or may delete. What the table holds follows from the journal alone, but
for the rows of which the journal does not say whether they were deleted.
-/

namespace Relational

variable {ρ κ : Type*}

/-- What one step commits to a table, after what it deletes of the rows that were there. -/
structure JournalEntry (ρ : Type*) where
  committed : List ρ := []
  /-- The rows that it may delete. -/
  mayDelete : ρ → Bool := fun _ => false
  /-- The rows that it deletes for certain. -/
  deletes : ρ → Bool := fun _ => false

/-- A step that deletes nothing. -/
def JournalEntry.commit (rows : List ρ) : JournalEntry ρ where
  committed := rows

section Keyed

variable [DecidableEq κ] (key : ρ → κ)

/-- The last of the rows under a key. -/
def lastOf (k : κ) (rows : List ρ) : Option ρ := rows.reverse.find? fun r => key r = k

/-- The last row that was committed under a key, and what came after it. -/
def lastVersion (k : κ) : List (JournalEntry ρ) → Option (ρ × List (JournalEntry ρ))
  | [] => none
  | e :: es => (lastVersion k es).or ((lastOf key k e.committed).map fun r => (r, es))

lemma lastVersion_append_singleton (k : κ) (es : List (JournalEntry ρ)) (e : JournalEntry ρ) :
    lastVersion key k (es ++ [e]) = ((lastOf key k e.committed).map fun r => (r, [])).or
      ((lastVersion key k es).map fun v => (v.1, v.2 ++ [e])) := by
  induction es with
  | nil =>
    simp only [List.nil_append, lastVersion, Option.none_or, Option.map_none, Option.or_none]
  | cons e' es ih =>
    rw [List.cons_append, lastVersion, ih, lastVersion]
    cases lastOf key k e.committed with
    | some r => rfl
    | none =>
      cases lastVersion key k es with
      | some v => rfl
      | none => cases lastOf key k e'.committed <;> rfl

variable {key}

/-- One step takes the table to the other by what the entry says. -/
structure JournalEntry.Changes (e : JournalEntry ρ) (t t' : KeyedTable key) : Prop where
  committed : ∀ k r, lastOf key k e.committed = some r → t'.lookup k = some r
  kept : ∀ k, lastOf key k e.committed = none →
    t'.lookup k = t.lookup k ∨ t'.lookup k = none ∧ ∃ r, t.lookup k = some r ∧ e.mayDelete r = true
  deleted : ∀ k r, lastOf key k e.committed = none → t.lookup k = some r → e.deletes r = true → t'.lookup k = none

/-- A row that overwrites is there afterwards, and all other keys keep theirs. -/
lemma JournalEntry.changes_upsertAll (c : ConflictUpdate key) (hc : c.Overwrites) (t : KeyedTable key)
    (rows : List ρ) : (JournalEntry.commit rows).Changes t (t.upsertAll c rows) where
  committed k r hr := by
    rw [KeyedTable.lookup_upsertAll c hc]
    unfold lastOf JournalEntry.commit at hr
    rw [hr, Option.some_or]
  kept k hk := by
    left
    rw [KeyedTable.lookup_upsertAll c hc]
    unfold lastOf JournalEntry.commit at hk
    rw [hk, Option.none_or]
  deleted k r _ _ hdeletes := by cases hdeletes

lemma JournalEntry.Changes.congr {e : JournalEntry ρ} {t t' t'' : KeyedTable key} (h : e.Changes t t')
    (heq : ∀ k, t''.lookup k = t'.lookup k) : e.Changes t t'' where
  committed k r hr := by
    rw [heq]
    exact h.committed k r hr
  kept k hk := by
    rw [heq]
    exact h.kept k hk
  deleted k r hk hr hdeletes := by
    rw [heq]
    exact h.deleted k r hk hr hdeletes

/-- A step that commits nothing, and leaves what it does not delete. -/
lemma JournalEntry.changes_of_filter {e : JournalEntry ρ} {t t' : KeyedTable key} {left : ρ → Bool}
    (hcommitted : e.committed = []) (hrows : t'.rows = t.rows.filter left)
    (hmay : ∀ r, e.mayDelete r = false → left r = true) (hdeletes : ∀ r, e.deletes r = true → left r = false) :
    e.Changes t t' := by
  have hfound : ∀ k r, t'.lookup k = some r ↔ t.lookup k = some r ∧ left r = true := by
    intro k r
    rw [KeyedTable.lookup_eq_some_iff, KeyedTable.lookup_eq_some_iff, hrows, List.mem_filter, and_right_comm]
  have hnone : ∀ k r, t.lookup k = some r → left r = false → t'.lookup k = none := by
    intro k r hr hleft
    rw [Option.eq_none_iff_forall_ne_some]
    intro r' hr'
    obtain ⟨hold, hleft'⟩ := (hfound k r').mp hr'
    rw [Option.some.inj (hold.symm.trans hr), hleft] at hleft'
    cases hleft'
  constructor
  · intro k r hr
    rw [hcommitted] at hr
    cases hr
  · intro k _
    cases hk : t.lookup k with
    | none =>
      left
      rw [Option.eq_none_iff_forall_ne_some]
      intro r hr
      rw [((hfound k r).mp hr).1] at hk
      cases hk
    | some r =>
      cases hleft : left r with
      | true => exact .inl ((hfound k r).mpr ⟨hk, hleft⟩)
      | false =>
        refine .inr ⟨hnone k r hk hleft, r, rfl, ?_⟩
        by_contra hmay'
        rw [hmay r (Bool.eq_false_of_not_eq_true hmay')] at hleft
        cases hleft
  · intro k r _ hr hdel
    exact hnone k r hr (hdeletes r hdel)

/-- The table that a journal leads to from the empty one. -/
inductive Journaled : List (JournalEntry ρ) → KeyedTable key → Prop
  | empty : Journaled [] ∅
  | step {es : List (JournalEntry ρ)} {e : JournalEntry ρ} {t t' : KeyedTable key} :
    Journaled es t → e.Changes t t' → Journaled (es ++ [e]) t'

/-- A table is its own journal. -/
lemma journaled_commit (t : KeyedTable key) : Journaled [.commit t.rows] t := by
  have hlast : ∀ k, lastOf key k t.rows = t.lookup k := by
    intro k
    have hnodup : (t.rows.reverse.map key).Nodup := by
      rw [List.map_reverse]
      exact List.nodup_reverse.mpr t.nodup_keys
    apply Option.ext
    intro r
    have hreverse : lastOf key k t.rows = some r ↔ r ∈ t.rows.reverse ∧ key r = k :=
      KeyedTable.lookup_eq_some_iff ⟨t.rows.reverse, hnodup⟩ k r
    rw [hreverse, KeyedTable.lookup_eq_some_iff, List.mem_reverse]
  have hchange : (JournalEntry.commit t.rows).Changes (∅ : KeyedTable key) t := by
    refine ⟨fun k r hr => (hlast k).symm.trans hr, fun k hk => .inl ?_, fun k r _ _ hdeletes => by cases hdeletes⟩
    rw [← hlast k, KeyedTable.lookup_empty]
    exact hk
  exact Journaled.step .empty hchange

/-- What a journal says a lookup finds: the last version, unless something deleted it. -/
structure VersionFound (r : ρ) (later : List (JournalEntry ρ)) (found : Option ρ) : Prop where
  eq_or : found = some r ∨ found = none
  mayDelete : found = none → ∃ e ∈ later, e.mayDelete r = true
  deletes : found = some r → ∀ e ∈ later, e.deletes r = false

/-- Under every key there is the last version or, where something may have deleted it, nothing. -/
theorem Journaled.lookup {es : List (JournalEntry ρ)} {t : KeyedTable key} (h : Journaled es t) (k : κ) :
    (lastVersion key k es = none → t.lookup k = none) ∧
      ∀ r later, lastVersion key k es = some (r, later) → VersionFound r later (t.lookup k) := by
  induction h with
  | empty =>
    refine ⟨fun _ => rfl, fun r later hv => ?_⟩
    cases hv
  | @step es e t t' _ hchange ih =>
    rw [lastVersion_append_singleton]
    cases hlast : lastOf key k e.committed with
    | some r =>
      rw [Option.map_some, Option.some_or]
      have hfound := hchange.committed k r hlast
      refine ⟨(fun hv => by cases hv), fun r' later hv => ?_⟩
      obtain ⟨rfl, rfl⟩ := Prod.mk.inj (Option.some.inj hv)
      rw [hfound]
      exact ⟨.inl rfl, (fun hnone => by cases hnone), fun _ _ he => absurd he List.not_mem_nil⟩
    | none =>
      rw [Option.map_none, Option.none_or]
      cases hversion : lastVersion key k es with
      | none =>
        refine ⟨fun _ => ?_, (fun r later hv => by cases hv)⟩
        have hnone := ih.1 hversion
        rcases hchange.kept k hlast with heq | ⟨heq, -⟩
        · rw [heq, hnone]
        · exact heq
      | some v =>
        refine ⟨(fun hv => by cases hv), fun r later hv => ?_⟩
        obtain ⟨rfl, rfl⟩ := Prod.mk.inj (Option.some.inj hv)
        have hbefore := ih.2 v.1 v.2 hversion
        rcases hchange.kept k hlast with heq | ⟨heq, r, hr, hmay⟩
        · rw [heq]
          refine ⟨hbefore.eq_or, fun hnone => ?_, fun hsome e' he' => ?_⟩
          · obtain ⟨e', he', hmay⟩ := hbefore.mayDelete hnone
            exact ⟨e', List.mem_append_left _ he', hmay⟩
          · rcases List.mem_append.mp he' with hold | hnew
            · exact hbefore.deletes hsome e' hold
            · rw [List.mem_singleton.mp hnew]
              by_contra hdeletes
              have hgone := hchange.deleted k v.1 hlast hsome (Bool.eq_true_of_not_eq_false hdeletes)
              rw [heq, hsome] at hgone
              cases hgone
        · have hrv : r = v.1 := by
            rcases hbefore.eq_or with hsome | hnone
            · exact Option.some.inj (hr.symm.trans hsome)
            · rw [hnone] at hr
              cases hr
          rw [heq]
          refine ⟨.inr rfl, fun _ => ⟨e, ?_, hrv ▸ hmay⟩, (fun hsome => by cases hsome)⟩
          exact List.mem_append_right _ (List.mem_singleton_self e)

end Keyed

/-- The committed rows that no later step deletes. -/
def surviving (deletes : JournalEntry ρ → ρ → Bool) : List (JournalEntry ρ) → List ρ
  | [] => []
  | e :: es => (e.committed.filter fun r => es.all fun e' => !deletes e' r) ++ surviving deletes es

lemma surviving_append_singleton (deletes : JournalEntry ρ → ρ → Bool) (es : List (JournalEntry ρ))
    (e : JournalEntry ρ) :
    surviving deletes (es ++ [e]) = (surviving deletes es).filter (fun r => !deletes e r) ++ e.committed := by
  induction es with
  | nil =>
    have hall : e.committed.filter (fun r => ([] : List (JournalEntry ρ)).all fun e' => !deletes e' r) = e.committed :=
      List.filter_eq_self.mpr fun _ _ => rfl
    rw [List.nil_append]
    simp only [surviving, hall, List.filter_nil, List.append_nil, List.nil_append]
  | cons e' es ih =>
    have hfilter : e'.committed.filter (fun r => (es ++ [e]).all fun e'' => !deletes e'' r) =
        (e'.committed.filter fun r => es.all fun e'' => !deletes e'' r).filter fun r => !deletes e r := by
      rw [List.filter_filter]
      apply List.filter_congr
      intro r _
      rw [List.all_append, List.all_cons, List.all_nil, Bool.and_true, Bool.and_comm]
    rw [List.cons_append, surviving, ih, surviving, hfilter, List.filter_append, List.append_assoc]

lemma surviving_congr {deletes deletes' : JournalEntry ρ → ρ → Bool} {es : List (JournalEntry ρ)}
    (h : ∀ e ∈ es, deletes e = deletes' e) : surviving deletes es = surviving deletes' es := by
  induction es with
  | nil => rfl
  | cons e es ih =>
    rw [List.forall_mem_cons] at h
    have hall : ∀ r, (es.all fun e' => !deletes e' r) = es.all fun e' => !deletes' e' r := by
      intro r
      rw [Bool.eq_iff_iff, List.all_eq_true, List.all_eq_true]
      apply forall₂_congr
      intro e' he'
      rw [h.2 e' he']
    simp only [surviving, hall, ih h.2]

/-- One step takes the rows to others by what the entry says: it leaves some in their order, and
adds its own at the end. -/
structure JournalEntry.Appends (e : JournalEntry ρ) (rows rows' kept : List ρ) : Prop where
  rows_eq : rows' = kept ++ e.committed
  live : (rows.filter fun r => !e.mayDelete r).Sublist kept
  left : kept.Sublist (rows.filter fun r => !e.deletes r)

lemma JournalEntry.appends_commit (rows committed : List ρ) :
    (JournalEntry.commit committed).Appends rows (rows ++ committed) rows where
  rows_eq := rfl
  live := List.filter_sublist
  left := by
    have hall : rows.filter (fun r => !(JournalEntry.commit committed).deletes r) = rows :=
      List.filter_eq_self.mpr fun _ _ => rfl
    rw [hall]

/-- A step that commits nothing, and leaves what it does not delete. -/
lemma JournalEntry.appends_of_filter {e : JournalEntry ρ} {t t' : IdentityTable ρ} {left : Stored ρ → Bool}
    (hcommitted : e.committed = []) (hrows : t'.rows = t.rows.filter left)
    (hmay : ∀ r, e.mayDelete r.row = false → left r = true)
    (hdeletes : ∀ r, e.deletes r.row = true → left r = false) : e.Appends t.contents t'.contents t'.contents where
  rows_eq := by rw [hcommitted, List.append_nil]
  live := by
    unfold IdentityTable.contents
    rw [hrows, List.filter_map]
    apply List.Sublist.map
    apply List.monotone_filter_right
    intro r hr
    exact hmay r (by simpa using hr)
  left := by
    unfold IdentityTable.contents
    rw [hrows, List.filter_map]
    apply List.Sublist.map
    apply List.monotone_filter_right
    intro r hr
    by_contra hdel
    rw [hdeletes r (by simpa using hdel)] at hr
    cases hr

/-- The rows that a journal leads to from none. -/
inductive JournaledRows : List (JournalEntry ρ) → List ρ → Prop
  | empty : JournaledRows [] []
  | step {es : List (JournalEntry ρ)} {e : JournalEntry ρ} {rows rows' kept : List ρ} :
    JournaledRows es rows → e.Appends rows rows' kept → JournaledRows (es ++ [e]) rows'

/-- There are all rows that nothing may have deleted, and none that something has, in the order
in which they were committed. -/
theorem JournaledRows.sublists {es : List (JournalEntry ρ)} {rows : List ρ} (h : JournaledRows es rows) :
    (surviving JournalEntry.mayDelete es).Sublist rows ∧ rows.Sublist (surviving JournalEntry.deletes es) := by
  induction h with
  | empty => exact ⟨.slnil, .slnil⟩
  | @step es e rows rows' kept _ happend ih =>
    rw [surviving_append_singleton, surviving_append_singleton, happend.rows_eq]
    refine ⟨List.Sublist.append ?_ (List.Sublist.refl _), List.Sublist.append ?_ (List.Sublist.refl _)⟩
    · exact (ih.1.filter _).trans happend.live
    · exact happend.left.trans (ih.2.filter _)

/-- Where it is known of every step what it deleted, it is known what is there. -/
lemma JournaledRows.eq_surviving {es : List (JournalEntry ρ)} {rows : List ρ} (h : JournaledRows es rows)
    (hknown : ∀ e ∈ es, e.mayDelete = e.deletes) : rows = surviving JournalEntry.deletes es := by
  have hsub := h.sublists
  rw [surviving_congr hknown] at hsub
  exact hsub.2.antisymm hsub.1

end Relational
