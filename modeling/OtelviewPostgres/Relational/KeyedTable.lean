import Mathlib

/-!
# Tables under a primary key

A keyed table is a list of rows no two of which share a key; the order of the rows
carries no meaning. This file develops `INSERT .. ON CONFLICT DO UPDATE` on such tables:
what one upsert changes, what a sequence of upserts leaves behind, and when collapsing
repeated keys to their last occurrence is invisible.
-/

namespace Relational

variable {ρ κ : Type*}

/-- Rows under a primary key. -/
structure KeyedTable (key : ρ → κ) where
  rows : List ρ
  nodup_keys : (rows.map key).Nodup

namespace KeyedTable

variable {key : ρ → κ}

instance : EmptyCollection (KeyedTable key) := ⟨⟨[], List.nodup_nil⟩⟩

@[simp] lemma rows_empty : (∅ : KeyedTable key).rows = [] := rfl

lemma eq_of_key_eq (t : KeyedTable key) {r r' : ρ} (hr : r ∈ t.rows) (hr' : r' ∈ t.rows)
    (h : key r = key r') : r = r' :=
  List.inj_on_of_nodup_map t.nodup_keys hr hr' h

variable [DecidableEq κ]

def lookup (t : KeyedTable key) (k : κ) : Option ρ := t.rows.find? (fun r => key r = k)

@[simp] lemma lookup_empty (k : κ) : (∅ : KeyedTable key).lookup k = none := rfl

lemma lookup_eq_some_iff (t : KeyedTable key) (k : κ) (r : ρ) :
    t.lookup k = some r ↔ r ∈ t.rows ∧ key r = k := by
  constructor
  · intro h
    exact ⟨List.mem_of_find?_eq_some h, by simpa using List.find?_some h⟩
  · rintro ⟨hr, rfl⟩
    cases h : t.lookup (key r) with
    | none => simpa using (List.find?_eq_none.mp h) r hr
    | some r' =>
      have hk : key r' = key r := by simpa using List.find?_some h
      rw [t.eq_of_key_eq (List.mem_of_find?_eq_some h) hr hk]

/-- Store a row under its key, replacing the row that has the key. -/
def put (t : KeyedTable key) (r : ρ) : KeyedTable key where
  rows := if key r ∈ t.rows.map key then t.rows.map (fun x => if key x = key r then r else x)
    else t.rows ++ [r]
  nodup_keys := by
    split
    · have hkeys : (t.rows.map (fun x => if key x = key r then r else x)).map key = t.rows.map key := by
        rw [List.map_map]
        apply List.map_congr_left
        intro x _
        by_cases hx : key x = key r <;> simp [hx]
      rw [hkeys]
      exact t.nodup_keys
    · rename_i hr
      rw [List.map_append, List.nodup_append]
      refine ⟨t.nodup_keys, by simp, ?_⟩
      rintro a ha b hb rfl
      rw [List.map_singleton, List.mem_singleton] at hb
      exact hr (hb ▸ ha)

lemma mem_put (t : KeyedTable key) (r x : ρ) :
    x ∈ (t.put r).rows ↔ x = r ∨ (x ∈ t.rows ∧ key x ≠ key r) := by
  unfold put
  by_cases hr : key r ∈ t.rows.map key
  · simp only [hr, if_true, List.mem_map]
    constructor
    · rintro ⟨y, hy, rfl⟩
      by_cases hyr : key y = key r
      · simp [hyr]
      · simp [hyr, hy]
    · rintro (rfl | ⟨hx, hne⟩)
      · obtain ⟨y, hy, hyr⟩ := List.mem_map.mp hr
        exact ⟨y, hy, by simp [hyr]⟩
      · exact ⟨x, hx, by simp [hne]⟩
  · simp only [hr, if_false, List.mem_append, List.mem_singleton]
    constructor
    · rintro (hx | rfl)
      · exact .inr ⟨hx, fun h => hr (h ▸ List.mem_map_of_mem hx)⟩
      · exact .inl rfl
    · rintro (rfl | ⟨hx, -⟩)
      · exact .inr rfl
      · exact .inl hx

@[simp] lemma lookup_put (t : KeyedTable key) (r : ρ) (k : κ) :
    (t.put r).lookup k = if k = key r then some r else t.lookup k := by
  split
  · rename_i h
    exact ((t.put r).lookup_eq_some_iff k r).mpr ⟨(t.mem_put r r).mpr (.inl rfl), h.symm⟩
  · rename_i h
    apply Option.ext
    intro x
    rw [lookup_eq_some_iff, lookup_eq_some_iff, mem_put]
    constructor
    · rintro ⟨rfl | hx, hk⟩
      · exact absurd hk.symm h
      · exact ⟨hx.1, hk⟩
    · rintro ⟨hx, hk⟩
      exact ⟨.inr ⟨hx, fun he => h (hk.symm.trans he)⟩, hk⟩

end KeyedTable

/-- The row an upsert leaves where a stored row already has the key: the stored row
comes first, the row proposed for insertion second. -/
structure ConflictUpdate (key : ρ → κ) where
  merge : ρ → ρ → ρ
  key_merge : ∀ old new, key old = key new → key (merge old new) = key new

/-- Every column outside the key is taken from the proposed row. -/
def ConflictUpdate.Overwrites {key : ρ → κ} (c : ConflictUpdate key) : Prop :=
  ∀ old new, key old = key new → c.merge old new = new

namespace KeyedTable

variable [DecidableEq κ] {key : ρ → κ} (c : ConflictUpdate key)

/-- The row that is stored when `r` is upserted. -/
def resolve (t : KeyedTable key) (r : ρ) : ρ :=
  match t.lookup (key r) with
  | some old => c.merge old r
  | none => r

def upsert (t : KeyedTable key) (r : ρ) : KeyedTable key := t.put (t.resolve c r)

def upsertAll (t : KeyedTable key) (rows : List ρ) : KeyedTable key := rows.foldl (upsert c) t

lemma key_resolve (t : KeyedTable key) (r : ρ) : key (t.resolve c r) = key r := by
  unfold resolve
  cases h : t.lookup (key r) with
  | none => rfl
  | some old => exact c.key_merge old r ((t.lookup_eq_some_iff _ _).mp h).2

lemma resolve_of_overwrites (hc : c.Overwrites) (t : KeyedTable key) (r : ρ) :
    t.resolve c r = r := by
  unfold resolve
  cases h : t.lookup (key r) with
  | none => rfl
  | some old => exact hc old r ((t.lookup_eq_some_iff _ _).mp h).2

lemma upsert_of_overwrites (hc : c.Overwrites) (t : KeyedTable key) (r : ρ) :
    t.upsert c r = t.put r := by
  rw [upsert, resolve_of_overwrites c hc]

@[simp] lemma lookup_upsert (t : KeyedTable key) (r : ρ) (k : κ) :
    (t.upsert c r).lookup k = if k = key r then some (t.resolve c r) else t.lookup k := by
  simp [upsert, key_resolve]

@[simp] lemma upsertAll_nil (t : KeyedTable key) : t.upsertAll c [] = t := rfl

@[simp] lemma upsertAll_cons (t : KeyedTable key) (r : ρ) (rs : List ρ) :
    t.upsertAll c (r :: rs) = (t.upsert c r).upsertAll c rs := rfl

lemma upsertAll_append (t : KeyedTable key) (rs rs' : List ρ) :
    t.upsertAll c (rs ++ rs') = (t.upsertAll c rs).upsertAll c rs' := List.foldl_append

lemma upsertAll_flatten (t : KeyedTable key) (batches : List (List ρ)) :
    t.upsertAll c batches.flatten = batches.foldl (fun t rows => t.upsertAll c rows) t := by
  induction batches generalizing t with
  | nil => rfl
  | cons rows batches ih => rw [List.flatten_cons, upsertAll_append, ih, List.foldl_cons]

lemma lookup_upsertAll_of_notMem (t : KeyedTable key) (rows : List ρ) (k : κ)
    (h : k ∉ rows.map key) : (t.upsertAll c rows).lookup k = t.lookup k := by
  induction rows generalizing t with
  | nil => rfl
  | cons r rs ih =>
    rw [List.map_cons, List.mem_cons, not_or] at h
    rw [upsertAll_cons, ih _ h.2, lookup_upsert, if_neg h.1]

/-- Where upserts overwrite, the last row of a key is the one that stays. -/
theorem lookup_upsertAll (hc : c.Overwrites) (t : KeyedTable key) (rows : List ρ) (k : κ) :
    (t.upsertAll c rows).lookup k = (rows.reverse.find? (fun r => key r = k)).or (t.lookup k) := by
  induction rows using List.reverseRecOn with
  | nil => rfl
  | append_singleton rs r ih =>
    rw [upsertAll_append, upsertAll_cons, upsertAll_nil, upsert_of_overwrites c hc, lookup_put, ih,
      List.reverse_append, List.reverse_singleton, List.singleton_append, List.find?_cons]
    by_cases h : k = key r
    · simp [h]
    · simp [h, Ne.symm h]

lemma lookup_upsertAll_of_mem (hc : c.Overwrites) (t : KeyedTable key) {rows : List ρ}
    (hnodup : (rows.map key).Nodup) {r : ρ} (hr : r ∈ rows) :
    (t.upsertAll c rows).lookup (key r) = some r := by
  rw [lookup_upsertAll c hc]
  cases h : rows.reverse.find? (fun x => key x = key r) with
  | none => simpa using (List.find?_eq_none.mp h) r (List.mem_reverse.mpr hr)
  | some x =>
    have hkey : key x = key r := by simpa using List.find?_some h
    have hx : x ∈ rows := List.mem_reverse.mp (List.mem_of_find?_eq_some h)
    rw [List.inj_on_of_nodup_map hnodup hx hr hkey, Option.some_or]

lemma forall_upsertAll (hc : c.Overwrites) {P : ρ → Prop} (t : KeyedTable key) (rows : List ρ)
    (ht : ∀ r ∈ t.rows, P r) (hrows : ∀ r ∈ rows, P r) : ∀ r ∈ (t.upsertAll c rows).rows, P r := by
  induction rows generalizing t with
  | nil => exact ht
  | cons r rs ih =>
    rw [upsertAll_cons, upsert_of_overwrites c hc]
    refine ih _ (fun x hx => ?_) (fun x hx => hrows x (List.mem_cons_of_mem _ hx))
    rcases (t.mem_put r x).mp hx with rfl | ⟨hx, -⟩
    · exact hrows x List.mem_cons_self
    · exact ht x hx

end KeyedTable

/-! ### Collapsing repeated keys -/

/-- Keep one row for each key, the last one, in the order of the list. -/
def keepLast [DecidableEq κ] (key : ρ → κ) : List ρ → List ρ
  | [] => []
  | r :: rs => if key r ∈ rs.map key then keepLast key rs else r :: keepLast key rs

section KeepLast

variable [DecidableEq κ] (key : ρ → κ)

lemma keepLast_sublist (l : List ρ) : (keepLast key l).Sublist l := by
  induction l with
  | nil => exact .slnil
  | cons r rs ih =>
    unfold keepLast
    split
    · exact ih.cons r
    · exact ih.cons_cons r

lemma mem_map_keepLast (l : List ρ) (k : κ) : k ∈ (keepLast key l).map key ↔ k ∈ l.map key := by
  induction l with
  | nil => rfl
  | cons r rs ih =>
    unfold keepLast
    split
    · rename_i h
      rw [ih, List.map_cons, List.mem_cons]
      constructor
      · exact .inr
      · rintro (rfl | hk)
        · exact h
        · exact hk
    · rw [List.map_cons, List.map_cons, List.mem_cons, List.mem_cons, ih]

theorem nodup_keys_keepLast (l : List ρ) : ((keepLast key l).map key).Nodup := by
  induction l with
  | nil => exact List.nodup_nil
  | cons r rs ih =>
    unfold keepLast
    split
    · exact ih
    · rename_i h
      rw [List.map_cons, List.nodup_cons, mem_map_keepLast]
      exact ⟨h, ih⟩

lemma find?_reverse_keepLast (l : List ρ) (k : κ) :
    (keepLast key l).reverse.find? (fun r => key r = k) = l.reverse.find? (fun r => key r = k) := by
  induction l with
  | nil => rfl
  | cons r rs ih =>
    unfold keepLast
    rw [List.reverse_cons, List.find?_append]
    split
    · rename_i h
      by_cases hk : key r = k
      · obtain ⟨x, hx, hxr⟩ := List.mem_map.mp h
        have hsome : (rs.reverse.find? (fun r => key r = k)).isSome := by
          rw [List.find?_isSome]
          exact ⟨x, List.mem_reverse.mpr hx, by simp [hxr, hk]⟩
        rw [ih, Option.or_of_isSome hsome]
      · simp [ih, hk]
    · rw [List.reverse_cons, List.find?_append, ih]

lemma mem_keepLast_iff (l : List ρ) (r : ρ) :
    r ∈ keepLast key l ↔ l.reverse.find? (fun x => key x = key r) = some r := by
  rw [← find?_reverse_keepLast]
  constructor
  · intro hr
    cases h : (keepLast key l).reverse.find? (fun x => key x = key r) with
    | none => simpa using (List.find?_eq_none.mp h) r (List.mem_reverse.mpr hr)
    | some x =>
      have hkey : key x = key r := by simpa using List.find?_some h
      have hx : x ∈ keepLast key l := List.mem_reverse.mp (List.mem_of_find?_eq_some h)
      rw [List.inj_on_of_nodup_map (nodup_keys_keepLast key l) hx hr hkey]
  · intro h
    exact List.mem_reverse.mp (List.mem_of_find?_eq_some h)

lemma find?_reverse_insert {k : κ} {mid : List ρ} (hmid : ∀ r ∈ mid, key r ≠ k) (l l' : List ρ) :
    (l ++ (mid ++ l')).reverse.find? (fun r => key r = k) = (l ++ l').reverse.find? (fun r => key r = k) := by
  have hnone : mid.reverse.find? (fun r => key r = k) = none := by
    rw [List.find?_eq_none]
    intro r hr
    simpa using hmid r (List.mem_reverse.mp hr)
  simp only [List.reverse_append, List.find?_append, hnone, Option.or_none]

/-- Rows inserted under a key of their own displace no other row. -/
lemma mem_keepLast_insert {k : κ} {mid l l' : List ρ} (hmid : ∀ r ∈ mid, key r = k)
    (hrest : ∀ r ∈ l ++ l', key r ≠ k) {r : ρ} (hr : r ∈ keepLast key (l ++ (mid ++ l'))) :
    r ∈ mid ∨ r ∈ keepLast key (l ++ l') := by
  by_cases hk : key r = k
  · left
    have hmem := (keepLast_sublist key _).subset hr
    rw [List.mem_append, List.mem_append] at hmem
    rcases hmem with h | h | h
    · exact absurd hk (hrest r (List.mem_append_left _ h))
    · exact h
    · exact absurd hk (hrest r (List.mem_append_right _ h))
  · right
    have hother : ∀ r' ∈ mid, key r' ≠ key r := by
      intro r' hr' h
      exact hk (h.symm.trans (hmid r' hr'))
    rwa [mem_keepLast_iff, find?_reverse_insert key hother, ← mem_keepLast_iff] at hr

/-- Where upserts overwrite, collapsing repeated keys first is invisible. -/
theorem lookup_upsertAll_keepLast {key : ρ → κ} (c : ConflictUpdate key) (hc : c.Overwrites)
    (t : KeyedTable key) (l : List ρ) (k : κ) :
    (t.upsertAll c (keepLast key l)).lookup k = (t.upsertAll c l).lookup k := by
  rw [KeyedTable.lookup_upsertAll c hc, KeyedTable.lookup_upsertAll c hc, find?_reverse_keepLast]

end KeepLast

section LastPositions

variable (key : ρ → κ)

/-- Position `i` holds the last row of its key. A program that records these positions, sorts them and
reads the rows back keeps the last row of each key likewise. -/
def IsLastPosition (l : List ρ) (i : ℕ) : Prop :=
  ∃ r, l[i]? = some r ∧ key r ∉ (l.drop (i + 1)).map key

@[simp] lemma isLastPosition_cons_succ (r : ρ) (l : List ρ) (i : ℕ) :
    IsLastPosition key (r :: l) (i + 1) ↔ IsLastPosition key l i := Iff.rfl

@[simp] lemma isLastPosition_cons_zero (r : ρ) (l : List ρ) :
    IsLastPosition key (r :: l) 0 ↔ key r ∉ l.map key := by
  simp [IsLastPosition]

variable {key} in
lemma IsLastPosition.lt {l : List ρ} {i : ℕ} (h : IsLastPosition key l i) : i < l.length := by
  obtain ⟨r, hr, -⟩ := h
  exact (List.getElem?_eq_some_iff.mp hr).1

variable [DecidableEq κ]

def lastPositions (l : List ρ) : AList (fun _ : κ => ℕ) :=
  l.zipIdx.foldl (fun m p => m.insert (key p.1) p.2) ∅

lemma lastPositions_append_singleton (l : List ρ) (r : ρ) :
    lastPositions key (l ++ [r]) = (lastPositions key l).insert (key r) l.length := by
  simp [lastPositions, List.zipIdx_append]

lemma lookup_lastPositions (l : List ρ) (k : κ) (i : ℕ) :
    (lastPositions key l).lookup k = some i ↔
      ∃ r, l[i]? = some r ∧ key r = k ∧ k ∉ (l.drop (i + 1)).map key := by
  induction l using List.reverseRecOn with
  | nil => simp [lastPositions]
  | append_singleton l r ih =>
    rw [lastPositions_append_singleton]
    rcases lt_trichotomy i l.length with hi | rfl | hi
    · have hdrop : (l ++ [r]).drop (i + 1) = l.drop (i + 1) ++ [r] :=
        List.drop_append_of_le_length (by omega)
      rw [hdrop, List.getElem?_append_left hi]
      by_cases hk : k = key r
      · subst hk
        rw [AList.lookup_insert]
        simp only [Option.some.injEq, List.map_append, List.map_singleton, List.mem_append,
          List.mem_singleton, or_true, not_true_eq_false, and_false, exists_false, iff_false]
        omega
      · rw [AList.lookup_insert_ne hk, ih]
        simp only [List.map_append, List.map_singleton, List.mem_append, List.mem_singleton, hk, or_false]
    · rw [List.getElem?_concat_length]
      by_cases hk : k = key r
      · subst hk
        simp
      · rw [AList.lookup_insert_ne hk, ih]
        simp [Ne.symm hk]
    · have hnone : (l ++ [r])[i]? = none := by simp; omega
      rw [hnone]
      by_cases hk : k = key r
      · subst hk
        rw [AList.lookup_insert]
        simp only [Option.some.injEq, reduceCtorEq, false_and, exists_false, iff_false]
        omega
      · rw [AList.lookup_insert_ne hk, ih, List.getElem?_eq_none (by omega)]
        simp

lemma mem_values_lastPositions (l : List ρ) (i : ℕ) :
    i ∈ (lastPositions key l).entries.map Sigma.snd ↔ IsLastPosition key l i := by
  rw [List.mem_map]
  constructor
  · rintro ⟨⟨k, i⟩, hp, rfl⟩
    obtain ⟨r, hr, rfl, hk⟩ := (lookup_lastPositions key l k i).mp (AList.mem_lookup_iff.mpr hp)
    exact ⟨r, hr, hk⟩
  · rintro ⟨r, hr, hk⟩
    exact ⟨⟨key r, i⟩, AList.mem_lookup_iff.mp ((lookup_lastPositions key l _ i).mpr ⟨r, hr, rfl, hk⟩), rfl⟩

lemma nodup_values_lastPositions (l : List ρ) :
    ((lastPositions key l).entries.map Sigma.snd).Nodup := by
  refine List.Nodup.map_on ?_ (lastPositions key l).nodupKeys.nodup
  rintro ⟨k, i⟩ hp ⟨k', i'⟩ hp' (rfl : i = i')
  obtain ⟨r, hr, rfl, -⟩ := (lookup_lastPositions key l k i).mp (AList.mem_lookup_iff.mpr hp)
  obtain ⟨r', hr', rfl, -⟩ := (lookup_lastPositions key l k' i).mp (AList.mem_lookup_iff.mpr hp')
  rw [Option.some.inj (hr.symm.trans hr')]

open Classical in
lemma filterMap_range_isLastPosition (l : List ρ) :
    ((List.range l.length).filter (fun i => IsLastPosition key l i)).filterMap (fun i => l[i]?) =
      keepLast key l := by
  induction l with
  | nil => rfl
  | cons r rs ih =>
    have htail : (((List.range rs.length).map Nat.succ).filter
        (fun i => IsLastPosition key (r :: rs) i)).filterMap (fun i => (r :: rs)[i]?) =
        keepLast key rs := by
      rw [List.filter_map, List.filterMap_map, ← ih]
      congr 1
    rw [List.length_cons, List.range_succ_eq_map, List.filter_cons]
    unfold keepLast
    by_cases h : key r ∈ rs.map key
    · rw [if_neg (by simpa using h), if_pos h, htail]
    · rw [if_pos (by simpa using h), if_neg h, List.filterMap_cons, htail]
      rfl

/-- Reading the rows back at the sorted last positions keeps the last row of each key. -/
theorem filterMap_sort_lastPositions (l : List ρ) :
    (((lastPositions key l).entries.map Sigma.snd).insertionSort (· ≤ ·)).filterMap (fun i => l[i]?) =
      keepLast key l := by
  classical
  rw [← filterMap_range_isLastPosition key l]
  congr 1
  have hsort := List.pairwise_insertionSort (· ≤ ·) ((lastPositions key l).entries.map Sigma.snd)
  have hnodup : (((lastPositions key l).entries.map Sigma.snd).insertionSort (· ≤ ·)).Nodup :=
    (List.perm_insertionSort _ _).nodup_iff.mpr (nodup_values_lastPositions key l)
  have hlt : (((lastPositions key l).entries.map Sigma.snd).insertionSort (· ≤ ·)).Pairwise (· < ·) :=
    (hsort.and hnodup).imp (fun h => lt_of_le_of_ne h.1 h.2)
  refine hlt.eq_of_mem_iff (List.pairwise_lt_range.filter _) (fun i => ?_)
  rw [List.mem_insertionSort, mem_values_lastPositions, List.mem_filter, List.mem_range,
    decide_eq_true_iff]
  exact ⟨fun h => ⟨h.lt, h⟩, fun h => h.2⟩

end LastPositions

end Relational
