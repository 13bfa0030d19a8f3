import Mathlib

/-!
# Grouping by a key

A hash map that keeps a tally or a group for each key of a list. And a program that groups the
positions of a list by a key, selects some of the positions of each group, and returns the rows
at the selected positions in the order of the list: for each key the result is the selection
from the rows of that key.
-/

namespace Relational

/-- A selection that looks at positions only. -/
structure Sampler where
  sample : {α : Type} → List α → List α
  sample_map : ∀ {α β : Type} (g : α → β) (l : List α), sample (l.map g) = (sample l).map g
  sample_sublist : ∀ {α : Type} (l : List α), (sample l).Sublist l

section Tallies

variable {α κ σ : Type} [DecidableEq κ] (key : α → κ) (zero : σ) (add : σ → α → σ)

/-- Add an element to what is kept for its key. -/
def addToTally (m : AList fun _ : κ => σ) (a : α) : AList fun _ : κ => σ :=
  m.insert (key a) (add ((m.lookup (key a)).getD zero) a)

/-- What is kept for a key is made of the elements of the key in order. -/
theorem lookup_foldl_addToTally (l : List α) (k : κ) :
    (l.foldl (addToTally key zero add) ∅).lookup k =
      if k ∈ l.map key then some ((l.filter fun a => key a = k).foldl add zero) else none := by
  induction l using List.reverseRecOn with
  | nil => rfl
  | append_singleton l a ih =>
    rw [List.foldl_append, List.foldl_cons, List.foldl_nil, addToTally, List.filter_append, List.map_append]
    by_cases h : key a = k
    · subst h
      have hold : ((l.foldl (addToTally key zero add) ∅).lookup (key a)).getD zero =
          (l.filter fun b => key b = key a).foldl add zero := by
        rw [ih]
        split
        · rfl
        · rename_i hmem
          have hnone : (l.filter fun b => key b = key a) = [] := by
            rw [List.filter_eq_nil_iff]
            intro b hb hkey
            exact hmem (List.mem_map.mpr ⟨b, hb, of_decide_eq_true hkey⟩)
          rw [hnone]
          rfl
      rw [AList.lookup_insert, hold, if_pos (by simp)]
      simp [List.foldl_append]
    · rw [AList.lookup_insert_ne (Ne.symm h), ih]
      simp [h, Ne.symm h]

/-- The keys are those of the elements, each once. -/
theorem tallies_perm (l : List α) :
    (l.foldl (addToTally key zero add) ∅).entries.Perm
      ((l.map key).dedup.map fun k => ⟨k, (l.filter fun a => key a = k).foldl add zero⟩) := by
  have hnodup : (l.foldl (addToTally key zero add) ∅).entries.Nodup :=
    List.Nodup.of_map Sigma.fst (l.foldl (addToTally key zero add) ∅).nodupKeys
  have hinj : Function.Injective fun k =>
      (⟨k, (l.filter fun a => key a = k).foldl add zero⟩ : Sigma fun _ : κ => σ) :=
    fun k k' h => congrArg Sigma.fst h
  rw [List.perm_ext_iff_of_nodup hnodup ((List.nodup_dedup _).map hinj)]
  rintro ⟨k, kept⟩
  rw [← AList.mem_lookup_iff, lookup_foldl_addToTally]
  constructor
  · intro h
    split at h
    · rename_i hmem
      obtain rfl := Option.some.inj h
      exact List.mem_map.mpr ⟨k, List.mem_dedup.mpr hmem, rfl⟩
    · cases h
  · intro h
    obtain ⟨k', hk', heq⟩ := List.mem_map.mp h
    obtain rfl := congrArg Sigma.fst heq
    rw [if_pos (List.mem_dedup.mp hk')]
    cases heq
    rfl

/-- Every element is counted under one of the keys. -/
theorem sum_countP_key {ks : List κ} (hks : ks.Nodup) {l : List α} (hmem : ∀ a ∈ l, key a ∈ ks) :
    (ks.map fun k => l.countP fun a => key a = k).sum = l.length := by
  induction l with
  | nil => simp
  | cons a l ih =>
    have hone : (ks.map fun k => if key a = k then 1 else 0).sum = 1 := by
      rw [← List.sum_toFinset _ hks, Finset.sum_ite_eq, if_pos]
      exact List.mem_toFinset.mpr (hmem a List.mem_cons_self)
    have hsplit : (ks.map fun k => (a :: l).countP fun b => key b = k) =
        ks.map fun k => (l.countP fun b => key b = k) + if key a = k then 1 else 0 := by
      apply List.map_congr_left
      intro k _
      rw [List.countP_cons]
      simp
    rw [hsplit, List.sum_map_add, ih fun b hb => hmem b (List.mem_cons_of_mem a hb), hone, List.length_cons]

end Tallies

section Groups

variable {α β κ : Type} [DecidableEq κ] (key : α → κ) (value : α → β)

/-- Add an element to the group of its key. -/
def addToGroup (key : α → κ) (value : α → β) (m : AList fun _ : κ => List β) (a : α) : AList fun _ : κ => List β :=
  m.insert (key a) ((m.lookup (key a)).getD [] ++ [value a])

lemma addToGroup_eq_addToTally : addToGroup key value = addToTally key [] fun group a => group ++ [value a] := rfl

lemma foldl_append_singleton (l : List α) (group : List β) :
    l.foldl (fun group a => group ++ [value a]) group = group ++ l.map value := by
  induction l generalizing group with
  | nil => simp
  | cons a l ih => rw [List.foldl_cons, ih, List.map_cons, List.append_assoc, List.singleton_append]

/-- The group of a key holds the elements of the key in order, and there are no empty groups. -/
theorem lookup_foldl_addToGroup (l : List α) (k : κ) :
    (l.foldl (addToGroup key value) ∅).lookup k =
      if (l.filter fun a => key a = k).isEmpty then none else some ((l.filter fun a => key a = k).map value) := by
  have hmem : k ∈ l.map key ↔ ¬ (l.filter fun a => key a = k).isEmpty := by
    rw [List.isEmpty_iff, List.filter_eq_nil_iff, List.mem_map]
    push Not
    simp
  rw [addToGroup_eq_addToTally, lookup_foldl_addToTally, foldl_append_singleton, List.nil_append]
  by_cases h : (l.filter fun a => key a = k).isEmpty
  · rw [if_pos h, if_neg (mt hmem.mp (not_not.mpr h))]
  · rw [if_neg h, if_pos (hmem.mpr h)]

/-- The groups are those of the keys of the elements, each once. -/
theorem groups_perm (l : List α) :
    (l.foldl (addToGroup key value) ∅).entries.Perm
      ((l.map key).dedup.map fun k => ⟨k, (l.filter fun a => key a = k).map value⟩) := by
  have h := tallies_perm key [] (fun group a => group ++ [value a]) l
  simp only [foldl_append_singleton, List.nil_append] at h
  exact h

end Groups

variable {ρ κ : Type} [DecidableEq κ] (key : ρ → κ)

def groupPositions (l : List ρ) : AList (fun _ : κ => List ℕ) :=
  l.zipIdx.foldl (fun m p => m.insert (key p.1) ((m.lookup (key p.1)).getD [] ++ [p.2])) ∅

/-- The rows at the positions selected in each group. -/
def selectByGroup (f : List ℕ → List ℕ) (l : List ρ) : List ρ :=
  let kept := (groupPositions key l).entries.flatMap fun e => f e.2
  (l.zipIdx.filter fun p => p.2 ∈ kept).map Prod.fst

/-- The rows of a key with their positions. -/
def rowsAt (l : List ρ) (k : κ) : List (ρ × ℕ) := l.zipIdx.filter fun p => key p.1 = k

lemma lookup_groupPositions (l : List ρ) (k : κ) :
    (groupPositions key l).lookup k =
      if (rowsAt key l k).isEmpty then none else some ((rowsAt key l k).map Prod.snd) :=
  lookup_foldl_addToGroup (fun p : ρ × ℕ => key p.1) Prod.snd l.zipIdx k

lemma mem_rowsAt {l : List ρ} {k : κ} {p : ρ × ℕ} : p ∈ rowsAt key l k ↔ l[p.2]? = some p.1 ∧ key p.1 = k := by
  rw [rowsAt, List.mem_filter, List.mem_zipIdx_iff_getElem?, decide_eq_true_iff]

lemma pairwise_rowsAt (l : List ρ) (k : κ) : ((rowsAt key l k).map Prod.snd).Pairwise (· < ·) := by
  have hsub : ((rowsAt key l k).map Prod.snd).Sublist (l.zipIdx.map Prod.snd) := List.filter_sublist.map _
  have hidx : l.zipIdx.map Prod.snd = List.range l.length := by simp [List.range_eq_range']
  rw [hidx] at hsub
  exact List.pairwise_lt_range.sublist hsub

lemma map_fst_rowsAt (l : List ρ) (k : κ) : (rowsAt key l k).map Prod.fst = l.filter fun r => key r = k := by
  have hfilter := List.filter_map (f := Prod.fst) (l := l.zipIdx) (p := fun r => decide (key r = k))
  rw [List.zipIdx_map_fst] at hfilter
  exact hfilter.symm

variable {key}

/-- Whether a position is selected is decided in the group of its row. -/
lemma mem_selected_iff {f : List ℕ → List ℕ} (hf : ∀ is, (f is).Sublist is) {l : List ρ} {k : κ} {p : ρ × ℕ}
    (hp : p ∈ rowsAt key l k) :
    (p.2 ∈ (groupPositions key l).entries.flatMap fun e => f e.2) ↔ p.2 ∈ f ((rowsAt key l k).map Prod.snd) := by
  rw [List.mem_flatMap]
  constructor
  · rintro ⟨⟨k', is⟩, he, hmem⟩
    have hlookup : (groupPositions key l).lookup k' = some is := AList.mem_lookup_iff.mpr he
    rw [lookup_groupPositions] at hlookup
    split at hlookup
    · cases hlookup
    · obtain rfl := Option.some.inj hlookup
      obtain ⟨q, hq, hqp⟩ := List.mem_map.mp ((hf _).subset hmem)
      have hget := ((mem_rowsAt key).mp hp).1
      rw [← hqp, ((mem_rowsAt key).mp hq).1] at hget
      have hkk : k' = k := by
        rw [← ((mem_rowsAt key).mp hq).2, ← ((mem_rowsAt key).mp hp).2, Option.some.inj hget]
      rwa [hkk] at hmem
  · intro hmem
    refine ⟨⟨k, (rowsAt key l k).map Prod.snd⟩, ?_, hmem⟩
    apply AList.mem_lookup_iff.mp
    rw [lookup_groupPositions, if_neg]
    · rfl
    · intro hempty
      rw [List.isEmpty_iff.mp hempty] at hp
      cases hp

lemma filter_rowsAt_sample (f : Sampler) (l : List ρ) (k : κ) :
    (rowsAt key l k).filter (fun p => p.2 ∈ f.sample ((rowsAt key l k).map Prod.snd)) = f.sample (rowsAt key l k) := by
  have hpositions := (pairwise_rowsAt key l k).imp ne_of_lt
  have hinj : ∀ p ∈ rowsAt key l k, ∀ q ∈ rowsAt key l k, p.2 = q.2 → p = q :=
    fun p hp q hq h => List.inj_on_of_nodup_map hpositions hp hq h
  have hsort : (rowsAt key l k).Pairwise (fun p q => p.2 < q.2) := List.pairwise_map.mp (pairwise_rowsAt key l k)
  have hnodup : (rowsAt key l k).Nodup := List.Nodup.of_map Prod.snd hpositions
  have hperm : ((rowsAt key l k).filter fun p => p.2 ∈ f.sample ((rowsAt key l k).map Prod.snd)).Perm
      (f.sample (rowsAt key l k)) := by
    rw [List.perm_ext_iff_of_nodup (hnodup.filter _) (hnodup.sublist (f.sample_sublist _))]
    intro p
    rw [List.mem_filter, decide_eq_true_iff, f.sample_map, List.mem_map]
    constructor
    · rintro ⟨hp, q, hq, hqp⟩
      rwa [hinj p hp q ((f.sample_sublist _).subset hq) hqp.symm]
    · intro hp
      exact ⟨(f.sample_sublist _).subset hp, p, hp, rfl⟩
  have hanti : ∀ p q : ρ × ℕ, p.2 < q.2 → q.2 < p.2 → p = q := fun _ _ h h' => absurd h (Nat.lt_asymm h')
  exact List.Perm.eq_of_pairwise (fun p q _ _ => hanti p q) (hsort.filter _) (hsort.sublist (f.sample_sublist _)) hperm

variable (key) in
/-- The rows of a key in the result are the selection from the rows of the key. -/
theorem filter_selectByGroup (f : Sampler) (l : List ρ) (k : κ) :
    (selectByGroup key f.sample l).filter (fun r => key r = k) = f.sample (l.filter fun r => key r = k) := by
  have hselect : (l.zipIdx.filter fun p => p.2 ∈ (groupPositions key l).entries.flatMap fun e => f.sample e.2).filter
      (fun p => key p.1 = k) = f.sample (rowsAt key l k) := by
    rw [← filter_rowsAt_sample, List.filter_filter, rowsAt, List.filter_filter]
    apply List.filter_congr
    intro p hp
    by_cases hk : key p.1 = k
    · have hmem : p ∈ rowsAt key l k := List.mem_filter.mpr ⟨hp, by simpa using hk⟩
      have hiff := mem_selected_iff (fun is => f.sample_sublist is) hmem
      simp only [hk, decide_true, Bool.true_and, Bool.and_true]
      exact decide_eq_decide.mpr hiff
    · simp [hk]
  have hkey : (selectByGroup key f.sample l).filter (fun r => key r = k) =
      ((l.zipIdx.filter fun p => p.2 ∈ (groupPositions key l).entries.flatMap fun e => f.sample e.2).filter
        (fun p => key p.1 = k)).map Prod.fst := List.filter_map
  rw [hkey, hselect, ← f.sample_map, map_fst_rowsAt]

lemma selectByGroup_sublist (f : List ℕ → List ℕ) (l : List ρ) : (selectByGroup key f l).Sublist l := by
  have hsub : (selectByGroup key f l).Sublist (l.zipIdx.map Prod.fst) := List.filter_sublist.map Prod.fst
  rwa [List.zipIdx_map_fst] at hsub

variable (key) in
/-- Groups from which the selection leaves nothing out come through whole. -/
theorem filter_selectByGroup_eq_self (f : Sampler) {l : List ρ} (hl : l.Nodup) {q : ρ → Bool}
    (h : ∀ r ∈ l, q r → f.sample (l.filter fun r' => key r' = key r) = l.filter fun r' => key r' = key r) :
    (selectByGroup key f.sample l).filter q = l.filter q := by
  have hsub : ((selectByGroup key f.sample l).filter q).Sublist (l.filter q) :=
    (selectByGroup_sublist f.sample l).filter q
  have hsubset : l.filter q ⊆ (selectByGroup key f.sample l).filter q := by
    intro r hr
    obtain ⟨hmem, hq⟩ := List.mem_filter.mp hr
    have hgroup : r ∈ (selectByGroup key f.sample l).filter fun r' => key r' = key r := by
      rw [filter_selectByGroup, h r hmem hq]
      exact List.mem_filter.mpr ⟨hmem, decide_eq_true rfl⟩
    exact List.mem_filter.mpr ⟨(List.mem_filter.mp hgroup).1, hq⟩
  exact hsub.eq_of_length_le (List.subperm_of_subset (hl.filter q) hsubset).length_le

end Relational
