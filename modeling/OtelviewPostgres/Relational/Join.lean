import OtelviewPostgres.Relational.GroupBy

/-!
# Joins and counts

`JOIN .. ON ..` gives every pair that meets the condition, and `COUNT(*)` with `GROUP BY`
counts the rows of a result for each key. Where at most one row on the right matches a row on
the left, the pairs of a kind are as many as the rows on the left that have a match of the kind.
-/

namespace Relational

variable {α β κ : Type} [DecidableEq κ]

/-- `FROM left JOIN right ON on` -/
def innerJoin (on : α → β → Prop) [∀ a b, Decidable (on a b)] (left : List α) (right : List β) : List (α × β) :=
  left.flatMap fun a => (right.filter fun b => on a b).map fun b => (a, b)

/-- `SELECT key, COUNT(*) .. GROUP BY key` -/
def groupCount (key : α → κ) (rows : List α) : List (κ × ℕ) :=
  (rows.map key).dedup.map fun k => (k, rows.countP fun a => key a = k)

section Join

variable {on : α → β → Prop} [∀ a b, Decidable (on a b)] {left : List α} {right : List β}

/-- Rows of which at most one meets a condition: one if there is such a row. -/
lemma countP_of_unique {p : β → Prop} [DecidablePred p] (hnodup : right.Nodup)
    (hunique : ∀ b ∈ right, ∀ b' ∈ right, p b → p b' → b = b') :
    right.countP (fun b => p b) = if ∃ b ∈ right, p b then 1 else 0 := by
  split
  · rename_i h
    obtain ⟨b, hb, hpb⟩ := h
    have heq : right.filter (fun b' => p b') = [b] := by
      have hperm : (right.filter fun b' => p b').Perm [b] := by
        rw [List.perm_ext_iff_of_nodup (hnodup.filter _) (List.nodup_singleton b)]
        intro b'
        rw [List.mem_filter, decide_eq_true_iff, List.mem_singleton]
        constructor
        · exact fun h => hunique b' h.1 b hb h.2 hpb
        · rintro rfl
          exact ⟨hb, hpb⟩
      exact List.perm_singleton.mp hperm
    rw [List.countP_eq_length_filter, heq, List.length_singleton]
  · rename_i h
    rw [List.countP_eq_zero]
    intro b hb hpb
    exact h ⟨b, hb, of_decide_eq_true hpb⟩

variable (on left right) in
/-- The pairs of a kind, counted on the left. -/
theorem countP_innerJoin (hnodup : right.Nodup)
    (hunique : ∀ a ∈ left, ∀ b ∈ right, ∀ b' ∈ right, on a b → on a b' → b = b') (kind : α → β → Prop)
    [∀ a b, Decidable (kind a b)] :
    (innerJoin on left right).countP (fun pair => kind pair.1 pair.2) =
      left.countP fun a => ∃ b ∈ right, on a b ∧ kind a b := by
  unfold innerJoin
  induction left with
  | nil => rfl
  | cons a left ih =>
    have hleft := ih fun a' ha' => hunique a' (List.mem_cons_of_mem a ha')
    have hpairs : ((right.filter fun b => on a b).map fun b => (a, b)).countP (fun pair => kind pair.1 pair.2) =
        right.countP fun b => on a b ∧ kind a b := by
      rw [List.countP_map, List.countP_filter]
      apply List.countP_congr
      intro b _
      simp [and_comm]
    have hone := countP_of_unique (p := fun b => on a b ∧ kind a b) hnodup fun b hb b' hb' h h' =>
      hunique a List.mem_cons_self b hb b' hb' h.1 h'.1
    rw [List.flatMap_cons, List.countP_append, hleft, hpairs, hone, List.countP_cons, Nat.add_comm]
    simp

end Join

section Counts

variable (key : α → κ) (rows : List α)

lemma map_fst_groupCount : (groupCount key rows).map Prod.fst = (rows.map key).dedup := by
  rw [groupCount, List.map_map]
  exact List.map_id _

variable {key rows} in
/-- Each count is that of the rows of its key, and there is no count of 0. -/
lemma mem_groupCount {k : κ} {n : ℕ} :
    (k, n) ∈ groupCount key rows ↔ n = rows.countP (fun a => key a = k) ∧ 0 < n := by
  have hpos : k ∈ rows.map key ↔ 0 < rows.countP fun a => key a = k := by
    rw [List.countP_pos_iff, List.mem_map]
    simp
  rw [groupCount, List.mem_map]
  constructor
  · rintro ⟨k', hk', heq⟩
    cases heq
    exact ⟨rfl, hpos.mp (List.mem_dedup.mp hk')⟩
  · rintro ⟨rfl, hn⟩
    exact ⟨k, List.mem_dedup.mpr (hpos.mpr hn), rfl⟩

/-- The counts add up to the rows. -/
lemma sum_groupCount : ((groupCount key rows).map Prod.snd).sum = rows.length := by
  rw [groupCount, List.map_map]
  exact sum_countP_key key (List.nodup_dedup _) fun a ha => List.mem_dedup.mpr (List.mem_map_of_mem ha)

end Counts

end Relational
