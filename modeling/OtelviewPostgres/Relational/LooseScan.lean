import OtelviewPostgres.Relational.OrderBy

/-!
# Recursive queries and loose index scans

`WITH RECURSIVE` evaluates a query on the rows it produced last, until there are none. A
loose index scan is such a query: it probes a column for its least value and then, over and
over, for the least value above the last one. It visits each value of the column once, which
makes it a `SELECT DISTINCT .. ORDER BY` that does not read every row.
-/

namespace Relational

/-- `WITH RECURSIVE .. UNION ALL ..`, from the rows of the first query. There is no result where
the fuel does not suffice. -/
def withRecursive {β : Type*} (step : β → List β) : ℕ → List β → Option (List β)
  | 0, _ => none
  | fuel + 1, working =>
    if working.isEmpty then some []
    else (withRecursive step fuel (working.flatMap step)).map (working ++ ·)

variable {ρ α : Type*} (lt : α → α → Prop) (column : ρ → α)

/-- `ORDER BY column` -/
def ColumnLe (r r' : ρ) : Prop := ¬ lt (column r') (column r)

/-- No bound, or below the value. -/
def Above (bound : Option α) (v : α) : Prop := ∀ u ∈ bound, lt u v

section Order

variable [IsStrictTotalOrder α lt]

instance : Std.Total (ColumnLe lt column) := ⟨fun r r' => by
  unfold ColumnLe
  rcases trichotomous_of lt (column r) (column r') with h | h | h
  · exact .inl (asymm_of lt h)
  · exact .inl (h ▸ irrefl_of lt (column r))
  · exact .inr (asymm_of lt h)⟩

instance : IsTrans ρ (ColumnLe lt column) := ⟨fun a b c (hab : ¬ lt (column b) (column a)) hbc hca => by
  rcases trichotomous_of lt (column a) (column b) with h | h | h
  · exact hbc (trans_of lt hca h)
  · exact hbc (h ▸ hca)
  · exact hab h⟩

end Order

variable [DecidableRel lt]

instance : DecidableRel (ColumnLe lt column) := fun r r' => inferInstanceAs (Decidable (¬ lt (column r') (column r)))

instance (bound : Option α) (v : α) : Decidable (Above lt bound v) :=
  match bound with
  | none => isTrue nofun
  | some u => decidable_of_iff (lt u v) (by simp [Above])

variable {lt column} (order : OrderBy ρ (ColumnLe lt column)) (rows : List ρ)

/-- `WHERE column > bound ORDER BY column LIMIT 1` -/
def probe (bound : Option α) : Option ρ := (order.sort (rows.filter fun r => Above lt bound (column r))).head?

def lateralStep (r : ρ) : List ρ := (probe order rows (some (column r))).toList

/-- The walk that joins each row with the next one. -/
def lateralWalk : Option (List ρ) :=
  withRecursive (lateralStep order rows) (rows.length + 1) (probe order rows none).toList

def scalarStep : Option α → List (Option α)
  | none => []
  | some v => [(probe order rows (some v)).map column]

/-- The walk that selects the next value as a scalar, which is null after the last one. -/
def scalarWalk : Option (List (Option α)) :=
  withRecursive (scalarStep order rows) (rows.length + 2) ((probe order rows none).toList.map fun r => some (column r))

variable (lt column) in
/-- `SELECT DISTINCT column .. ORDER BY column` -/
def selectDistinct [DecidableEq α] : List α := (rows.map column).dedup.insertionSort fun a b => ¬ lt b a

lemma withRecursive_singleton {β : Type*} (step : β → List β) (fuel : ℕ) (b : β) :
    withRecursive step (fuel + 1) [b] = (withRecursive step fuel (step b)).map (b :: ·) := by
  rw [withRecursive, List.flatMap_singleton]
  rfl

section Probe

variable {order rows} {bound : Option α} {r r' : ρ}

lemma mem_of_probe_eq_some (h : probe order rows bound = some r) : r ∈ rows ∧ Above lt bound (column r) := by
  have hmem := (order.mem_sort _ r).mp (List.mem_of_head? h)
  exact ⟨(List.mem_filter.mp hmem).1, of_decide_eq_true (List.mem_filter.mp hmem).2⟩

lemma not_above_of_probe_eq_none (h : probe order rows bound = none) (hr : r ∈ rows) : ¬ Above lt bound (column r) := by
  intro habove
  have hmem : r ∈ order.sort (rows.filter fun r => Above lt bound (column r)) :=
    (order.mem_sort _ r).mpr (List.mem_filter.mpr ⟨hr, decide_eq_true habove⟩)
  rw [List.head?_eq_none_iff.mp h] at hmem
  cases hmem

variable [IsStrictTotalOrder α lt]

/-- A probe finds the least value above the bound. -/
lemma eq_or_lt_of_probe_eq_some (h : probe order rows bound = some r) (hr' : r' ∈ rows)
    (habove : Above lt bound (column r')) : column r' = column r ∨ lt (column r) (column r') := by
  have hmem : r' ∈ order.sort (rows.filter fun r => Above lt bound (column r)) :=
    (order.mem_sort _ r').mpr (List.mem_filter.mpr ⟨hr', decide_eq_true habove⟩)
  have hsorted := order.pairwise_sort (rows.filter fun r => Above lt bound (column r))
  obtain ⟨rest, hrest⟩ := List.head?_eq_some_iff.mp h
  rw [hrest] at hmem hsorted
  rcases List.mem_cons.mp hmem with rfl | hmem
  · exact .inl rfl
  · have hle : ¬ lt (column r') (column r) := (List.pairwise_cons.mp hsorted).1 r' hmem
    rcases trichotomous_of lt (column r) (column r') with hlt | heq | hgt
    · exact .inr hlt
    · exact .inl heq.symm
    · exact absurd hgt hle

end Probe

/-- The walk above a bound: one row for each value, in ascending order. -/
structure WalkAbove (lt : α → α → Prop) (column : ρ → α) (rows : List ρ) (bound : Option α) (out : List ρ) : Prop where
  pairwise : out.Pairwise fun r r' => lt (column r) (column r')
  mem : ∀ r ∈ out, r ∈ rows ∧ Above lt bound (column r)
  complete : ∀ r ∈ rows, Above lt bound (column r) → ∃ r' ∈ out, column r' = column r

section Walk

variable {order rows} {bound : Option α} {r : ρ} {out : List ρ}

lemma walkAbove_nil (h : probe order rows bound = none) : WalkAbove lt column rows bound [] where
  pairwise := .nil
  mem := nofun
  complete _ hr habove := absurd habove (not_above_of_probe_eq_none h hr)

variable [IsStrictTotalOrder α lt]

lemma walkAbove_cons (h : probe order rows bound = some r) (hout : WalkAbove lt column rows (some (column r)) out) :
    WalkAbove lt column rows bound (r :: out) where
  pairwise := by
    rw [List.pairwise_cons]
    exact ⟨fun r' hr' => (hout.mem r' hr').2 _ rfl, hout.pairwise⟩
  mem := by
    intro r' hr'
    rcases List.mem_cons.mp hr' with rfl | hr'
    · exact mem_of_probe_eq_some h
    · refine ⟨(hout.mem r' hr').1, fun u hu => ?_⟩
      have hbound := (mem_of_probe_eq_some h).2 u hu
      exact trans_of lt hbound ((hout.mem r' hr').2 _ rfl)
  complete := by
    intro r' hr' habove
    rcases eq_or_lt_of_probe_eq_some h hr' habove with heq | hlt
    · exact ⟨r, List.mem_cons_self, heq.symm⟩
    · obtain ⟨r'', hr'', heq⟩ := hout.complete r' hr' (by rintro _ ⟨⟩; exact hlt)
      exact ⟨r'', List.mem_cons_of_mem _ hr'', heq⟩

/-- Fewer rows are above a row that was found than above the bound it was found with. -/
lemma countP_above_lt (h : probe order rows bound = some r) :
    rows.countP (fun r' => Above lt (some (column r)) (column r')) <
      rows.countP fun r' => Above lt bound (column r') := by
  obtain ⟨hr, habove⟩ := mem_of_probe_eq_some h
  have hfilter : rows.filter (fun r' => Above lt (some (column r)) (column r')) =
      (rows.filter fun r' => Above lt bound (column r')).filter fun r' => Above lt (some (column r)) (column r') := by
    rw [List.filter_filter]
    apply List.filter_congr
    intro r' _
    rw [Bool.eq_iff_iff, Bool.and_eq_true, decide_eq_true_iff, decide_eq_true_iff]
    exact ⟨fun h' => ⟨h', fun u hu => trans_of lt (habove u hu) (h' _ rfl)⟩, And.left⟩
  rw [List.countP_eq_length_filter, List.countP_eq_length_filter, hfilter, List.length_filter_lt_length_iff_exists]
  refine ⟨r, List.mem_filter.mpr ⟨hr, decide_eq_true habove⟩, ?_⟩
  rw [decide_eq_true_iff]
  exact fun hself => irrefl_of lt (column r) (hself _ rfl)

lemma withRecursive_lateral {fuel : ℕ} (hfuel : rows.countP (fun r => Above lt bound (column r)) < fuel) :
    ∃ out, withRecursive (lateralStep order rows) fuel (probe order rows bound).toList = some out ∧
      WalkAbove lt column rows bound out := by
  induction fuel generalizing bound with
  | zero => omega
  | succ fuel ih =>
    cases h : probe order rows bound with
    | none => exact ⟨[], rfl, walkAbove_nil h⟩
    | some r =>
      have hlt := countP_above_lt h
      have hfuel' : rows.countP (fun r' => Above lt (some (column r)) (column r')) < fuel := by omega
      obtain ⟨out, hrun, hout⟩ := ih hfuel'
      refine ⟨r :: out, ?_, walkAbove_cons h hout⟩
      rw [Option.toList_some, withRecursive_singleton, lateralStep, hrun, Option.map_some]

variable (order rows) in
omit [IsStrictTotalOrder α lt] in
/-- The scalar walk takes one step more, to the null. -/
lemma withRecursive_scalar (fuel : ℕ) (bound : Option α) :
    withRecursive (scalarStep order rows) (fuel + 1) [(probe order rows bound).map column] =
      (withRecursive (lateralStep order rows) fuel (probe order rows bound).toList).map
        fun out => out.map (fun r => some (column r)) ++ [none] := by
  induction fuel generalizing bound with
  | zero => rfl
  | succ fuel ih =>
    cases h : probe order rows bound with
    | none => rfl
    | some r =>
      rw [Option.map_some, Option.toList_some, withRecursive_singleton, withRecursive_singleton, scalarStep, ih,
        lateralStep, Option.map_map, Option.map_map]
      rfl

end Walk

section Results

variable [IsStrictTotalOrder α lt]

/-- The lateral walk ends with one row for each value of the column, in ascending order. -/
theorem lateralWalk_spec : ∃ out, lateralWalk order rows = some out ∧ WalkAbove lt column rows none out :=
  withRecursive_lateral (Nat.lt_succ_of_le List.countP_le_length)

lemma pairwise_selectDistinct [DecidableEq α] : (selectDistinct lt column rows).Pairwise lt := by
  have hperm : (selectDistinct lt column rows).Perm (rows.map column).dedup := List.perm_insertionSort _ _
  have hnodup : (selectDistinct lt column rows).Nodup := hperm.nodup_iff.mpr (List.nodup_dedup _)
  have hsorted : (selectDistinct lt column rows).Pairwise (ColumnLe lt id) :=
    List.pairwise_insertionSort (ColumnLe lt id) _
  refine (hsorted.and hnodup).imp fun {a b} h => ?_
  rcases trichotomous_of lt a b with hlt | heq | hgt
  · exact hlt
  · exact absurd heq h.2
  · exact absurd hgt h.1

omit [IsStrictTotalOrder α lt] in
lemma mem_selectDistinct [DecidableEq α] (v : α) : v ∈ selectDistinct lt column rows ↔ ∃ r ∈ rows, column r = v := by
  rw [selectDistinct, List.mem_insertionSort, List.mem_dedup, List.mem_map]

omit [DecidableRel lt] in
variable (lt) in
lemma eq_of_pairwise_of_mem_iff {l l' : List α} (hl : l.Pairwise lt) (hl' : l'.Pairwise lt)
    (h : ∀ v, v ∈ l ↔ v ∈ l') : l = l' := by
  have hne : ∀ {a b : α}, lt a b → a ≠ b := fun hab heq => irrefl_of lt _ (heq ▸ hab)
  have hperm : l.Perm l' := (List.perm_ext_iff_of_nodup (hl.imp hne) (hl'.imp hne)).mpr h
  exact hperm.eq_of_pairwise (fun a b _ _ hab hba => absurd hba (asymm_of lt hab)) hl hl'

/-- The scalar walk ends with the distinct values of the column in ascending order, and null
where there are any. -/
theorem scalarWalk_spec [DecidableEq α] :
    (scalarWalk order rows).map (fun vs => vs.filterMap id) = some (selectDistinct lt column rows) := by
  obtain ⟨out, hrun, hout⟩ := lateralWalk_spec order rows
  have hvalues : out.map column = selectDistinct lt column rows := by
    apply eq_of_pairwise_of_mem_iff lt (List.pairwise_map.mpr hout.pairwise) (pairwise_selectDistinct rows)
    intro v
    rw [mem_selectDistinct, List.mem_map]
    constructor
    · rintro ⟨r, hr, rfl⟩
      exact ⟨r, (hout.mem r hr).1, rfl⟩
    · rintro ⟨r, hr, rfl⟩
      exact hout.complete r hr nofun
  rw [← hvalues]
  unfold lateralWalk at hrun
  unfold scalarWalk
  cases h : probe order rows none with
  | none =>
    rw [h] at hrun
    obtain rfl := Option.some.inj hrun
    rfl
  | some r =>
    have hscalar := withRecursive_scalar order rows (rows.length + 1) none
    rw [h, Option.map_some] at hscalar
    rw [h] at hrun
    rw [Option.toList_some, List.map_singleton, hscalar, hrun]
    simp [List.filterMap_map]

lemma isSome_lateralWalk : (lateralWalk order rows).isSome := by
  obtain ⟨out, hrun, -⟩ := lateralWalk_spec order rows
  exact Option.isSome_of_eq_some hrun

lemma isSome_scalarWalk [DecidableEq α] : (scalarWalk order rows).isSome := by
  have hspec := scalarWalk_spec order rows
  cases h : scalarWalk order rows with
  | none =>
    rw [h] at hspec
    cases hspec
  | some vs => rfl

end Results

end Relational
