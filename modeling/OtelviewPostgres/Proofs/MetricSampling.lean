import OtelviewPostgres.Proofs.Downsample
import OtelviewPostgres.Proofs.SeriesIdentity
import OtelviewPostgres.Relational.Stride

/-!
# What is left of a series

The statement keeps the first and the last point of a series and some between them, which
can be fewer than were asked for. The pass over its result, which sees the points in an
order of its own, drops at most one of these.
-/

namespace OtelviewPostgres

open Relational

/-- The points of a series, in the order of its window, whose row numbers survive. -/
def survivors (budget : ℕ) (w : List StoredPoint) : List StoredPoint :=
  ((List.range w.length).filter fun i => survives budget w.length (i + 1)).filterMap fun i => w[i]?

section Survivors

variable {budget : ℕ} {w : List StoredPoint}

lemma filterMap_getElem?_range (w : List StoredPoint) :
    ((List.range w.length).filterMap fun i => w[i]?) = w := by
  have hidx : List.range w.length = w.zipIdx.map Prod.snd := by simp [List.range_eq_range']
  have hfst := List.zipIdx_map_fst 0 w
  rw [hidx, List.filterMap_map]
  nth_rewrite 3 [← hfst]
  rw [← List.filterMap_eq_map]
  apply List.filterMap_congr
  intro p hp
  exact List.mem_zipIdx_iff_getElem?.mp hp

lemma survivors_of_le (h : w.length ≤ budget) : survivors budget w = w := by
  have hall : (List.range w.length).filter (fun i => survives budget w.length (i + 1)) = List.range w.length := by
    rw [List.filter_eq_self]
    intro i _
    simp [survives, h]
  rw [survivors, hall, filterMap_getElem?_range]

variable (hbudget : 0 < budget) (h : budget < w.length)

include hbudget h

lemma two_le_stride : 2 ≤ w.length / budget + 1 := by
  have hdiv : 0 < w.length / budget := Nat.div_pos h.le hbudget
  omega

lemma survivors_of_lt :
    survivors budget w = (stridePositions (w.length / budget + 1) w.length).filterMap fun i => w[i]? := by
  rw [survivors, ← filter_range_eq_stridePositions (two_le_stride hbudget h) (by omega)]
  congr 1
  apply List.filter_congr
  intro i _
  have hle : ¬ w.length ≤ budget := by omega
  rw [survives, decide_eq_false hle, Bool.false_or, Bool.decide_or, beq_eq_decide, beq_eq_decide]

lemma mem_survivors_iff_of_lt (p : StoredPoint) :
    p ∈ survivors budget w ↔ ∃ i, w[i]? = some p ∧ (w.length / budget + 1 ∣ i ∨ i + 1 = w.length) := by
  rw [survivors_of_lt hbudget h, List.mem_filterMap]
  constructor
  · rintro ⟨i, hi, hp⟩
    exact ⟨i, hp, ((mem_stridePositions (two_le_stride hbudget h) (by omega) i).mp hi).2⟩
  · rintro ⟨i, hp, hi⟩
    have hlt := (List.getElem?_eq_some_iff.mp hp).1
    exact ⟨i, (mem_stridePositions (two_le_stride hbudget h) (by omega) i).mpr ⟨hlt, hi⟩, hp⟩

lemma map_some_survivors :
    (survivors budget w).map some = (stridePositions (w.length / budget + 1) w.length).map fun i => w[i]? := by
  have hstride := two_le_stride hbudget h
  rw [survivors_of_lt hbudget h]
  have hsome : ∀ i ∈ stridePositions (w.length / budget + 1) w.length, (w[i]?).isSome := by
    intro i hi
    have hlt := ((mem_stridePositions hstride (by omega) i).mp hi).1
    rw [List.getElem?_eq_getElem hlt]
    rfl
  generalize stridePositions (w.length / budget + 1) w.length = is at hsome
  induction is with
  | nil => rfl
  | cons i is ih =>
    rw [List.forall_mem_cons] at hsome
    obtain ⟨x, hx⟩ := Option.isSome_iff_exists.mp hsome.1
    rw [List.filterMap_cons_some hx, List.map_cons, List.map_cons, ih hsome.2, hx]

lemma length_survivors : (survivors budget w).length = (w.length - 2) / (w.length / budget + 1) + 2 := by
  have hlen := congrArg List.length (map_some_survivors hbudget h)
  rwa [List.length_map, List.length_map, length_stridePositions] at hlen

end Survivors

lemma mem_survivors_of_getElem? {budget i : ℕ} {w : List StoredPoint} {p : StoredPoint} (hi : w[i]? = some p)
    (hsurvives : survives budget w.length (i + 1) = true) : p ∈ survivors budget w := by
  have hlt := (List.getElem?_eq_some_iff.mp hi).1
  rw [survivors, List.mem_filterMap]
  exact ⟨i, List.mem_filter.mpr ⟨List.mem_range.mpr hlt, hsurvives⟩, hi⟩

lemma first_mem_survivors {budget : ℕ} (hbudget : 0 < budget) {w : List StoredPoint} {p : StoredPoint}
    (hp : w.head? = some p) : p ∈ survivors budget w := by
  rw [List.head?_eq_getElem?] at hp
  apply mem_survivors_of_getElem? hp
  by_cases h : w.length ≤ budget
  · simp [survives, h]
  · have hstride := two_le_stride hbudget (not_le.mp h)
    simp [survives, Nat.mod_eq_of_lt (show 1 < w.length / budget + 1 by omega)]

lemma last_mem_survivors (budget : ℕ) {w : List StoredPoint} {p : StoredPoint} (hp : w.getLast? = some p) :
    p ∈ survivors budget w := by
  rw [List.getLast?_eq_getElem?] at hp
  have hlt := (List.getElem?_eq_some_iff.mp hp).1
  apply mem_survivors_of_getElem? hp
  simp [survives, show w.length - 1 + 1 = w.length by omega]

lemma survivors_sublist (budget : ℕ) (w : List StoredPoint) : (survivors budget w).Sublist w := by
  have hsub : (survivors budget w).Sublist ((List.range w.length).filterMap fun i => w[i]?) :=
    List.filter_sublist.filterMap _
  rwa [filterMap_getElem?_range] at hsub

section Partition

variable {floatDigits : F64 → Jsonb.Numeric}

@[simp] lemma samePartition_self (p : StoredPoint) : samePartition floatDigits p p = true := by
  rw [samePartition_iff]
  exact ⟨rfl, Jsonb.Value.eqv_self _⟩

lemma samePartition_symm {p q : StoredPoint} (h : samePartition floatDigits p q = true) :
    samePartition floatDigits q p = true := by
  rw [samePartition_iff] at h ⊢
  exact ⟨h.1.symm, Jsonb.Value.eqv_symm h.2⟩

lemma samePartition_trans {p q r : StoredPoint} (h : samePartition floatDigits p q = true)
    (h' : samePartition floatDigits q r = true) : samePartition floatDigits p r = true := by
  rw [samePartition_iff] at h h' ⊢
  exact ⟨h.1.trans h'.1, Jsonb.Value.eqv_trans h.2 h'.2⟩

lemma samePartition_congr {p q : StoredPoint} (h : samePartition floatDigits p q = true) (r : StoredPoint) :
    samePartition floatDigits p r = samePartition floatDigits q r := by
  rw [Bool.eq_iff_iff]
  constructor
  · intro hp
    exact samePartition_trans (samePartition_symm h) hp
  · intro hq
    exact samePartition_trans h hq

lemma partitionOf_congr {p q : StoredPoint} (h : samePartition floatDigits p q = true) (points : List StoredPoint) :
    partitionOf floatDigits points p = partitionOf floatDigits points q := by
  apply List.filter_congr
  intro r _
  exact samePartition_congr h r

variable (floatDigits) (window order : OrderBy StoredPoint NotLater) (budget : ℕ) {points : List StoredPoint}

/-- What the statement returns of a series are the survivors of its window. -/
theorem perm_survivors (hids : (points.map Stored.id).Nodup) (p : StoredPoint) :
    ((order.sort (sampledPoints floatDigits window budget points)).filter (samePartition floatDigits p)).Perm
      (survivors budget (window.sort (partitionOf floatDigits points p))) := by
  have hperm := window.sort_perm (partitionOf floatDigits points p)
  have hwindow : ((window.sort (partitionOf floatDigits points p)).map Stored.id).Nodup := by
    rw [(hperm.map Stored.id).nodup_iff]
    exact hids.sublist (List.filter_sublist.map _)
  have hseries : (sampledPoints floatDigits window budget points).filter (samePartition floatDigits p) =
      (partitionOf floatDigits points p).filter fun q =>
        survives budget (window.sort (partitionOf floatDigits points p)).length
          ((window.sort (partitionOf floatDigits points p)).findIdx (fun q' => q'.id == q.id) + 1) := by
    rw [sampledPoints, partitionOf, List.filter_filter, List.filter_filter]
    apply List.filter_congr
    intro q _
    by_cases hq : samePartition floatDigits p q = true
    · rw [hq, Bool.true_and, Bool.and_true, rowNumber, ← partitionOf_congr hq, OrderBy.length_sort]
      rfl
    · rw [Bool.eq_false_of_not_eq_true hq, Bool.false_and, Bool.and_false]
  have hstatement : ((order.sort (sampledPoints floatDigits window budget points)).filter
      (samePartition floatDigits p)).Perm
      ((sampledPoints floatDigits window budget points).filter (samePartition floatDigits p)) :=
    (order.sort_perm _).filter _
  apply hstatement.trans
  rw [hseries, survivors, ← filter_rowNumber hwindow]
  exact (hperm.filter _).symm

end Partition

end OtelviewPostgres
