import Mathlib

/-!
# Every so many rows, and the last

A list of `n` rows is thinned to the rows at every `k`-th position, counted from the first,
and the last one. With `k = n / m + 1` the number that is left lies around `m`: this file
says where exactly, and how far apart neighbours are.
-/

namespace Relational

/-- The positions that stay, for two rows or more: the multiples of `k` before the last
position, and the last one. -/
def stridePositions (k n : ℕ) : List ℕ := (List.range ((n - 2) / k + 1)).map (· * k) ++ [n - 1]

lemma length_stridePositions (k n : ℕ) : (stridePositions k n).length = (n - 2) / k + 2 := by
  simp [stridePositions]

/-- Row numbers start at one, so the stride meets those that leave one. -/
lemma succ_mod_eq_one_iff {k : ℕ} (hk : 2 ≤ k) (i : ℕ) : (i + 1) % k = 1 ↔ k ∣ i := by
  constructor
  · intro h
    have hdiv := Nat.div_add_mod (i + 1) k
    rw [h] at hdiv
    exact ⟨(i + 1) / k, by omega⟩
  · rintro ⟨j, rfl⟩
    rw [Nat.mul_add_mod, Nat.mod_eq_of_lt (by omega)]

lemma mem_stridePositions {k n : ℕ} (hk : 2 ≤ k) (hn : 2 ≤ n) (i : ℕ) :
    i ∈ stridePositions k n ↔ i < n ∧ (k ∣ i ∨ i + 1 = n) := by
  have hmul : (∃ j < (n - 2) / k + 1, j * k = i) ↔ i ≤ n - 2 ∧ k ∣ i := by
    constructor
    · rintro ⟨j, hj, rfl⟩
      refine ⟨?_, Dvd.intro_left j rfl⟩
      exact (Nat.le_div_iff_mul_le (by omega)).mp (by omega)
    · rintro ⟨hi, j, rfl⟩
      refine ⟨j, ?_, Nat.mul_comm j k⟩
      have hle : j ≤ (n - 2) / k := (Nat.le_div_iff_mul_le (by omega)).mpr (by rwa [Nat.mul_comm])
      omega
  simp only [stridePositions, List.mem_append, List.mem_map, List.mem_range, List.mem_singleton, hmul]
  constructor
  · rintro (⟨hi, hdvd⟩ | rfl)
    · exact ⟨by omega, .inl hdvd⟩
    · exact ⟨by omega, .inr (by omega)⟩
  · rintro ⟨hi, hdvd | hlast⟩
    · by_cases hlast : i = n - 1
      · exact .inr hlast
      · exact .inl ⟨by omega, hdvd⟩
    · exact .inr (by omega)

lemma getElem?_stridePositions {k n i : ℕ} :
    (stridePositions k n)[i]? = if i < (n - 2) / k + 1 then some (i * k)
      else if i = (n - 2) / k + 1 then some (n - 1) else none := by
  unfold stridePositions
  rw [List.getElem?_append, List.length_map, List.length_range]
  by_cases h : i < (n - 2) / k + 1
  · rw [if_pos h, if_pos h, List.getElem?_map, List.getElem?_range h]
    rfl
  · rw [if_neg h, if_neg h]
    by_cases hi : i = (n - 2) / k + 1
    · simp [hi]
    · rw [if_neg hi, List.getElem?_singleton, if_neg (by omega)]

lemma last_gap {k n : ℕ} (hk : 0 < k) (hn : 2 ≤ n) : (n - 2) / k * k < n - 1 ∧ n - 1 ≤ (n - 2) / k * k + k := by
  have hdiv := Nat.div_add_mod (n - 2) k
  have hmod := Nat.mod_lt (n - 2) hk
  rw [Nat.mul_comm] at hdiv
  omega

lemma stridePositions_gap {k n i a b : ℕ} (hk : 0 < k) (hn : 2 ≤ n) (ha : (stridePositions k n)[i]? = some a)
    (hb : (stridePositions k n)[i + 1]? = some b) : a < b ∧ b ≤ a + k := by
  have hgap := last_gap hk hn
  rw [getElem?_stridePositions] at ha hb
  have hsucc : (i + 1) * k = i * k + k := Nat.succ_mul i k
  split at ha
  · obtain rfl := Option.some.inj ha
    split at hb
    · obtain rfl := Option.some.inj hb
      omega
    · split at hb
      · rename_i hi
        obtain rfl := Option.some.inj hb
        obtain rfl : i = (n - 2) / k := by omega
        exact hgap
      · cases hb
  · split at ha
    · split at hb
      · omega
      · split at hb
        · omega
        · cases hb
    · cases ha

lemma pairwise_stridePositions {k n : ℕ} (hk : 0 < k) (hn : 2 ≤ n) : (stridePositions k n).Pairwise (· < ·) := by
  rw [stridePositions, List.pairwise_append]
  refine ⟨?_, List.pairwise_singleton _ _, ?_⟩
  · rw [List.pairwise_map]
    exact List.pairwise_lt_range.imp fun h => Nat.mul_lt_mul_of_pos_right h hk
  · intro a ha b hb
    obtain ⟨j, hj, rfl⟩ := List.mem_map.mp ha
    obtain rfl := List.mem_singleton.mp hb
    have hle : j * k ≤ (n - 2) / k * k := Nat.mul_le_mul_right k (by have := List.mem_range.mp hj; omega)
    have hgap := last_gap hk hn
    omega

/-- The row numbers on the stride are those of the positions. -/
theorem filter_range_eq_stridePositions {k n : ℕ} (hk : 2 ≤ k) (hn : 2 ≤ n) :
    ((List.range n).filter fun i => (i + 1) % k = 1 ∨ i + 1 = n) = stridePositions k n := by
  refine (List.pairwise_lt_range.filter _).eq_of_mem_iff (pairwise_stridePositions (by omega) hn) fun i => ?_
  rw [mem_stridePositions hk hn, List.mem_filter, List.mem_range, decide_eq_true_iff, succ_mod_eq_one_iff hk]

section Count

variable {n m : ℕ} (hm : 0 < m) (hmn : m < n)

include hm hmn

/-- At most one row too many is left. -/
lemma stride_count_le : (n - 2) / (n / m + 1) + 2 ≤ m + 1 := by
  have hdiv := Nat.div_add_mod n m
  have hmod := Nat.mod_lt n hm
  have hlt : (n - 2) / (n / m + 1) < m := by
    rw [Nat.div_lt_iff_lt_mul (Nat.succ_pos _), Nat.mul_succ]
    omega
  omega

lemma le_stride_count_iff : m ≤ (n - 2) / (n / m + 1) + 2 ↔ m ≤ 2 * (n / m) + n % m := by
  have hdiv := Nat.div_add_mod n m
  have hq : 0 < n / m := Nat.div_pos hmn.le hm
  obtain rfl | ⟨p, rfl⟩ : m = 1 ∨ ∃ p, m = p + 2 := by
    rcases m with _ | _ | p
    · omega
    · exact .inl rfl
    · exact .inr ⟨p, rfl⟩
  · constructor
    · intro _
      omega
    · intro _
      exact le_add_left one_le_two
  · have hle : p ≤ (n - 2) / (n / (p + 2) + 1) ↔ p * (n / (p + 2) + 1) ≤ n - 2 :=
      Nat.le_div_iff_mul_le (Nat.succ_pos _)
    rw [Nat.add_le_add_iff_right, hle]
    generalize n / (p + 2) = q at *
    generalize n % (p + 2) = r at *
    have hexpand : (p + 2) * q = p * q + 2 * q := Nat.add_mul p 2 q
    rw [Nat.mul_succ]
    omega

lemma lt_stride_count_iff : m < (n - 2) / (n / m + 1) + 2 ↔ m < n / m + n % m := by
  have hdiv := Nat.div_add_mod n m
  have hq : 0 < n / m := Nat.div_pos hmn.le hm
  obtain ⟨p, rfl⟩ : ∃ p, m = p + 1 := ⟨m - 1, by omega⟩
  have hle : p ≤ (n - 2) / (n / (p + 1) + 1) ↔ p * (n / (p + 1) + 1) ≤ n - 2 :=
    Nat.le_div_iff_mul_le (Nat.succ_pos _)
  rw [show p + 1 < (n - 2) / (n / (p + 1) + 1) + 2 ↔ p ≤ (n - 2) / (n / (p + 1) + 1) by omega, hle]
  generalize n / (p + 1) = q at *
  generalize n % (p + 1) = r at *
  have hexpand : (p + 1) * q = p * q + q := Nat.succ_mul p q
  rw [Nat.mul_succ]
  omega

end Count

section RowNumbers

variable {ρ κ : Type*} [DecidableEq κ] {key : ρ → κ}

lemma findIdx_key_eq {w : List ρ} (hw : (w.map key).Nodup) {i : ℕ} {r : ρ} (hr : w[i]? = some r) :
    w.findIdx (fun r' => key r' == key r) = i := by
  obtain ⟨hi, rfl⟩ := List.getElem?_eq_some_iff.mp hr
  rw [List.findIdx_eq hi]
  refine ⟨by simp, fun j hj => ?_⟩
  have hne : key w[j] ≠ key w[i] := by
    intro h
    have hinj := List.nodup_iff_injective_getElem.mp hw
    have hj' : j < (w.map key).length := by
      rw [List.length_map]
      omega
    have hi' : i < (w.map key).length := by rwa [List.length_map]
    have heq : (⟨j, hj'⟩ : Fin (w.map key).length) = ⟨i, hi'⟩ := by
      apply hinj
      simpa using h
    have := congrArg Fin.val heq
    simp only at this
    omega
  simpa using hne

/-- Choosing rows by their row number is choosing positions. -/
theorem filter_rowNumber {w : List ρ} (hw : (w.map key).Nodup) (q : ℕ → Bool) :
    (w.filter fun r => q (w.findIdx fun r' => key r' == key r)) =
      ((List.range w.length).filter q).filterMap fun i => w[i]? := by
  have hidx : List.range w.length = w.zipIdx.map Prod.snd := by simp [List.range_eq_range']
  have hrows : w.filter (fun r => q (w.findIdx fun r' => key r' == key r)) =
      (w.zipIdx.filter fun p => q p.2).map Prod.fst := by
    have hfilter := List.filter_map (f := Prod.fst) (l := w.zipIdx)
      (p := fun r => q (w.findIdx fun r' => key r' == key r))
    rw [List.zipIdx_map_fst] at hfilter
    rw [hfilter]
    congr 1
    apply List.filter_congr
    intro p hp
    have hget := List.mem_zipIdx_iff_getElem?.mp hp
    rw [Function.comp_apply, findIdx_key_eq hw hget]
  rw [hrows, hidx, List.filter_map, List.filterMap_map, ← List.filterMap_eq_map]
  apply List.filterMap_congr
  intro p hp
  exact (List.mem_zipIdx_iff_getElem?.mp (List.mem_filter.mp hp).1).symm

end RowNumbers

end Relational
