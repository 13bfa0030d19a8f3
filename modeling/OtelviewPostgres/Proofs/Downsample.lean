import OtelviewPostgres.Model.MetricSearch

/-!
# The evenly spaced sample

`downsample` looks at positions only, returns a subsequence of the length it is asked for,
keeps the last element and, for two or more, the first. The positions are spaced as evenly as
whole numbers allow. From one element too many it drops the last but one.
-/

namespace OtelviewPostgres

open Relational

variable {α β : Type} {l : List α} {m : ℕ}

lemma downsample_of_le (h : l.length ≤ m) : downsample l m = l := dif_pos (.inl h)

lemma downsample_one (h : 1 < l.length) : downsample l 1 = [l.getLast (List.ne_nil_of_length_pos (by omega))] := by
  rw [downsample, dif_neg (by omega), dif_pos rfl]

lemma getElem?_downsample (hm : 1 < m) (hl : m < l.length) (i : ℕ) :
    (downsample l m)[i]? = if i < m then l[i * (l.length - 1) / (m - 1)]? else none := by
  rw [downsample, dif_neg (by omega), dif_neg (by omega), List.getElem?_map]
  by_cases hi : i < m
  · have hget : (List.finRange m)[i]? = some ⟨i, hi⟩ := by
      rw [List.getElem?_eq_getElem (by rwa [List.length_finRange]), List.getElem_finRange]
      rfl
    have hlt : i * (l.length - 1) / (m - 1) < l.length := downsample_index_lt hm (by omega) ⟨i, hi⟩
    rw [hget, if_pos hi, List.getElem?_eq_getElem hlt]
    rfl
  · rw [if_neg hi, List.getElem?_eq_none (by rwa [List.length_finRange, ← not_lt])]
    rfl

lemma length_downsample (hm : 0 < m) : (downsample l m).length = min l.length m := by
  by_cases h : l.length ≤ m
  · rw [downsample_of_le h]
    omega
  · by_cases h1 : m = 1
    · subst h1
      rw [downsample_one (by omega), List.length_singleton]
      omega
    · rw [downsample, dif_neg (by omega), dif_neg h1, List.length_map, List.length_finRange]
      omega

lemma downsample_map (g : α → β) (l : List α) (m : ℕ) : downsample (l.map g) m = (downsample l m).map g := by
  have hlen : (l.map g).length = l.length := List.length_map g
  rcases Nat.eq_zero_or_pos m with rfl | hm
  · rw [downsample, dif_pos (.inr rfl), downsample, dif_pos (.inr rfl)]
  · by_cases h : l.length ≤ m
    · rw [downsample_of_le h, downsample_of_le (by omega)]
    · by_cases h1 : m = 1
      · subst h1
        rw [downsample_one (by omega), downsample_one (by omega), List.getLast_map]
        rfl
      · apply List.ext_getElem?
        intro i
        rw [List.getElem?_map, getElem?_downsample (by omega) (by omega),
          getElem?_downsample (by omega) (by omega), hlen]
        by_cases hi : i < m
        · rw [if_pos hi, if_pos hi, List.getElem?_map]
        · rw [if_neg hi, if_neg hi]
          rfl

lemma downsample_index_strictMono {n i j : ℕ} (hm : 1 < m) (hn : m < n) (hij : i < j) :
    i * (n - 1) / (m - 1) < j * (n - 1) / (m - 1) := by
  have hpos : 0 < m - 1 := by omega
  have hstep : i * (n - 1) + (m - 1) ≤ j * (n - 1) := by
    have hsucc : (i + 1) * (n - 1) ≤ j * (n - 1) := Nat.mul_le_mul_right (n - 1) hij
    rw [Nat.succ_mul] at hsucc
    omega
  have hdiv : (i * (n - 1) + (m - 1)) / (m - 1) ≤ j * (n - 1) / (m - 1) := Nat.div_le_div_right hstep
  rw [Nat.add_div_right _ hpos] at hdiv
  omega

theorem downsample_sublist (l : List α) (m : ℕ) : (downsample l m).Sublist l := by
  rcases Nat.eq_zero_or_pos m with rfl | hm
  · rw [downsample, dif_pos (.inr rfl)]
  · by_cases h : l.length ≤ m
    · rw [downsample_of_le h]
    · by_cases h1 : m = 1
      · subst h1
        rw [downsample_one (by omega), List.singleton_sublist]
        exact List.getLast_mem _
      · rw [downsample, dif_neg (by omega), dif_neg h1]
        have hincreasing : ((List.finRange m).map fun (i : Fin m) => (⟨(i : ℕ) * (l.length - 1) / (m - 1),
            downsample_index_lt (by omega) (by omega) i⟩ : Fin l.length)).Pairwise (· < ·) := by
          rw [List.pairwise_map]
          exact (List.pairwise_lt_finRange m).imp fun hij =>
            downsample_index_strictMono (by omega) (by omega) hij
        have hsub := List.map_getElem_sublist hincreasing
        rw [List.map_map] at hsub
        exact hsub

/-- The pass over one series, as a selection by position. -/
def downsampler (m : ℕ) : Sampler where
  sample l := downsample l m
  sample_map g l := downsample_map g l m
  sample_sublist l := downsample_sublist l m

lemma getLast?_downsample (hm : 0 < m) (l : List α) : (downsample l m).getLast? = l.getLast? := by
  by_cases h : l.length ≤ m
  · rw [downsample_of_le h]
  · by_cases h1 : m = 1
    · subst h1
      rw [downsample_one (by omega), List.getLast?_singleton, List.getLast?_eq_some_getLast]
    · rw [List.getLast?_eq_getElem?, length_downsample hm, getElem?_downsample (by omega) (by omega),
        if_pos (by omega), List.getLast?_eq_getElem?, Nat.min_eq_right (by omega),
        Nat.mul_div_cancel_left _ (by omega)]

lemma head?_downsample (hm : 1 < m) (l : List α) : (downsample l m).head? = l.head? := by
  by_cases h : l.length ≤ m
  · rw [downsample_of_le h]
  · rw [List.head?_eq_getElem?, getElem?_downsample hm (by omega), if_pos (by omega), List.head?_eq_getElem?,
      Nat.zero_mul, Nat.zero_div]

/-- From one element too many the last but one is dropped. -/
lemma getElem?_downsample_succ (hm : 1 < m) (hl : l.length = m + 1) (i : ℕ) :
    (downsample l m)[i]? = if i < m - 1 then l[i]? else if i = m - 1 then l[m]? else none := by
  have hdiv : i * m / (m - 1) = i + i / (m - 1) := by
    obtain ⟨k, rfl⟩ : ∃ k, m = k + 1 := ⟨m - 1, by omega⟩
    rw [Nat.add_sub_cancel, Nat.mul_succ, Nat.add_comm, Nat.add_mul_div_right _ _ (by omega), Nat.add_comm]
  rw [getElem?_downsample hm (by omega), hl, Nat.add_sub_cancel, hdiv]
  by_cases h : i < m - 1
  · rw [if_pos h, if_pos (by omega), Nat.div_eq_of_lt h, Nat.add_zero]
  · rw [if_neg h]
    by_cases hi : i = m - 1
    · rw [if_pos hi, if_pos (by omega), hi, Nat.div_self (by omega), Nat.sub_add_cancel (by omega)]
    · rw [if_neg hi, if_neg (by omega)]

lemma ceilDiv_of_mod_pos {a b : ℕ} (hb : 0 < b) (h : 0 < a % b) : a ⌈/⌉ b = a / b + 1 := by
  have hdiv := Nat.div_add_mod a b
  have hmod := Nat.mod_lt a hb
  have hmul : (a / b + 1) * b = b * (a / b) + b := by rw [Nat.succ_mul, Nat.mul_comm]
  rw [Nat.ceilDiv_eq_add_pred_div]
  apply Nat.div_eq_of_lt_le
  · omega
  · rw [Nat.succ_mul]
    omega

/-- From one position to the next it is the step, rounded down or up. -/
lemma downsample_index_gap {a b : ℕ} (hb : 0 < b) (i : ℕ) :
    (i + 1) * a / b = i * a / b + a / b ∨ (i + 1) * a / b = i * a / b + a ⌈/⌉ b := by
  have hstep : (i + 1) * a / b = i * a / b + a / b + if b ≤ i * a % b + a % b then 1 else 0 := by
    rw [Nat.succ_mul, Nat.add_div hb]
  by_cases hcarry : b ≤ i * a % b + a % b
  · right
    have hmod := Nat.mod_lt (i * a) hb
    rw [hstep, if_pos hcarry, ceilDiv_of_mod_pos hb (by omega), Nat.add_assoc]
  · left
    rw [hstep, if_neg hcarry, Nat.add_zero]

/-- A search downsamples at most `maxMetricRows` rows, and no product reaches the end of `usize`. -/
theorem downsample_product_lt (rows : List α) (q : α → Bool) {i : ℕ} (hi : i < m)
    (hm : m < ((rows.take maxMetricRows).filter q).length) :
    i * (((rows.take maxMetricRows).filter q).length - 1) < 2 ^ 64 := by
  have hfilter := List.length_filter_le q (rows.take maxMetricRows)
  have htake : (rows.take maxMetricRows).length ≤ maxMetricRows := List.length_take_le _ _
  have hrows : ((rows.take maxMetricRows).filter q).length ≤ maxMetricRows := hfilter.trans htake
  have hbound : maxMetricRows * maxMetricRows < 2 ^ 64 := by decide
  have hproduct : i * (((rows.take maxMetricRows).filter q).length - 1) ≤ maxMetricRows * maxMetricRows := by
    apply Nat.mul_le_mul
    · omega
    · omega
  omega

/-- A sample of `m` elements: in order and without repetition, with both ends, and with neighbours
that are as far apart in the list as the numbers say, rounded down or up. -/
structure EvenSample [DecidableEq α] (l : List α) (m : ℕ) (sample : List α) : Prop where
  length_eq : sample.length = min l.length m
  sublist : sample.Sublist l
  nodup : sample.Nodup
  whole : l.length ≤ m → sample = l
  last : sample.getLast? = l.getLast?
  first : 2 ≤ m → sample.head? = l.head?
  gap : 2 ≤ m → m < l.length → ∀ i x y, sample[i]? = some x → sample[i + 1]? = some y →
    l.idxOf y = l.idxOf x + (l.length - 1) / (m - 1) ∨ l.idxOf y = l.idxOf x + (l.length - 1) ⌈/⌉ (m - 1)

section EvenSample

variable [DecidableEq α]

lemma idxOf_of_getElem?_downsample (hl : l.Nodup) (hm : 1 < m) (hlen : m < l.length) {i : ℕ} {x : α}
    (hx : (downsample l m)[i]? = some x) : l.idxOf x = i * (l.length - 1) / (m - 1) := by
  rw [getElem?_downsample hm hlen] at hx
  split at hx
  · obtain ⟨hlt, rfl⟩ := List.getElem?_eq_some_iff.mp hx
    exact hl.idxOf_getElem _ hlt
  · cases hx

theorem downsample_evenSample (hl : l.Nodup) (hm : 1 ≤ m) : EvenSample l m (downsample l m) where
  length_eq := length_downsample hm
  sublist := downsample_sublist l m
  nodup := hl.sublist (downsample_sublist l m)
  whole := downsample_of_le
  last := getLast?_downsample hm l
  first h := head?_downsample h l
  gap h hlen i x y hx hy := by
    rw [idxOf_of_getElem?_downsample hl h hlen hx, idxOf_of_getElem?_downsample hl h hlen hy]
    exact downsample_index_gap (by omega) i

/-- Five of ten, with a last step that is rounded up. -/
theorem downsample_evenSample_five_of_ten :
    (List.range 10).Nodup ∧ downsample (List.range 10) 5 = [0, 2, 4, 6, 9] ∧
      EvenSample (List.range 10) 5 (downsample (List.range 10) 5) :=
  ⟨by decide, by decide, downsample_evenSample (by decide) (by decide)⟩

end EvenSample

end OtelviewPostgres
