import Mathlib

/-!
# Adjacent windows

Half-open windows between the points of a rising sequence. Every value between the first point and
the last one lies in exactly one of them, so what is read window by window is read once.
-/

namespace Relational

variable {α γ : Type*} [LinearOrder γ] {cut : ℕ → γ} {n : ℕ}

/-- The value lies in the `i`th window. -/
def InWindow (cut : ℕ → γ) (i : ℕ) (x : γ) : Prop := cut i ≤ x ∧ x < cut (i + 1)

instance instDecidableInWindow (cut : ℕ → γ) (i : ℕ) (x : γ) : Decidable (InWindow cut i x) :=
  inferInstanceAs (Decidable (cut i ≤ x ∧ x < cut (i + 1)))

/-- The points do not fall up to the `n`th one. -/
def RisesTo (cut : ℕ → γ) (n : ℕ) : Prop := ∀ i < n, cut i ≤ cut (i + 1)

lemma RisesTo.le (h : RisesTo cut n) {i j : ℕ} (hij : i ≤ j) (hj : j ≤ n) : cut i ≤ cut j := by
  induction j, hij using Nat.le_induction with
  | base => exact le_refl _
  | succ j _ ih => exact (ih (by omega)).trans (h j hj)

lemma RisesTo.of_succ (h : RisesTo cut (n + 1)) : RisesTo cut n := fun i hi => h i (by omega)

/-- The windows cover what is between the first point and the last one. -/
theorem RisesTo.exists_inWindow_iff (h : RisesTo cut n) (x : γ) :
    (∃ i < n, InWindow cut i x) ↔ cut 0 ≤ x ∧ x < cut n := by
  constructor
  · rintro ⟨i, hi, hstart, hstop⟩
    exact ⟨(h.le (Nat.zero_le i) hi.le).trans hstart, hstop.trans_le (h.le hi (le_refl n))⟩
  · rintro ⟨hstart, hstop⟩
    induction n with
    | zero => exact absurd hstop (not_lt.mpr hstart)
    | succ n ih =>
      by_cases hlast : x < cut n
      · obtain ⟨i, hi, hin⟩ := ih h.of_succ hlast
        exact ⟨i, by omega, hin⟩
      · exact ⟨n, by omega, not_lt.mp hlast, hstop⟩

/-- No two of the windows share a value. -/
theorem RisesTo.eq_of_inWindow (h : RisesTo cut n) {i j : ℕ} (hi : i < n) (hj : j < n) {x : γ}
    (hxi : InWindow cut i x) (hxj : InWindow cut j x) : i = j := by
  rcases lt_trichotomy i j with hlt | heq | hgt
  · exact absurd (hxi.2.trans_le (h.le hlt hj.le)) (not_lt.mpr hxj.1)
  · exact heq
  · exact absurd (hxj.2.trans_le (h.le hgt hi.le)) (not_lt.mpr hxi.1)

section Read

variable {value : α → γ} {rows : ℕ → List α}

/-- What is read window by window comes once. -/
theorem RisesTo.nodup_flatMap (h : RisesTo cut n) (hnodup : ∀ i < n, (rows i).Nodup)
    (hin : ∀ i < n, ∀ r ∈ rows i, InWindow cut i (value r)) : ((List.range n).reverse.flatMap rows).Nodup := by
  rw [List.nodup_flatMap]
  constructor
  · intro i hi
    exact hnodup i (List.mem_range.mp (List.mem_reverse.mp hi))
  · apply (List.nodup_reverse.mpr List.nodup_range).pairwise_of_forall_ne
    intro i hi j hj hne r hri hrj
    rw [List.mem_reverse, List.mem_range] at hi hj
    exact hne (h.eq_of_inWindow hi hj (hin i hi r hri) (hin j hj r hrj))

/-- Windows that are read from the last to the first, each from its end, go back all the way. -/
theorem RisesTo.pairwise_flatMap (h : RisesTo cut n)
    (hback : ∀ i < n, (rows i).Pairwise fun r r' => value r' ≤ value r)
    (hin : ∀ i < n, ∀ r ∈ rows i, InWindow cut i (value r)) :
    ((List.range n).reverse.flatMap rows).Pairwise fun r r' => value r' ≤ value r := by
  rw [List.pairwise_flatMap]
  constructor
  · intro i hi
    exact hback i (List.mem_range.mp (List.mem_reverse.mp hi))
  · rw [List.pairwise_reverse]
    apply List.pairwise_lt_range.imp_of_mem
    intro i j hi hj hlt r hr r' hr'
    rw [List.mem_range] at hi hj
    calc value r' ≤ cut (i + 1) := (hin i hi r' hr').2.le
      _ ≤ cut j := h.le hlt hj.le
      _ ≤ value r := (hin j hj r hr).1

end Read

/-- The counts of the windows add up. -/
theorem RisesTo.countP_eq_sum (h : RisesTo cut n) (p : α → Prop) [DecidablePred p] (value : α → γ) (l : List α) :
    l.countP (fun a => p a ∧ cut 0 ≤ value a ∧ value a < cut n) =
      ((List.range n).map fun i => l.countP fun a => p a ∧ InWindow cut i (value a)).sum := by
  induction n with
  | zero =>
    rw [List.countP_eq_zero.mpr fun a _ hin => ?_]
    · rfl
    · obtain ⟨-, hstart, hstop⟩ := of_decide_eq_true hin
      exact absurd hstop (not_lt.mpr hstart)
  | succ n ih =>
    have hfirst : cut 0 ≤ cut n := h.le (Nat.zero_le n) (by omega)
    have hlast : cut n ≤ cut (n + 1) := h n (by omega)
    rw [List.range_succ, List.map_append, List.sum_append, ← ih h.of_succ, List.map_singleton, List.sum_singleton,
      List.countP_eq_countP_filter_add l _ fun a => value a < cut n, List.countP_filter, List.countP_filter]
    congr 1
    · apply List.countP_congr
      intro a _
      simp only [Bool.and_eq_true, decide_eq_true_iff]
      constructor
      · rintro ⟨⟨hp, hstart, -⟩, hlt⟩
        exact ⟨hp, hstart, hlt⟩
      · rintro ⟨hp, hstart, hlt⟩
        exact ⟨⟨hp, hstart, hlt.trans_le hlast⟩, hlt⟩
    · apply List.countP_congr
      intro a _
      rw [Bool.and_eq_true, Bool.not_eq_true', decide_eq_false_iff_not, decide_eq_true_iff, decide_eq_true_iff, not_lt]
      constructor
      · rintro ⟨⟨hp, -, hstop⟩, hge⟩
        exact ⟨hp, hge, hstop⟩
      · rintro ⟨hp, hge, hstop⟩
        exact ⟨⟨hp, hfirst.trans hge, hstop⟩, hge⟩

section Extremes

variable {ι δ : Type*} [PartialOrder δ] {time : α → δ} {whole : Set α} {piece : ι → Set α} {reports : ι → Set δ} {a : δ}

/-- The least of the whole is the least of what the pieces report as theirs. -/
theorem isLeast_iUnion_reports (h : IsLeast (time '' whole) a) (hwhole : whole = ⋃ i, piece i)
    (hreported : ∀ i, (piece i).Nonempty → (reports i).Nonempty)
    (hreports : ∀ i, ∀ v ∈ reports i, IsLeast (time '' piece i) v) : IsLeast (⋃ i, reports i) a := by
  have hle : ∀ i, ∀ v ∈ reports i, a ≤ v := by
    intro i v hv
    obtain ⟨r, hr, rfl⟩ := (hreports i v hv).1
    exact h.2 ⟨r, hwhole ▸ Set.mem_iUnion_of_mem i hr, rfl⟩
  constructor
  · obtain ⟨r, hr, rfl⟩ := h.1
    rw [hwhole] at hr
    obtain ⟨i, hri⟩ := Set.mem_iUnion.mp hr
    obtain ⟨v, hv⟩ := hreported i ⟨r, hri⟩
    have heq : v = time r := le_antisymm ((hreports i v hv).2 ⟨r, hri, rfl⟩) (hle i v hv)
    exact Set.mem_iUnion_of_mem i (heq ▸ hv)
  · intro v hv
    obtain ⟨i, hvi⟩ := Set.mem_iUnion.mp hv
    exact hle i v hvi

theorem isGreatest_iUnion_reports (h : IsGreatest (time '' whole) a) (hwhole : whole = ⋃ i, piece i)
    (hreported : ∀ i, (piece i).Nonempty → (reports i).Nonempty)
    (hreports : ∀ i, ∀ v ∈ reports i, IsGreatest (time '' piece i) v) : IsGreatest (⋃ i, reports i) a :=
  isLeast_iUnion_reports (δ := δᵒᵈ) h hwhole hreported hreports

end Extremes

end Relational
