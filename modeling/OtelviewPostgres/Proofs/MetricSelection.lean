import OtelviewPostgres.Proofs.MetricBudget
import OtelviewPostgres.Relational.Traversal

/-!
# Which points a search returns

In order of time, no stored point twice, and from every series of the window a sample with
its last and, for two or more, its first point. The two samplings together leave no gap of
twice the stride, since the second drops the last but one of the points, if any.
-/

namespace OtelviewPostgres

open Relational

/-- The points a query asks for: by name, by service if one is given, and from a half-open
window of time. -/
structure MetricQueryParameters.Matches (query : MetricQueryParameters) (row : MetricRow) : Prop where
  name : row.name = query.metricName
  service : query.serviceName ≠ "" → row.service = query.serviceName
  since : ∀ ts, query.timeMin = some ts → ∃ n, timestampToNanos ts = .ok n ∧ n ≤ row.time
  before : ∀ ts, query.timeMax = some ts → ∃ n, timestampToNanos ts = .ok n ∧ row.time < n

lemma optionalNanos_eq {ts : Option Timestamp} {bound : Option Int} (h : optionalNanos ts = .ok bound)
    (q : Int → Bool) :
    bound.all q = true ↔ ∀ ts', ts = some ts' → ∃ n, timestampToNanos ts' = .ok n ∧ q n = true := by
  match ts with
  | none =>
    obtain rfl := Except.ok.inj h
    simp
  | some ts =>
    obtain ⟨n, hn, h⟩ := bind_eq_ok.mp h
    obtain rfl := Except.ok.inj h
    simp [hn]

lemma metricConditions_eq_ok {query : MetricQueryParameters} {conditions : MetricConditions}
    (h : metricConditions query = .ok conditions) :
    ∃ timeMin timeMax, optionalNanos query.timeMin = .ok timeMin ∧ optionalNanos query.timeMax = .ok timeMax ∧
      conditions = { metricName := query.metricName
                     serviceName := if query.serviceName.isEmpty then none else some query.serviceName
                     timeMin, timeMax } := by
  unfold metricConditions at h
  by_cases hname : query.metricName.isEmpty = true
  · rw [if_pos hname] at h
    cases h
  · rw [if_neg hname] at h
    obtain ⟨timeMin, hmin, h⟩ := bind_eq_ok.mp h
    obtain ⟨timeMax, hmax, h⟩ := bind_eq_ok.mp h
    exact ⟨timeMin, timeMax, hmin, hmax, (Except.ok.inj h).symm⟩

lemma holds_iff_matches {query : MetricQueryParameters} {conditions : MetricConditions}
    (h : metricConditions query = .ok conditions) (row : MetricRow) :
    conditions.holds row = true ↔ query.Matches row := by
  obtain ⟨timeMin, timeMax, hmin, hmax, rfl⟩ := metricConditions_eq_ok h
  have hservice : ((if query.serviceName.isEmpty then none else some query.serviceName).all
      (row.service == ·)) = true ↔ (query.serviceName ≠ "" → row.service = query.serviceName) := by
    by_cases hempty : query.serviceName = ""
    · simp [hempty]
    · simp [hempty]
  have hsince := optionalNanos_eq hmin fun n => n ≤ row.time
  have hbefore := optionalNanos_eq hmax fun n => row.time < n
  simp only [decide_eq_true_iff] at hsince hbefore
  rw [MetricConditions.holds, Bool.and_eq_true, Bool.and_eq_true, Bool.and_eq_true, beq_iff_eq, hservice, hsince,
    hbefore]
  constructor
  · rintro ⟨⟨⟨hname, hservice⟩, hsince⟩, hbefore⟩
    exact ⟨hname, hservice, hsince, hbefore⟩
  · rintro ⟨hname, hservice, hsince, hbefore⟩
    exact ⟨⟨⟨hname, hservice⟩, hsince⟩, hbefore⟩

/-- The second sampling doubles at most one of the gaps that the first leaves. -/
lemma downsample_stride_gap {n budget i a b : ℕ} (hbudget : 2 ≤ budget) (hn : budget < n)
    (ha : (downsample (stridePositions (n / budget + 1) n) budget)[i]? = some a)
    (hb : (downsample (stridePositions (n / budget + 1) n) budget)[i + 1]? = some b) :
    a < b ∧ b ≤ a + (2 * (n / budget + 1) - 1) := by
  have hmost := stride_count_le (by omega) hn
  have hmul : n < budget * (n / budget + 1) := Nat.lt_mul_div_succ n (by omega)
  have hstride : 2 ≤ n / budget + 1 := Nat.succ_le_succ (Nat.div_pos hn.le (by omega))
  have hlen := length_stridePositions (n / budget + 1) n
  have hdiv := Nat.div_mul_le_self (n - 2) (n / budget + 1)
  generalize n / budget + 1 = k at *
  by_cases hfit : (stridePositions k n).length ≤ budget
  · rw [downsample_of_le hfit] at ha hb
    have hgap := stridePositions_gap (by omega) (by omega) ha hb
    omega
  · have hlast : (n - 2) / k = budget - 1 := by omega
    rw [getElem?_downsample_succ (by omega) (by omega)] at ha hb
    by_cases hi : i + 1 < budget - 1
    · rw [if_pos (by omega)] at ha
      rw [if_pos hi] at hb
      have hgap := stridePositions_gap (by omega) (by omega) ha hb
      omega
    · rw [if_neg hi] at hb
      by_cases hi' : i + 1 = budget - 1
      · -- The last but one position is left out, and the gap is between its neighbours.
        rw [if_pos (by omega), getElem?_stridePositions, if_pos (by omega)] at ha
        rw [if_pos hi', getElem?_stridePositions, if_neg (by omega), if_pos (by omega)] at hb
        obtain rfl := Option.some.inj ha
        obtain rfl := Option.some.inj hb
        rw [hlast, ← hi', Nat.succ_mul] at hdiv
        have hsum : budget * k = i * k + 2 * k := by
          rw [← Nat.add_mul]
          congr 1
          omega
        omega
      · rw [if_neg hi'] at hb
        cases hb

/-- What a search returns of a series, where the order of the points of one time is open. -/
structure SeriesSample (budget : ℕ) (series returned : List StoredPoint) : Prop where
  ne_nil : returned ≠ []
  length_le : returned.length ≤ budget
  latest : ∃ q ∈ returned, ∀ q' ∈ series, q'.row.time ≤ q.row.time
  earliest : 2 ≤ budget → ∃ q ∈ returned, ∀ q' ∈ series, q.row.time ≤ q'.row.time
  whole : series.length ≤ budget → returned.Perm series
  gap : 2 ≤ budget → budget < series.length → (series.map fun q => q.row.time).Nodup →
    ∀ w : List StoredPoint, w.Perm series → w.Pairwise NotLater →
      ∀ i q q', returned[i]? = some q → returned[i + 1]? = some q' →
      ∃ a b, w[a]? = some q ∧ w[b]? = some q' ∧ a < b ∧ b ≤ a + (2 * (series.length / budget + 1) - 1)

lemma eq_of_perm_of_notLater {u v : List StoredPoint} (hperm : u.Perm v) (hu : u.Pairwise NotLater)
    (hv : v.Pairwise NotLater) (htimes : (v.map fun q => q.row.time).Nodup) : u = v := by
  have hanti : ∀ q q', q ∈ u → q' ∈ v → NotLater q q' → NotLater q' q → q = q' := by
    intro q q' hq hq' h h'
    exact List.inj_on_of_nodup_map htimes (hperm.mem_iff.mp hq) hq' (le_antisymm h h')
  exact List.Perm.eq_of_pairwise hanti hu hv hperm

lemma notLater_last {l : List StoredPoint} (hl : l.Pairwise NotLater) {q : StoredPoint} (hq : l.getLast? = some q) :
    ∀ q' ∈ l, NotLater q' q := by
  intro q' hq'
  obtain ⟨l, rfl⟩ := List.getLast?_eq_some_iff.mp hq
  rcases List.mem_append.mp hq' with hmem | hmem
  · exact (List.pairwise_append.mp hl).2.2 q' hmem q (List.mem_singleton_self q)
  · rw [List.mem_singleton.mp hmem]
    exact le_refl q.row.time

lemma first_notLater {l : List StoredPoint} (hl : l.Pairwise NotLater) {q : StoredPoint} (hq : l.head? = some q) :
    ∀ q' ∈ l, NotLater q q' := by
  intro q' hq'
  obtain ⟨l, rfl⟩ := List.head?_eq_some_iff.mp hq
  rcases List.mem_cons.mp hq' with rfl | hmem
  · exact le_refl q'.row.time
  · exact (List.pairwise_cons.mp hl).1 q' hmem

lemma getElem?_sample {budget i : ℕ} (hbudget : 0 < budget) {w : List StoredPoint} (h : budget < w.length)
    {q : StoredPoint} (hq : (downsample (survivors budget w) budget)[i]? = some q) :
    ∃ a, (downsample (stridePositions (w.length / budget + 1) w.length) budget)[i]? = some a ∧ w[a]? = some q := by
  have hmap : (downsample (survivors budget w) budget).map some =
      (downsample (stridePositions (w.length / budget + 1) w.length) budget).map fun j => w[j]? := by
    rw [← downsample_map, ← downsample_map, map_some_survivors hbudget h]
  have hget : ((downsample (survivors budget w) budget).map some)[i]? = some (some q) := by
    rw [List.getElem?_map, hq]
    rfl
  rw [hmap, List.getElem?_map, Option.map_eq_some_iff] at hget
  exact hget

lemma sample_whole {budget : ℕ} {u w series : List StoredPoint} (hperm : u.Perm (survivors budget w))
    (hseries : w.Perm series) (hfit : series.length ≤ budget) : (downsample u budget).Perm series := by
  rw [survivors_of_le (by rwa [hseries.length_eq])] at hperm
  rw [downsample_of_le (by rwa [hperm.length_eq, hseries.length_eq])]
  exact hperm.trans hseries

section Sample

variable {budget : ℕ} {u w series : List StoredPoint} (hbudget : 0 < budget)
  (hperm : u.Perm (survivors budget w)) (hu : u.Pairwise NotLater) (hw : w.Pairwise NotLater)
  (hseries : w.Perm series)

include hbudget hperm hu hw hseries

lemma sample_latest (hne : series ≠ []) :
    ∃ q ∈ downsample u budget, ∀ q' ∈ series, q'.row.time ≤ q.row.time := by
  have hwne : w ≠ [] := fun h => hne (by rw [← List.length_eq_zero_iff, ← hseries.length_eq, h, List.length_nil])
  have hlast := last_mem_survivors budget (List.getLast?_eq_some_getLast hwne)
  have hmem := hperm.mem_iff.mpr hlast
  have hune : u ≠ [] := List.ne_nil_of_mem hmem
  have hq := List.getLast?_eq_some_getLast hune
  refine ⟨u.getLast hune, ?_, fun q' hq' => ?_⟩
  · apply List.mem_of_getLast?
    rw [getLast?_downsample hbudget, hq]
  · have hle := notLater_last hw (List.getLast?_eq_some_getLast hwne) q' (hseries.mem_iff.mpr hq')
    exact le_trans hle (notLater_last hu hq _ hmem)

lemma sample_earliest (hne : series ≠ []) (htwo : 2 ≤ budget) :
    ∃ q ∈ downsample u budget, ∀ q' ∈ series, q.row.time ≤ q'.row.time := by
  have hwne : w ≠ [] := fun h => hne (by rw [← List.length_eq_zero_iff, ← hseries.length_eq, h, List.length_nil])
  have hfirst := first_mem_survivors hbudget (List.head?_eq_some_head hwne)
  have hmem := hperm.mem_iff.mpr hfirst
  have hune : u ≠ [] := List.ne_nil_of_mem hmem
  have hq := List.head?_eq_some_head hune
  refine ⟨u.head hune, ?_, fun q' hq' => ?_⟩
  · apply List.mem_of_head?
    rw [head?_downsample htwo, hq]
  · have hle := first_notLater hw (List.head?_eq_some_head hwne) q' (hseries.mem_iff.mpr hq')
    exact le_trans (first_notLater hu hq _ hmem) hle

lemma sample_gap (htwo : 2 ≤ budget) (hcut : budget < series.length)
    (htimes : (series.map fun q => q.row.time).Nodup) {w' : List StoredPoint} (hw' : w'.Perm series)
    (hsorted : w'.Pairwise NotLater) {i : ℕ} {q q' : StoredPoint} (hq : (downsample u budget)[i]? = some q)
    (hq' : (downsample u budget)[i + 1]? = some q') :
    ∃ a b, w'[a]? = some q ∧ w'[b]? = some q' ∧ a < b ∧ b ≤ a + (2 * (series.length / budget + 1) - 1) := by
  have htimes' : (w.map fun q => q.row.time).Nodup := by
    rwa [(hseries.map fun q => q.row.time).nodup_iff]
  have hwindow : w' = w := eq_of_perm_of_notLater (hw'.trans hseries.symm) hsorted hw htimes'
  have hsub := survivors_sublist budget w
  have hsurvivors : u = survivors budget w :=
    eq_of_perm_of_notLater hperm hu (hw.sublist hsub) (htimes'.sublist (hsub.map _))
  rw [← hseries.length_eq] at hcut ⊢
  rw [hsurvivors] at hq hq'
  obtain ⟨a, ha, hwa⟩ := getElem?_sample hbudget hcut hq
  obtain ⟨b, hb, hwb⟩ := getElem?_sample hbudget hcut hq'
  rw [hwindow]
  exact ⟨a, b, hwa, hwb, downsample_stride_gap htwo hcut ha hb⟩

theorem seriesSample_downsample (hne : series ≠ []) : SeriesSample budget series (downsample u budget) where
  ne_nil := by
    obtain ⟨q, hq, -⟩ := sample_latest hbudget hperm hu hw hseries hne
    exact List.ne_nil_of_mem hq
  length_le := by
    rw [length_downsample hbudget]
    exact Nat.min_le_right _ _
  latest := sample_latest hbudget hperm hu hw hseries hne
  earliest := sample_earliest hbudget hperm hu hw hseries hne
  whole := sample_whole hperm hseries
  gap htwo hcut htimes _ hw' hsorted _ _ _ :=
    sample_gap hbudget hperm hu hw hseries htwo hcut htimes hw' hsorted

end Sample

section Find

variable (env : Externals) (window order : OrderBy StoredPoint NotLater) (query : MetricQueryParameters)
  {conditions : MetricConditions} (t : MetricsTable)

lemma mem_points_iff (hconditions : metricConditions query = .ok conditions) (p : StoredPoint) :
    p ∈ conditions.points t ↔ p ∈ t.rows ∧ query.Matches p.row := by
  rw [MetricConditions.points, List.mem_filter, holds_iff_matches hconditions]

variable {env t} in
/-- Where equal attributes have equal texts, a series is one group. -/
lemma samePartition_iff_seriesKey_eq
    (htext : ∀ p ∈ t.rows, ∀ q ∈ t.rows,
      (p.row.attributes.toJsonb env.floatDigits).eqv (q.row.attributes.toJsonb env.floatDigits) = true →
        seriesAttrs env.floatDigits p = seriesAttrs env.floatDigits q)
    {p q : StoredPoint} (hp : p ∈ t.rows) (hq : q ∈ t.rows) :
    samePartition env.floatDigits p q = true ↔ seriesKey env.floatDigits q = seriesKey env.floatDigits p := by
  constructor
  · intro hsame
    obtain ⟨hservice, hattrs⟩ := (samePartition_iff env.floatDigits p q).mp hsame
    exact Prod.ext hservice.symm (htext p hp q hq hattrs).symm
  · intro hkey
    exact samePartition_of_seriesKey_eq env.floatDigits hkey.symm

/-- A search returns points it was asked for, each once, in order of time, and of every
series with such points a sample. -/
theorem selection_samples_series (hconditions : metricConditions query = .ok conditions)
    (hlimit : (sampledPoints env.floatDigits window (requestedPoints query) (conditions.points t)).length ≤
      maxMetricRows)
    (htext : ∀ p ∈ t.rows, ∀ q ∈ t.rows,
      (p.row.attributes.toJsonb env.floatDigits).eqv (q.row.attributes.toJsonb env.floatDigits) = true →
        seriesAttrs env.floatDigits p = seriesAttrs env.floatDigits q) :
    (∀ p, p ∈ conditions.points t ↔ p ∈ t.rows ∧ query.Matches p.row) ∧
      ∃ points, findPoints env none window order query t = .ok points ∧
        findMetrics env none window order query t = .ok (points.map fun p => p.row.payload) ∧
        points.Pairwise NotLater ∧
        (points.map Stored.id).Nodup ∧
        (∀ p ∈ points, p ∈ t.rows ∧ query.Matches p.row) ∧
        ∀ p ∈ conditions.points t,
          SeriesSample (requestedPoints query) (partitionOf env.floatDigits (conditions.points t) p)
            (points.filter (samePartition env.floatDigits p)) := by
  have hmem := mem_points_iff query t hconditions
  have hfind := findPoints_eq order hconditions hlimit
  refine ⟨hmem, _, hfind, findMetrics_eq hfind, ?_, ?_, ?_, ?_⟩
  · exact (order.pairwise_sort _).sublist (selectByGroup_sublist _ _)
  · exact (nodup_sampled window order _ _ conditions t).sublist ((selectByGroup_sublist _ _).map _)
  · intro p hp
    have hrow := (selectByGroup_sublist _ _).subset hp
    rw [OrderBy.mem_sort] at hrow
    exact (hmem p).mp (List.mem_filter.mp hrow).1
  · intro p hp
    have hgroup : ∀ q ∈ order.sort (sampledPoints env.floatDigits window (requestedPoints query)
        (conditions.points t)),
        samePartition env.floatDigits p q = true ↔ seriesKey env.floatDigits q = seriesKey env.floatDigits p := by
      intro q hq
      rw [OrderBy.mem_sort] at hq
      have hq' := (hmem q).mp (List.mem_filter.mp hq).1
      exact samePartition_iff_seriesKey_eq htext ((hmem p).mp hp).1 hq'.1
    rw [filter_selected_of_group hgroup]
    refine seriesSample_downsample (requestedPoints_pos query)
      (perm_survivors env.floatDigits window order _ (conditions.nodup_points t) p)
      ((order.pairwise_sort _).filter _) (window.pairwise_sort _) (window.sort_perm _) ?_
    exact List.ne_nil_of_mem (List.mem_filter.mpr ⟨hp, samePartition_self p⟩)

end Find

/-- A search for two of five points, stored in another order than that of their times. -/
theorem two_of_five_selected :
    ∃ points, findPoints .inert none (.stable NotLater) (.stable NotLater) { metricName := "m", maxPoints := 2 }
        (tableAt [3, 1, 5, 2, 4]) = .ok points ∧
      points.Pairwise NotLater ∧
      ∀ p ∈ anyTime.points (tableAt [3, 1, 5, 2, 4]),
        SeriesSample 2 (partitionOf Externals.inert.floatDigits (anyTime.points (tableAt [3, 1, 5, 2, 4])) p)
          (points.filter (samePartition Externals.inert.floatDigits p)) := by
  have hconditions : metricConditions { metricName := "m", maxPoints := 2 } = .ok anyTime := rfl
  obtain ⟨-, points, hfind, -, hsorted, -, -, hsample⟩ := selection_samples_series .inert (.stable NotLater)
    (.stable NotLater) { metricName := "m", maxPoints := 2 } (tableAt [3, 1, 5, 2, 4]) hconditions (by decide)
    (by decide)
  exact ⟨points, hfind, hsorted, hsample⟩

end OtelviewPostgres
