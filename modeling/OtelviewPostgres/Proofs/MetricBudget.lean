import OtelviewPostgres.Proofs.MetricSampling

/-!
# The point budget

A series with more points than were asked for comes back with exactly the number asked for,
if the statement leaves that many, and if it leaves no more or leaves one group. The
statement can leave fewer, which nothing after it can repair.
-/

namespace OtelviewPostgres

open Relational

lemma requestedPoints_pos (query : MetricQueryParameters) : 0 < requestedPoints query := by
  unfold requestedPoints
  by_cases h : query.maxPoints ≤ 0
  · rw [if_pos h]
    decide
  · rw [if_neg h]
    have hpos : (0 : Int32) < query.maxPoints := Int32.not_le.mp h
    rw [Int32.lt_iff_toInt_lt] at hpos
    have hzero : (0 : Int32).toInt = 0 := rfl
    omega

/-- The points of the queried window. -/
def MetricConditions.points (conditions : MetricConditions) (t : MetricsTable) : List StoredPoint :=
  t.rows.filter fun p => conditions.holds p.row

lemma MetricConditions.nodup_points (conditions : MetricConditions) (t : MetricsTable) :
    ((conditions.points t).map Stored.id).Nodup :=
  t.nodup_keys.sublist (List.filter_sublist.map _)

section Selected

variable (floatDigits : F64 → Jsonb.Numeric) (budget : ℕ)

/-- The rows that the pass keeps. -/
def selected (rows : List StoredPoint) : List StoredPoint :=
  selectByGroup (seriesKey floatDigits) (downsampler budget).sample rows

variable {floatDigits budget} {rows : List StoredPoint} {p : StoredPoint}

/-- A series that is one group is sampled as one. -/
lemma filter_selected_of_group {k : String × String}
    (hgroup : ∀ q ∈ rows, samePartition floatDigits p q = true ↔ seriesKey floatDigits q = k) :
    (selected floatDigits budget rows).filter (samePartition floatDigits p) =
      downsample (rows.filter (samePartition floatDigits p)) budget := by
  have hrows : rows.filter (samePartition floatDigits p) = rows.filter fun q => seriesKey floatDigits q = k := by
    apply List.filter_congr
    intro q hq
    rw [Bool.eq_iff_iff, decide_eq_true_iff]
    exact hgroup q hq
  have hselected : (selected floatDigits budget rows).filter (samePartition floatDigits p) =
      (selected floatDigits budget rows).filter fun q => seriesKey floatDigits q = k := by
    apply List.filter_congr
    intro q hq
    rw [Bool.eq_iff_iff, decide_eq_true_iff]
    exact hgroup q ((selectByGroup_sublist _ rows).subset hq)
  rw [hrows, hselected]
  exact filter_selectByGroup _ (downsampler budget) rows k

lemma filter_group_eq {q : StoredPoint} (hq : samePartition floatDigits p q = true) :
    rows.filter (fun r => seriesKey floatDigits r = seriesKey floatDigits q) =
      (rows.filter (samePartition floatDigits p)).filter
        fun r => seriesKey floatDigits r = seriesKey floatDigits q := by
  rw [List.filter_filter]
  apply List.filter_congr
  intro r _
  by_cases hr : seriesKey floatDigits r = seriesKey floatDigits q
  · have hsame := samePartition_trans hq (samePartition_of_seriesKey_eq floatDigits hr.symm)
    rw [hsame, Bool.and_true]
  · rw [decide_eq_false hr, Bool.false_and]

lemma filter_selected_of_groups_le (hrows : rows.Nodup)
    (hgroups : ∀ q ∈ rows, samePartition floatDigits p q = true →
      ((rows.filter (samePartition floatDigits p)).filter
        fun r => seriesKey floatDigits r = seriesKey floatDigits q).length ≤ budget) :
    (selected floatDigits budget rows).filter (samePartition floatDigits p) =
      rows.filter (samePartition floatDigits p) := by
  apply filter_selectByGroup_eq_self _ (downsampler budget) hrows
  intro q hmem hq
  rw [filter_group_eq hq]
  exact downsample_of_le (hgroups q hmem hq)

lemma filter_selected_of_le (hrows : rows.Nodup) (h : (rows.filter (samePartition floatDigits p)).length ≤ budget) :
    (selected floatDigits budget rows).filter (samePartition floatDigits p) =
      rows.filter (samePartition floatDigits p) := by
  apply filter_selected_of_groups_le hrows
  intro q _ _
  exact (List.length_filter_le _ _).trans h

/-- One row too many is not dropped where the rows are in more than one group. -/
lemma filter_selected_of_two_groups (hrows : rows.Nodup)
    (h : (rows.filter (samePartition floatDigits p)).length ≤ budget + 1)
    (hgroups : ¬ ∃ k, ∀ q ∈ rows.filter (samePartition floatDigits p), seriesKey floatDigits q = k) :
    (selected floatDigits budget rows).filter (samePartition floatDigits p) =
      rows.filter (samePartition floatDigits p) := by
  apply filter_selected_of_groups_le hrows
  intro q _ _
  push Not at hgroups
  have hlt : ((rows.filter (samePartition floatDigits p)).filter
      fun r => seriesKey floatDigits r = seriesKey floatDigits q).length <
      (rows.filter (samePartition floatDigits p)).length := by
    rw [List.length_filter_lt_length_iff_exists]
    obtain ⟨r, hr, hne⟩ := hgroups (seriesKey floatDigits q)
    exact ⟨r, hr, by simpa using hne⟩
  omega

lemma filter_selected_of_one_group
    (hgroup : ∃ k, ∀ q ∈ rows.filter (samePartition floatDigits p), seriesKey floatDigits q = k)
    (hne : rows.filter (samePartition floatDigits p) ≠ []) :
    (selected floatDigits budget rows).filter (samePartition floatDigits p) =
      downsample (rows.filter (samePartition floatDigits p)) budget := by
  obtain ⟨k, hk⟩ := hgroup
  obtain ⟨r, hr⟩ := List.exists_mem_of_ne_nil _ hne
  apply filter_selected_of_group (k := k)
  intro q hq
  constructor
  · intro hsame
    exact hk q (List.mem_filter.mpr ⟨hq, hsame⟩)
  · intro hkey
    have hrq : seriesKey floatDigits r = seriesKey floatDigits q := (hk r hr).trans hkey.symm
    exact samePartition_trans (List.mem_filter.mp hr).2 (samePartition_of_seriesKey_eq floatDigits hrq)

end Selected

/-- A series of `n` points, given in the order of its window, that fits the budget; or of
which the stride leaves as many as the budget; or of which it leaves one more, all with
attributes of one text. -/
def StrideMeetsBudget (floatDigits : F64 → Jsonb.Numeric) (budget : ℕ) (series : List StoredPoint) : Prop :=
  let n := series.length
  n ≤ budget ∨
    (n / budget + n % budget ≤ budget ∧ budget ≤ 2 * (n / budget) + n % budget) ∨
    (budget < n / budget + n % budget ∧
      ∀ i j p q, series[i]? = some p → series[j]? = some q →
        (n / budget + 1 ∣ i ∨ i + 1 = n) → (n / budget + 1 ∣ j ∨ j + 1 = n) →
          seriesAttrs floatDigits p = seriesAttrs floatDigits q)

section Series

variable {floatDigits : F64 → Jsonb.Numeric} {budget : ℕ} {rows w : List StoredPoint} {p : StoredPoint}
  (hperm : (rows.filter (samePartition floatDigits p)).Perm (survivors budget w))

include hperm

lemma one_group_iff (hbudget : 0 < budget) (h : budget < w.length) :
    (∃ k, ∀ q ∈ rows.filter (samePartition floatDigits p), seriesKey floatDigits q = k) ↔
      ∀ i j q q', w[i]? = some q → w[j]? = some q' →
        (w.length / budget + 1 ∣ i ∨ i + 1 = w.length) → (w.length / budget + 1 ∣ j ∨ j + 1 = w.length) →
          seriesAttrs floatDigits q = seriesAttrs floatDigits q' := by
  have hrow : ∀ q, q ∈ rows.filter (samePartition floatDigits p) ↔
      ∃ i, w[i]? = some q ∧ (w.length / budget + 1 ∣ i ∨ i + 1 = w.length) := by
    intro q
    rw [hperm.mem_iff, mem_survivors_iff_of_lt hbudget h]
  constructor
  · rintro ⟨k, hk⟩ i j q q' hi hj hi' hj'
    have hq := hk q ((hrow q).mpr ⟨i, hi, hi'⟩)
    have hq' := hk q' ((hrow q').mpr ⟨j, hj, hj'⟩)
    exact congrArg Prod.snd (hq.trans hq'.symm)
  · intro htext
    obtain ⟨q, hq⟩ : ∃ q, w[0]? = some q := ⟨w[0], List.getElem?_eq_getElem (by omega)⟩
    have hfirst := (hrow q).mpr ⟨0, hq, .inl (dvd_zero _)⟩
    refine ⟨seriesKey floatDigits q, fun q' hq' => ?_⟩
    obtain ⟨j, hj, hj'⟩ := (hrow q').mp hq'
    have hsame := samePartition_trans (samePartition_symm (List.mem_filter.mp hq').2) (List.mem_filter.mp hfirst).2
    have hattrs := htext j 0 q' q hj hq hj' (.inl (dvd_zero _))
    exact Prod.ext ((samePartition_iff floatDigits q' q).mp hsame).1 hattrs

/-- Where nothing is dropped, as many points come back as the stride leaves. -/
lemma countP_selected_iff_of_fit (hbudget : 0 < budget) (hrows : rows.Nodup) (h : budget < w.length)
    (hfit : (w.length - 2) / (w.length / budget + 1) + 2 ≤ budget) :
    (selected floatDigits budget rows).countP (samePartition floatDigits p) = budget ↔
      StrideMeetsBudget floatDigits budget w := by
  have hlen := hperm.length_eq
  rw [length_survivors hbudget h] at hlen
  have hleast := le_stride_count_iff hbudget h
  have hmore := lt_stride_count_iff hbudget h
  rw [List.countP_eq_length_filter, StrideMeetsBudget, filter_selected_of_le hrows (by omega), hlen]
  constructor
  · intro heq
    exact .inr (.inl ⟨by omega, hleast.mp heq.ge⟩)
  · rintro (hle | ⟨-, hle⟩ | ⟨hlt, -⟩)
    · omega
    · have hge := hleast.mpr hle
      omega
    · omega

/-- Where the stride leaves one point too many, it is dropped if all are in one group. -/
lemma countP_selected_iff_of_extra (hbudget : 0 < budget) (hrows : rows.Nodup) (h : budget < w.length)
    (hextra : budget < (w.length - 2) / (w.length / budget + 1) + 2) :
    (selected floatDigits budget rows).countP (samePartition floatDigits p) = budget ↔
      StrideMeetsBudget floatDigits budget w := by
  have hlen := hperm.length_eq
  rw [length_survivors hbudget h] at hlen
  have hmost := stride_count_le hbudget h
  have hmore := (lt_stride_count_iff hbudget h).mp hextra
  rw [List.countP_eq_length_filter, StrideMeetsBudget]
  by_cases hgroup : ∃ k, ∀ q ∈ rows.filter (samePartition floatDigits p), seriesKey floatDigits q = k
  · rw [filter_selected_of_one_group hgroup (List.ne_nil_of_length_pos (by omega)), length_downsample hbudget,
      hlen, Nat.min_eq_right (by omega)]
    exact iff_of_true rfl (.inr (.inr ⟨hmore, (one_group_iff hperm hbudget h).mp hgroup⟩))
  · rw [filter_selected_of_two_groups hrows (by omega) hgroup, hlen]
    apply iff_of_false (by omega)
    rintro (hle | ⟨hle, -⟩ | ⟨-, htext⟩)
    · omega
    · omega
    · exact hgroup ((one_group_iff hperm hbudget h).mpr htext)

/-- A series contributes what it should exactly when the stride meets the budget. -/
theorem countP_selected_iff (hbudget : 0 < budget) (hrows : rows.Nodup) :
    (selected floatDigits budget rows).countP (samePartition floatDigits p) = min w.length budget ↔
      StrideMeetsBudget floatDigits budget w := by
  by_cases h : w.length ≤ budget
  · have hlen := hperm.length_eq
    rw [survivors_of_le h] at hlen
    rw [List.countP_eq_length_filter, filter_selected_of_le hrows (by omega), hlen, Nat.min_eq_left h]
    exact iff_of_true rfl (.inl h)
  · have hlt : budget < w.length := not_le.mp h
    rw [Nat.min_eq_right hlt.le]
    by_cases hfit : (w.length - 2) / (w.length / budget + 1) + 2 ≤ budget
    · exact countP_selected_iff_of_fit hperm hbudget hrows hlt hfit
    · exact countP_selected_iff_of_extra hperm hbudget hrows hlt (not_le.mp hfit)

end Series

section Find

variable {env : Externals} {window order : OrderBy StoredPoint NotLater} {query : MetricQueryParameters}
  {conditions : MetricConditions} {t : MetricsTable}

variable (window) in
/-- The statement samples no series that is within the budget. -/
lemma sampledPoints_of_fit {budget : ℕ} {points : List StoredPoint}
    (h : ∀ p ∈ points, (partitionOf env.floatDigits points p).length ≤ budget) :
    sampledPoints env.floatDigits window budget points = points := by
  apply List.filter_eq_self.mpr
  intro p hp
  rw [survives, decide_eq_true (h p hp), Bool.true_or, Bool.true_or]

/-- Neither does the pass over its rows. -/
lemma selected_of_fit {budget : ℕ} {points rows : List StoredPoint} (hperm : rows.Perm points) (hrows : rows.Nodup)
    (h : ∀ p ∈ points, (partitionOf env.floatDigits points p).length ≤ budget) :
    selected env.floatDigits budget rows = rows := by
  have hgroups : ∀ q ∈ rows, (rows.filter fun r => seriesKey env.floatDigits r = seriesKey env.floatDigits q).length ≤
      budget := by
    intro q hq
    refine le_trans ?_ (h q (hperm.mem_iff.mp hq))
    rw [partitionOf, ← (hperm.filter _).length_eq, ← List.countP_eq_length_filter, ← List.countP_eq_length_filter]
    apply List.countP_mono_left
    intro r _ hr
    exact samePartition_of_seriesKey_eq env.floatDigits (of_decide_eq_true hr).symm
  have hall := filter_selectByGroup_eq_self (seriesKey env.floatDigits) (downsampler budget) (q := fun _ => true) hrows
    fun q hq _ => downsample_of_le (hgroups q hq)
  rwa [List.filter_eq_self.mpr fun _ _ => rfl, List.filter_eq_self.mpr fun _ _ => rfl] at hall

variable (env window order t) in
lemma findPoints_eq_selected (hconditions : metricConditions query = .ok conditions) :
    findPoints env none window order query t = .ok (selected env.floatDigits (requestedPoints query)
      (metricRows env window order (requestedPoints query) conditions t)) := by
  rw [findPoints, hconditions]
  rfl

variable (order) in
/-- A search returns what the pass keeps of the sampled points, as long as these are within
the limit of the statement. -/
lemma findPoints_eq (hconditions : metricConditions query = .ok conditions)
    (hlimit : (sampledPoints env.floatDigits window (requestedPoints query) (conditions.points t)).length ≤
      maxMetricRows) :
    findPoints env none window order query t = .ok (selected env.floatDigits (requestedPoints query)
      (order.sort (sampledPoints env.floatDigits window (requestedPoints query) (conditions.points t)))) := by
  have hrows : metricRows env window order (requestedPoints query) conditions t =
      order.sort (sampledPoints env.floatDigits window (requestedPoints query) (conditions.points t)) := by
    apply List.take_of_length_le
    rw [OrderBy.length_sort]
    exact hlimit
  rw [findPoints_eq_selected env window order t hconditions, hrows]

lemma findMetrics_eq {points : List StoredPoint} (h : findPoints env none window order query t = .ok points) :
    findMetrics env none window order query t = .ok (points.map fun p => p.row.payload) := by
  rw [findMetrics, h]
  rfl

variable (env window conditions t) in
/-- The points of the series of `p`, in the order of its window. -/
def seriesOf (p : StoredPoint) : List StoredPoint :=
  window.sort (partitionOf env.floatDigits (conditions.points t) p)

lemma nodup_sampled (window order : OrderBy StoredPoint NotLater) (floatDigits : F64 → Jsonb.Numeric) (budget : ℕ)
    (conditions : MetricConditions) (t : MetricsTable) :
    ((order.sort (sampledPoints floatDigits window budget (conditions.points t))).map Stored.id).Nodup := by
  rw [((order.sort_perm _).map Stored.id).nodup_iff]
  exact (conditions.nodup_points t).sublist (List.filter_sublist.map _)

variable (env window order query t) in
/-- A series of the window contributes as many points as it has, up to the budget, exactly
when the stride meets the budget. -/
theorem budget_filled_iff (hconditions : metricConditions query = .ok conditions)
    (hlimit : (sampledPoints env.floatDigits window (requestedPoints query) (conditions.points t)).length ≤
      maxMetricRows) :
    ∃ points, findPoints env none window order query t = .ok points ∧
      findMetrics env none window order query t = .ok (points.map fun p => p.row.payload) ∧
      ∀ p ∈ conditions.points t,
        points.countP (samePartition env.floatDigits p) =
            min (seriesOf env window conditions t p).length (requestedPoints query) ↔
          StrideMeetsBudget env.floatDigits (requestedPoints query) (seriesOf env window conditions t p) := by
  have hfind := findPoints_eq order hconditions hlimit
  refine ⟨_, hfind, findMetrics_eq hfind, fun p _ => ?_⟩
  have hids := nodup_sampled window order env.floatDigits (requestedPoints query) conditions t
  have hperm := perm_survivors env.floatDigits window order (requestedPoints query) (conditions.nodup_points t) p
  exact countP_selected_iff hperm (requestedPoints_pos query) hids.of_map

end Find

/-- A gauge with one point at each of the times. -/
def gaugeAt (times : List UInt64) : MetricsData where
  resourceMetrics := [{ scopeMetrics := [{ metrics := [{
    name := "m"
    data := some (.gauge { dataPoints := times.map fun time => { timeUnixNano := time } }) }] }] }]

/-- The table after one export of such a gauge. -/
def tableAt (times : List UInt64) : MetricsTable := (writeMetrics .inert {} (gaugeAt times) ∅).2

def anyTime : MetricConditions := { metricName := "m", serviceName := none, timeMin := none, timeMax := none }

/-- Ten points, of which four are asked for, come back as four. -/
theorem four_of_ten :
    ∃ points, findPoints .inert none (.stable NotLater) (.stable NotLater) { metricName := "m", maxPoints := 4 }
        (tableAt [1, 2, 3, 4, 5, 6, 7, 8, 9, 10]) = .ok points ∧
      ∀ p ∈ anyTime.points (tableAt [1, 2, 3, 4, 5, 6, 7, 8, 9, 10]),
        points.countP (samePartition Externals.inert.floatDigits p) = 4 := by
  have hconditions : metricConditions { metricName := "m", maxPoints := 4 } = .ok anyTime := rfl
  obtain ⟨points, hfind, -, hcount⟩ := budget_filled_iff .inert (.stable NotLater) (.stable NotLater)
    { metricName := "m", maxPoints := 4 } (tableAt [1, 2, 3, 4, 5, 6, 7, 8, 9, 10]) hconditions (by decide)
  refine ⟨points, hfind, fun p hp => ?_⟩
  have hlen : (seriesOf .inert (.stable NotLater) anyTime (tableAt [1, 2, 3, 4, 5, 6, 7, 8, 9, 10]) p).length =
      10 := by
    revert p
    decide
  have hbudget : requestedPoints { metricName := "m", maxPoints := 4 } = 4 := by decide
  have hmeets := (hcount p hp).mpr (by
    rw [StrideMeetsBudget, hlen, hbudget]
    exact .inr (.inl (by decide)))
  rwa [hlen, hbudget] at hmeets

/-- Five points, of which four are asked for, come back as three. -/
theorem three_of_five :
    metricConditions { metricName := "m", maxPoints := 4 } = .ok anyTime ∧
      (sampledPoints Externals.inert.floatDigits (.stable NotLater) 4
        (anyTime.points (tableAt [1, 2, 3, 4, 5]))).length ≤ maxMetricRows ∧
      ∃ points, findPoints .inert none (.stable NotLater) (.stable NotLater) { metricName := "m", maxPoints := 4 }
          (tableAt [1, 2, 3, 4, 5]) = .ok points ∧
        ∃ p ∈ anyTime.points (tableAt [1, 2, 3, 4, 5]),
          (seriesOf .inert (.stable NotLater) anyTime (tableAt [1, 2, 3, 4, 5]) p).length = 5 ∧
            points.countP (samePartition Externals.inert.floatDigits p) = 3 :=
  ⟨rfl, by decide, _, rfl, by decide⟩

end OtelviewPostgres
