import OtelviewPostgres.Proofs.MetricSelection
import OtelviewPostgres.Proofs.RecordIngest

/-!
# The newest point of a series

The two samplings keep the last point of a series, the limit of the statement need not: it
cuts off the latest of all sampled points. A series keeps its newest time if, and in every
order of ties only if, fewer sampled points than the limit come before it.
-/

namespace OtelviewPostgres

open Relational

section Newest

variable (floatDigits : F64 → Jsonb.Numeric)

/-- A point of the newest time of its series. -/
def IsNewest (points : List StoredPoint) (p : StoredPoint) : Prop :=
  ∀ q ∈ partitionOf floatDigits points p, q.row.time ≤ p.row.time

/-- A point that may be served before the newest points of the series of `p`. -/
def AheadOf (p q : StoredPoint) : Prop :=
  q.row.time < p.row.time ∨ q.row.time = p.row.time ∧ samePartition floatDigits p q = false

instance (p q : StoredPoint) : Decidable (AheadOf floatDigits p q) :=
  inferInstanceAs (Decidable (q.row.time < p.row.time ∨ _))

end Newest

section Pass

variable {floatDigits : F64 → Jsonb.Numeric} {budget : ℕ} {rows : List StoredPoint}

/-- Of each group of rows the pass keeps the last. -/
lemma exists_selected_of_mem (hbudget : 0 < budget) (hrows : rows.Pairwise NotLater) {q : StoredPoint}
    (hq : q ∈ rows) :
    ∃ q' ∈ selected floatDigits budget rows, seriesKey floatDigits q' = seriesKey floatDigits q ∧
      q.row.time ≤ q'.row.time := by
  have hgroup : q ∈ rows.filter fun r => seriesKey floatDigits r = seriesKey floatDigits q := by
    rw [List.mem_filter, decide_eq_true_iff]
    exact ⟨hq, rfl⟩
  have hlast := List.getLast?_eq_some_getLast (List.ne_nil_of_mem hgroup)
  have hkept := filter_selectByGroup (seriesKey floatDigits) (downsampler budget) rows (seriesKey floatDigits q)
  have hmem : (rows.filter fun r => seriesKey floatDigits r = seriesKey floatDigits q).getLast
      (List.ne_nil_of_mem hgroup) ∈ (selected floatDigits budget rows).filter
        fun r => seriesKey floatDigits r = seriesKey floatDigits q := by
    rw [selected, hkept]
    apply List.mem_of_getLast?
    rw [← hlast]
    exact getLast?_downsample hbudget _
  rw [List.mem_filter, decide_eq_true_iff] at hmem
  exact ⟨_, hmem.1, hmem.2, notLater_last (hrows.sublist List.filter_sublist) hlast q hgroup⟩

end Pass

section Find

variable {env : Externals} {window order : OrderBy StoredPoint NotLater} {query : MetricQueryParameters}
  {conditions : MetricConditions} {t : MetricsTable} {p : StoredPoint}

lemma pairwise_metricRows (budget : ℕ) : (metricRows env window order budget conditions t).Pairwise NotLater :=
  (order.pairwise_sort _).sublist (List.take_sublist _ _)

lemma sampledPoints_of_le {budget : ℕ} (h : (conditions.points t).length ≤ budget) :
    sampledPoints env.floatDigits window budget (conditions.points t) = conditions.points t :=
  sampledPoints_of_fit window fun p _ => (List.length_filter_le (samePartition env.floatDigits p) _).trans h

lemma mem_points_of_mem_metricRows {budget : ℕ} {q : StoredPoint}
    (hq : q ∈ metricRows env window order budget conditions t) : q ∈ conditions.points t := by
  exact (List.mem_filter.mp (order.mem_of_mem_take_sort hq)).1

lemma countP_lt_of_mem_metricRows {budget : ℕ} {q : StoredPoint}
    (hq : q ∈ metricRows env window order budget conditions t) :
    (sampledPoints env.floatDigits window budget (conditions.points t)).countP
      (fun q' => q'.row.time < q.row.time) < maxMetricRows := by
  have hcount := order.countP_lt_of_mem_take hq
  simp only [NotLater, not_le] at hcount
  exact hcount

variable (window) in
/-- The last row of a window is sampled. -/
lemma exists_sampled (budget : ℕ) (hp : p ∈ conditions.points t) :
    ∃ q ∈ sampledPoints env.floatDigits window budget (conditions.points t),
      samePartition env.floatDigits p q = true ∧ p.row.time ≤ q.row.time := by
  have hseries : p ∈ seriesOf env window conditions t p := by
    rw [seriesOf, OrderBy.mem_sort, partitionOf, List.mem_filter]
    exact ⟨hp, samePartition_self p⟩
  have hlast := List.getLast?_eq_some_getLast (List.ne_nil_of_mem hseries)
  have hperm := perm_survivors env.floatDigits window window budget (conditions.nodup_points t) p
  have hmem := hperm.mem_iff.mpr (last_mem_survivors budget hlast)
  rw [List.mem_filter, OrderBy.mem_sort] at hmem
  exact ⟨_, hmem.1, hmem.2, notLater_last (window.pairwise_sort _) hlast p hseries⟩

variable (window) in
lemma exists_sampled_newest (budget : ℕ) (hp : p ∈ conditions.points t)
    (hnewest : IsNewest env.floatDigits (conditions.points t) p) :
    ∃ q ∈ sampledPoints env.floatDigits window budget (conditions.points t),
      samePartition env.floatDigits p q = true ∧ q.row.time = p.row.time := by
  obtain ⟨q, hq, hsame, htime⟩ := exists_sampled window budget hp
  refine ⟨q, hq, hsame, le_antisymm ?_ htime⟩
  apply hnewest
  rw [partitionOf, List.mem_filter]
  exact ⟨(List.mem_filter.mp hq).1, hsame⟩

variable (env window order query) in
/-- A search to which some point answers returns some point. -/
lemma exists_found_point (hp : p ∈ conditions.points t) :
    ∃ q, q ∈ selected env.floatDigits (requestedPoints query)
      (metricRows env window order (requestedPoints query) conditions t) := by
  obtain ⟨a, ha, -⟩ := exists_sampled window (requestedPoints query) hp
  have hcap : 0 < maxMetricRows := by decide
  obtain ⟨q, hq⟩ := order.exists_mem_take_sort ha hcap
  obtain ⟨q', hq', -⟩ := exists_selected_of_mem (requestedPoints_pos query) (pairwise_metricRows _) hq
  exact ⟨q', hq'⟩

/-- If the limit leaves enough, the newest time of the series comes back. -/
lemma newest_kept_of_countP_lt (hp : p ∈ conditions.points t)
    (hnewest : IsNewest env.floatDigits (conditions.points t) p)
    (hcount : (sampledPoints env.floatDigits window (requestedPoints query) (conditions.points t)).countP
      (AheadOf env.floatDigits p) < maxMetricRows) :
    ∃ q ∈ selected env.floatDigits (requestedPoints query)
        (metricRows env window order (requestedPoints query) conditions t),
      samePartition env.floatDigits p q = true ∧ q.row.time = p.row.time := by
  obtain ⟨a, ha, hasame, hatime⟩ := exists_sampled_newest window (requestedPoints query) hp hnewest
  have hkind : (samePartition env.floatDigits p a && decide (a.row.time = p.row.time)) = true := by
    rw [hasame, Bool.true_and, decide_eq_true_iff]
    exact hatime
  rcases order.exists_mem_take_sort_or_le
    (fun q => samePartition env.floatDigits p q && decide (q.row.time = p.row.time)) ha hkind maxMetricRows with
    ⟨q, hq, hqkind⟩ | hle
  · rw [Bool.and_eq_true, decide_eq_true_iff] at hqkind
    obtain ⟨q', hq', hkey, htime⟩ := exists_selected_of_mem (requestedPoints_pos query) (pairwise_metricRows _) hq
    have hsame := samePartition_trans hqkind.1 (samePartition_of_seriesKey_eq env.floatDigits hkey.symm)
    refine ⟨q', hq', hsame, le_antisymm (hnewest q' ?_) (hqkind.2 ▸ htime)⟩
    rw [partitionOf, List.mem_filter]
    exact ⟨mem_points_of_mem_metricRows ((selectByGroup_sublist _ _).subset hq'), hsame⟩
  · refine absurd (hle.trans (List.countP_mono_left fun q _ hq => ?_)) (not_le.mpr hcount)
    rw [decide_eq_true_iff] at hq ⊢
    have hle' : q.row.time ≤ p.row.time := hatime ▸ hq.2
    rcases lt_or_eq_of_le hle' with hlt | heq
    · exact .inl hlt
    · have hsame := hq.1
      rw [heq, decide_eq_true rfl, Bool.and_true] at hsame
      exact .inr ⟨heq, hsame⟩

/-- With the series last among ties, its newest time comes back only if the limit leaves enough. -/
lemma countP_lt_of_newest_kept {q : StoredPoint}
    (hq : q ∈ metricRows env window (.tiesLast NotLater (samePartition env.floatDigits p)) (requestedPoints query)
      conditions t)
    (hsame : samePartition env.floatDigits p q = true) (htime : q.row.time = p.row.time) :
    (sampledPoints env.floatDigits window (requestedPoints query) (conditions.points t)).countP
      (AheadOf env.floatDigits p) < maxMetricRows := by
  have hcount := OrderBy.countP_lt_of_mem_take_tiesLast hq hsame
  refine lt_of_le_of_lt (List.countP_mono_left fun q' _ hq' => ?_) hcount
  rw [decide_eq_true_iff] at hq' ⊢
  rcases hq' with hlt | ⟨heq, hother⟩
  · exact .inl (not_le.mpr (htime ▸ hlt))
  · exact .inr ⟨le_of_eq (heq.trans htime.symm), hother⟩

variable (env window query t) in
/-- A search returns a point of the newest time of every series of its window, in any order of
ties, exactly if fewer sampled points than the limit may be served before each of these. -/
theorem newest_kept_iff (hconditions : metricConditions query = .ok conditions) :
    (∀ p, p ∈ conditions.points t ↔ p ∈ t.rows ∧ query.Matches p.row) ∧
      ((∀ order, ∃ points, findPoints env none window order query t = .ok points ∧
          findMetrics env none window order query t = .ok (points.map fun p => p.row.payload) ∧
          ∀ p ∈ conditions.points t, IsNewest env.floatDigits (conditions.points t) p →
            ∃ q ∈ points, samePartition env.floatDigits p q = true ∧ q.row.time = p.row.time) ↔
        ∀ p ∈ conditions.points t, IsNewest env.floatDigits (conditions.points t) p →
          (sampledPoints env.floatDigits window (requestedPoints query) (conditions.points t)).countP
            (AheadOf env.floatDigits p) < maxMetricRows) := by
  refine ⟨mem_points_iff query t hconditions, ?_, ?_⟩
  · intro hkept p hp hnewest
    obtain ⟨points, hfind, -, hpoints⟩ := hkept (.tiesLast NotLater (samePartition env.floatDigits p))
    obtain ⟨q, hq, hsame, htime⟩ := hpoints p hp hnewest
    rw [findPoints_eq_selected _ _ _ t hconditions] at hfind
    obtain rfl := Except.ok.inj hfind
    exact countP_lt_of_newest_kept ((selectByGroup_sublist _ _).subset hq) hsame htime
  · intro hcount order
    have hfind := findPoints_eq_selected env window order t hconditions
    refine ⟨_, hfind, findMetrics_eq hfind, fun p hp hnewest => ?_⟩
    exact newest_kept_of_countP_lt hp hnewest (hcount p hp hnewest)

end Find

theorem newest_of_five_kept :
    ∃ points, findPoints .inert none (.stable NotLater) (.stable NotLater) { metricName := "m", maxPoints := 2 }
        (tableAt [3, 1, 5, 2, 4]) = .ok points ∧
      ∀ p ∈ anyTime.points (tableAt [3, 1, 5, 2, 4]),
        IsNewest Externals.inert.floatDigits (anyTime.points (tableAt [3, 1, 5, 2, 4])) p →
          ∃ q ∈ points, samePartition Externals.inert.floatDigits p q = true ∧ q.row.time = p.row.time := by
  have hconditions : metricConditions { metricName := "m", maxPoints := 2 } = .ok anyTime := rfl
  have hkept := (newest_kept_iff .inert (.stable NotLater) { metricName := "m", maxPoints := 2 }
    (tableAt [3, 1, 5, 2, 4]) hconditions).2.mpr fun p _ _ => lt_of_le_of_lt List.countP_le_length (by decide)
  obtain ⟨points, hfind, -, hpoints⟩ := hkept (.stable NotLater)
  exact ⟨points, hfind, hpoints⟩

/-- The row of a point of such a gauge. -/
def gaugeRow (time : Int) : MetricRow where
  name := "m"
  description := ""
  unit := ""
  metricType := "gauge"
  service := serviceName (resourceAttributes none)
  time := time
  value := .zero
  count := 0
  attributes := attributesToJson []
  resourceAttributes := resourceAttributes none
  payload := []

lemma contents_tableAt {times : List UInt64} (h : ∀ time ∈ times, time.toNat < 2 ^ 63) :
    (tableAt times).contents = times.map fun time => gaugeRow time.toNat := by
  have hcollect : collectMetrics .inert (gaugeAt times) = .ok (times.map fun time => gaugeRow time.toNat) := by
    rw [collectMetrics_eq_mapM, mapM_eq_ok_iff]
    have hitems : pointItems (gaugeAt times) = times.map fun time =>
        { resource := none, resourceSchemaUrl := "", scope := none, scopeSchemaUrl := "", item := {
            metric := { name := "m", data := some (.gauge { dataPoints := [{ timeUnixNano := time }] }) }
            time, value := .zero, count := 0, attributes := attributesToJson [] } } := by
      simp [pointItems, gaugeAt, flattenMetric, numberValue]
    rw [hitems, List.forall₂_map_left_iff, List.forall₂_map_right_iff, List.forall₂_same]
    intro time htime
    rw [pointItemRow, metricRow, u64ToI64_of_lt _ (h time htime)]
    rfl
  have hsteady : ({} : Server MetricRow).Steady := rfl
  rw [tableAt, writeMetrics, hcollect, writeRecords_of_steady hsteady fun _ _ => rfl]
  exact IdentityTable.contents_insertAll ∅ _

/-- The times from 1 to `n`. -/
def timesUpTo (n : ℕ) : List UInt64 := (List.range n).map fun i => .ofNat (i + 1)

section UpTo

variable {n : ℕ} (hn : n < 2 ^ 63)

include hn

lemma contents_tableAt_upTo :
    (tableAt (timesUpTo n)).contents = (List.range n).map fun i : ℕ => gaugeRow (i + 1) := by
  have htime : ∀ i ∈ List.range n, (UInt64.ofNat (i + 1)).toNat = i + 1 := by
    intro i hi
    rw [List.mem_range] at hi
    rw [UInt64.toNat_ofNat']
    omega
  rw [contents_tableAt, timesUpTo, List.map_map]
  · apply List.map_congr_left
    intro i hi
    rw [Function.comp_apply, htime i hi]
    rfl
  · intro time hmem
    obtain ⟨i, hi, rfl⟩ := List.mem_map.mp hmem
    rw [htime i hi]
    rw [List.mem_range] at hi
    omega

lemma row_of_mem_upTo {p : StoredPoint} (hp : p ∈ (tableAt (timesUpTo n)).rows) :
    ∃ i < n, p.row = gaugeRow (i + 1) := by
  have hmem := List.mem_map_of_mem (f := Stored.row) hp
  rw [← IdentityTable.contents, contents_tableAt_upTo hn] at hmem
  obtain ⟨i, hi, heq⟩ := List.mem_map.mp hmem
  exact ⟨i, List.mem_range.mp hi, heq.symm⟩

lemma time_le_upTo {p : StoredPoint} (hp : p ∈ (tableAt (timesUpTo n)).rows) : p.row.time ≤ n := by
  obtain ⟨i, hi, hrow⟩ := row_of_mem_upTo hn hp
  have htime : p.row.time = i + 1 := congrArg MetricRow.time hrow
  omega

lemma exists_last_upTo (hpos : 0 < n) : ∃ p ∈ (tableAt (timesUpTo n)).rows, p.row.time = n := by
  have hmem : gaugeRow ((n - 1 : ℕ) + 1) ∈ (tableAt (timesUpTo n)).contents := by
    rw [contents_tableAt_upTo hn]
    exact List.mem_map_of_mem (List.mem_range.mpr (Nat.sub_lt hpos Nat.one_pos))
  obtain ⟨p, hp, hrow⟩ := List.mem_map.mp hmem
  have htime : p.row.time = (n - 1 : ℕ) + 1 := congrArg MetricRow.time hrow
  exact ⟨p, hp, by omega⟩

lemma points_upTo : anyTime.points (tableAt (timesUpTo n)) = (tableAt (timesUpTo n)).rows := by
  apply List.filter_eq_self.mpr
  intro p hp
  obtain ⟨i, -, hrow⟩ := row_of_mem_upTo hn hp
  rw [hrow]
  rfl

lemma length_points_upTo : (anyTime.points (tableAt (timesUpTo n))).length = n := by
  have hcontents := congrArg List.length (contents_tableAt_upTo hn)
  rw [IdentityTable.contents, List.length_map, List.length_map, List.length_range] at hcontents
  rw [points_upTo hn, hcontents]

/-- All points but the last are before it. -/
lemma countP_before_last_upTo :
    n ≤ (tableAt (timesUpTo n)).rows.countP (fun p => p.row.time < (n : Int)) + 1 := by
  have hcontents : (tableAt (timesUpTo n)).rows.countP (fun p => p.row.time < (n : Int)) =
      (tableAt (timesUpTo n)).contents.countP fun row => row.time < (n : Int) := by
    rw [IdentityTable.contents, List.countP_map]
    rfl
  have hbefore : ∀ i ∈ List.range (n - 1), ((fun row : MetricRow => decide (row.time < (n : Int))) ∘
      fun i : ℕ => gaugeRow (i + 1)) i = true := by
    intro i hi
    rw [List.mem_range] at hi
    rw [Function.comp_apply, decide_eq_true_iff]
    change (i : Int) + 1 < n
    omega
  have hsub : (List.range (n - 1)).Sublist (List.range n) := List.range_sublist.mpr (Nat.sub_le n 1)
  have hle := hsub.countP_le (p := (fun row : MetricRow => decide (row.time < (n : Int))) ∘
    fun i : ℕ => gaugeRow (i + 1))
  rw [List.countP_eq_length.mpr hbefore, List.length_range] at hle
  rw [hcontents, contents_tableAt_upTo hn, List.countP_map]
  omega

/-- Where the limit is below the number of points, the last is not among the rows. -/
lemma time_lt_of_mem_metricRows_upTo {budget : ℕ} (hbudget : n ≤ budget) (hcap : maxMetricRows < n) {q : StoredPoint}
    (hq : q ∈ metricRows .inert (.stable NotLater) (.stable NotLater) budget anyTime (tableAt (timesUpTo n))) :
    q.row.time < n := by
  have hrows := points_upTo hn
  refine lt_of_le_of_ne (time_le_upTo hn (hrows ▸ mem_points_of_mem_metricRows hq)) fun heq => ?_
  have hcount := countP_lt_of_mem_metricRows hq
  rw [sampledPoints_of_le (by rwa [length_points_upTo hn]), hrows, heq] at hcount
  have hbefore : n ≤ maxMetricRows := (countP_before_last_upTo hn).trans hcount
  omega

end UpTo

/-- A series of one point more than the statement returns loses the newest. -/
theorem newest_lost :
    ∃ points, findPoints .inert none (.stable NotLater) (.stable NotLater)
        { metricName := "m", maxPoints := 200000 } (tableAt (timesUpTo 100001)) = .ok points ∧
      ∃ p ∈ anyTime.points (tableAt (timesUpTo 100001)),
        IsNewest Externals.inert.floatDigits (anyTime.points (tableAt (timesUpTo 100001))) p ∧
          ∀ q ∈ points, q.row.time < p.row.time := by
  have hn : 100001 < 2 ^ 63 := by decide
  have hconditions : metricConditions { metricName := "m", maxPoints := 200000 } = .ok anyTime := rfl
  have hbudget : requestedPoints { metricName := "m", maxPoints := 200000 } = 200000 := by decide
  have hrows := points_upTo hn
  obtain ⟨p, hp, hptime⟩ := exists_last_upTo hn (by decide)
  have hlatest : ∀ q ∈ (tableAt (timesUpTo 100001)).rows, q.row.time ≤ p.row.time :=
    fun q hq => hptime ▸ time_le_upTo hn hq
  refine ⟨_, findPoints_eq_selected _ _ _ _ hconditions, p, hrows ▸ hp, fun q hq => ?_, fun q hq => ?_⟩
  · exact hlatest q (hrows ▸ (List.mem_filter.mp hq).1)
  · rw [hptime]
    exact time_lt_of_mem_metricRows_upTo hn (by decide) (by decide) ((selectByGroup_sublist _ _).subset hq)

end OtelviewPostgres
