import OtelviewPostgres.Proofs.NewestPoint
import OtelviewPostgres.Proofs.Streaming

/-!
# What the client of a metric search has received

The answer to a search for a metric keeps to its budgets whatever is stored, and it reaches the
client through the channel in order of time, point by point as exported.
-/

namespace OtelviewPostgres

open Channels Relational

section Budgets

variable {env : Externals} {window order : OrderBy StoredPoint NotLater} {query : MetricQueryParameters}
  {conditions : MetricConditions} {t : MetricsTable}

/-- What a search for a metric finds: points that match, each once and in order of time, within the
budget of every series and the limit of the statement, and some if any match. -/
structure FoundPoints (env : Externals) (query : MetricQueryParameters) (t : MetricsTable) (points : List StoredPoint) :
    Prop where
  nodup : (points.map Stored.id).Nodup
  sorted : points.Pairwise NotLater
  stored : ∀ p ∈ points, p ∈ t.rows ∧ query.Matches p.row
  length_le : points.length ≤ maxMetricRows
  series_le : ∀ key, (points.filter fun p => seriesKey env.floatDigits p = key).length ≤ requestedPoints query
  ne_nil : (∃ p ∈ t.rows, query.Matches p.row) → points ≠ []

lemma nodup_metricRows (budget : ℕ) : ((metricRows env window order budget conditions t).map Stored.id).Nodup :=
  (nodup_sampled window order env.floatDigits budget conditions t).sublist ((List.take_sublist _ _).map _)

lemma foundPoints_selected (hconditions : metricConditions query = .ok conditions) :
    FoundPoints env query t (selected env.floatDigits (requestedPoints query)
      (metricRows env window order (requestedPoints query) conditions t)) where
  nodup := (nodup_metricRows _).sublist ((selectByGroup_sublist _ _).map _)
  sorted := (pairwise_metricRows _).sublist (selectByGroup_sublist _ _)
  stored p hp := (mem_points_iff query t hconditions p).mp
    (mem_points_of_mem_metricRows ((selectByGroup_sublist _ _).subset hp))
  length_le := by
    refine (selectByGroup_sublist _ _).length_le.trans ?_
    rw [metricRows, List.length_take]
    exact min_le_left _ _
  series_le key := by
    have hsample := filter_selectByGroup (seriesKey env.floatDigits) (downsampler (requestedPoints query))
      (metricRows env window order (requestedPoints query) conditions t) key
    rw [selected, hsample]
    exact (length_downsample (requestedPoints_pos query)).trans_le (min_le_right _ _)
  ne_nil := by
    rintro ⟨p, hp, hmatch⟩
    obtain ⟨q, hq⟩ :=
      exists_found_point env window order query ((mem_points_iff query t hconditions p).mpr ⟨hp, hmatch⟩)
    exact List.ne_nil_of_mem hq

lemma foundPoints_of_findMetrics {payloads : List Bytes}
    (h : findMetrics env none window order query t = .ok payloads) :
    ∃ points, payloads = points.map (fun p => p.row.payload) ∧ FoundPoints env query t points := by
  obtain ⟨points, hpoints, h⟩ := bind_eq_ok.mp h
  obtain rfl := Except.ok.inj h
  obtain ⟨conditions, hconditions, -⟩ := bind_eq_ok.mp hpoints
  rw [findPoints_eq_selected env window order t hconditions] at hpoints
  obtain rfl := Except.ok.inj hpoints
  exact ⟨_, rfl, foundPoints_selected hconditions⟩

end Budgets

/-- A client of a search for a metric receives, in whatever order it and the task take their steps, the
points that the search finds in order of time, in messages of bounded size, and all of them if it reads
to the end. -/
theorem metric_search_streamed (env : Externals) (henv : env.metrics.Lossless) (s : Store) (hs : s.Reachable env)
    (window order : OrderBy StoredPoint NotLater) (query : MetricQueryParameters) (payloads : List Bytes)
    (hfind : findMetrics env none window order query s.metricPoints = .ok payloads) :
    ∃ (points : List StoredPoint) (entries : List (InContext MetricEntry)),
      FoundPoints env query s.metricPoints points ∧
      List.Forall₂ (fun p entry => p.row.Holds env entry) points entries ∧
      ∀ actions p, runSteps (streamChunksStep (mergeMetrics env)) actions (streamChunksTask payloads) = some p →
        Received metricEntries entries p ∧
        p.Delivers (chunkMessage (mergeMetrics env)) chunksCapacity (chunks chunkSize payloads) ∧
        actions.length ≤ 3 * (chunks chunkSize payloads).length + 2 := by
  obtain ⟨points, rfl, hfound⟩ := foundPoints_of_findMetrics hfind
  obtain ⟨entries, hentries⟩ := exists_forall₂ fun p hp => holds_of_reachable henv hs p (hfound.stored p hp).1
  have hdecode : ∀ payload ∈ points.map (fun p => p.row.payload),
      (env.metrics.decode payload).isSome ∧ (payloadEntries env payload).length = 1 := by
    intro payload hpayload
    obtain ⟨p, hp, rfl⟩ := List.mem_map.mp hpayload
    obtain ⟨entry, hentry⟩ := holds_of_reachable henv hs p (hfound.stored p hp).1
    obtain ⟨hsome, heq⟩ := hentry.payloadEntries
    rw [heq]
    exact ⟨hsome, rfl⟩
  have hflat : (points.map fun p => p.row.payload).flatMap (payloadEntries env) = entries := by
    apply flatMap_eq_of_forall₂
    rw [List.forall₂_map_left_iff]
    exact hentries.imp fun _ _ h => h.payloadEntries.2
  refine ⟨points, entries, hfound, hentries, fun actions p hrun => ?_⟩
  obtain ⟨hdelivers, hlength⟩ := Pipe.delivers_of_run (by decide) hrun
  have hreceived := received_of_delivers metricEntries (payloadEntries env)
    (fun group hgroup => exists_mergeMetrics fun payload hpayload => (hdecode payload (hgroup hpayload)).1)
    (fun payload hpayload => (hdecode payload hpayload).2) hdelivers
  rw [hflat] at hreceived
  exact ⟨hreceived, hdelivers, hlength⟩

theorem metric_search_streamed_four :
    ∃ payloads points entries,
      findMetrics countingMetrics none (.stable NotLater) (.stable NotLater) { metricName := "m", maxPoints := 2 }
        (writeMetrics countingMetrics {} (gaugeAt [3, 1, 4, 2]) ∅).2 = .ok payloads ∧
      FoundPoints countingMetrics { metricName := "m", maxPoints := 2 }
        (writeMetrics countingMetrics {} (gaugeAt [3, 1, 4, 2]) ∅).2 points ∧
      ∀ actions p, runSteps (streamChunksStep (mergeMetrics countingMetrics)) actions (streamChunksTask payloads) =
        some p → Received metricEntries entries p := by
  have hconditions : metricConditions { metricName := "m", maxPoints := 2 } = .ok anyTime := rfl
  have hfind := findMetrics_eq (findPoints_eq_selected countingMetrics (.stable NotLater) (.stable NotLater)
    (writeMetrics countingMetrics {} (gaugeAt [3, 1, 4, 2]) ∅).2 hconditions)
  obtain ⟨points, entries, hfound, -, hclient⟩ := metric_search_streamed countingMetrics
    (Codec.lossless_counting MetricsData)
    { metricPoints := (writeMetrics countingMetrics {} (gaugeAt [3, 1, 4, 2]) ∅).2 }
    (.writeMetrics {} (gaugeAt [3, 1, 4, 2]) .empty) (.stable NotLater) (.stable NotLater) _ _ hfind
  exact ⟨_, points, entries, hfind, hfound, fun actions p hrun => (hclient actions p hrun).1⟩

end OtelviewPostgres
