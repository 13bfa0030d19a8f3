import OtelviewPostgres.Model.Dependencies

/-!
# What the dependency graph counts

The join pairs every span with its parent, and a span has at most one parent because the ids
identify the rows of every table. So the count of a pair of services is the number of calls
between them, and the counts add up to the calls across services.
-/

namespace OtelviewPostgres

open Relational

/-- A span of `child` that starts in the window and whose parent is a stored span of `parent`. -/
def IsCall (t : SpansTable) (start stop : Int) (parent child : String) (row : SpanRow) : Prop :=
  row.service = child ∧ start ≤ row.startTime ∧ row.startTime < stop ∧
    ∃ p ∈ t.rows, p.traceId = row.traceId ∧ p.spanId = row.parentSpanId ∧ p.service = parent

instance instDecidableIsCall (t : SpansTable) (start stop : Int) (parent child : String) (row : SpanRow) :
    Decidable (IsCall t start stop parent child row) :=
  inferInstanceAs (Decidable (row.service = child ∧ start ≤ row.startTime ∧ row.startTime < stop ∧
    ∃ p ∈ t.rows, p.traceId = row.traceId ∧ p.spanId = row.parentSpanId ∧ p.service = parent))

section Calls

variable {start stop : Int} {t : SpansTable} {parent child : String}

/-- The ids of the table identify the parent. -/
lemma isParent_unique {c p p' : SpanRow} (hp : p ∈ t.rows) (hp' : p' ∈ t.rows) (h : IsParent c p)
    (h' : IsParent c p') : p = p' := by
  have hkey : p.key = p'.key := Prod.ext (h.1.trans h'.1.symm) (h.2.trans h'.2.symm)
  exact List.inj_on_of_nodup_map t.nodup_keys hp hp' hkey

variable (start stop t) in
/-- The pairs of a kind, counted by the spans whose parent makes them one. -/
lemma countP_calls (kind : SpanRow → SpanRow → Prop) [∀ c p, Decidable (kind c p)] :
    (calls start stop t).countP (fun pair => kind pair.1 pair.2) =
      t.rows.countP fun c => ∃ p ∈ t.rows, IsParent c p ∧
        (start ≤ c.startTime ∧ c.startTime < stop ∧ p.service ≠ c.service) ∧ kind c p := by
  have hjoin := countP_innerJoin IsParent t.rows t.rows (List.Nodup.of_map _ t.nodup_keys)
    (fun c _ p hp p' hp' h h' => isParent_unique hp hp' h h')
    (fun c p => (start ≤ c.startTime ∧ c.startTime < stop ∧ p.service ≠ c.service) ∧ kind c p)
  rw [← hjoin, calls, List.countP_filter]
  apply List.countP_congr
  intro pair _
  simp [and_comm]

/-- The pairs of two services are the calls between them. -/
lemma countP_calls_services (hne : parent ≠ child) :
    (calls start stop t).countP (fun pair => (pair.2.service, pair.1.service) = (parent, child)) =
      t.rows.countP fun row => IsCall t start stop parent child row := by
  rw [countP_calls start stop t fun c p => (p.service, c.service) = (parent, child)]
  apply List.countP_congr
  intro row _
  rw [decide_eq_true_iff, decide_eq_true_iff]
  constructor
  · rintro ⟨p, hp, hparent, ⟨hstart, hstop, -⟩, heq⟩
    cases heq
    exact ⟨rfl, hstart, hstop, p, hp, hparent.1, hparent.2, rfl⟩
  · rintro ⟨rfl, hstart, hstop, p, hp, htrace, hspan, rfl⟩
    exact ⟨p, hp, ⟨htrace, hspan⟩, ⟨hstart, hstop, hne⟩, rfl⟩

/-- All pairs are the calls across services. -/
lemma length_calls :
    (calls start stop t).length =
      t.rows.countP fun row => start ≤ row.startTime ∧ row.startTime < stop ∧
        ∃ p ∈ t.rows, p.traceId = row.traceId ∧ p.spanId = row.parentSpanId ∧ p.service ≠ row.service := by
  have hall := countP_calls start stop t fun _ _ => True
  simp only [decide_true, List.countP_true] at hall
  rw [hall]
  apply List.countP_congr
  intro row _
  rw [decide_eq_true_iff, decide_eq_true_iff]
  constructor
  · rintro ⟨p, hp, hparent, ⟨hstart, hstop, hne⟩, -⟩
    exact ⟨hstart, hstop, p, hp, hparent.1, hparent.2, hne⟩
  · rintro ⟨hstart, hstop, p, hp, htrace, hspan, hne⟩
    exact ⟨p, hp, ⟨htrace, hspan⟩, ⟨hstart, hstop, hne⟩, trivial⟩

end Calls

section Graph

variable (order : OrderBy DependencyRow NotFewerCalls) (start stop : Int) (t : SpansTable)

/-- One row of the graph for each pair of services that has calls. -/
def dependencyRows : List DependencyRow :=
  (groupCount (fun (c, p) => (p.service, c.service)) (calls start stop t)).map fun ((parent, child), calls) =>
    { parent, child, calls }

lemma dependencies_eq : dependencies none order start stop t = .ok (order.sort (dependencyRows start stop t)) := rfl

variable {start stop t}

lemma mem_dependencyRows {d : DependencyRow} :
    d ∈ dependencyRows start stop t ↔ d.parent ≠ d.child ∧ 0 < d.calls ∧
      d.calls = t.rows.countP fun row => IsCall t start stop d.parent d.child row := by
  have hcross : ∀ pair ∈ calls start stop t, pair.2.service ≠ pair.1.service := by
    intro pair hpair
    exact (of_decide_eq_true (List.mem_filter.mp hpair).2).2.2
  rw [dependencyRows, List.mem_map]
  constructor
  · rintro ⟨⟨⟨parent, child⟩, n⟩, hmem, rfl⟩
    obtain ⟨hn, hpos⟩ := mem_groupCount.mp hmem
    have hne : parent ≠ child := by
      rw [hn, List.countP_pos_iff] at hpos
      obtain ⟨pair, hpair, heq⟩ := hpos
      cases of_decide_eq_true heq
      exact hcross pair hpair
    rw [countP_calls_services hne] at hn
    exact ⟨hne, Int.natCast_pos.mpr hpos, congrArg Nat.cast hn⟩
  · rintro ⟨hne, hpos, hn⟩
    refine ⟨((d.parent, d.child), t.rows.countP fun row => IsCall t start stop d.parent d.child row), ?_, ?_⟩
    · rw [mem_groupCount, countP_calls_services hne]
      exact ⟨rfl, by omega⟩
    · cases d
      simp only at hn
      rw [hn]

lemma nodup_dependencyRows : ((dependencyRows start stop t).map fun d => (d.parent, d.child)).Nodup := by
  have hpairs : ((dependencyRows start stop t).map fun d => (d.parent, d.child)) =
      ((calls start stop t).map fun (c, p) => (p.service, c.service)).dedup := by
    rw [dependencyRows, List.map_map, ← map_fst_groupCount]
    rfl
  rw [hpairs]
  exact List.nodup_dedup _

lemma sum_dependencyRows :
    ((dependencyRows start stop t).map DependencyRow.calls).sum = (calls start stop t).length := by
  rw [← sum_groupCount (fun (c, p) => (p.service, c.service)) (calls start stop t), dependencyRows, List.map_map]
  push_cast
  rw [List.map_map]
  rfl

/-- The graph has each pair of different services once, with the number of spans of the child in
the window whose parent is stored for the other service, so the counts add up to the spans in
the window whose parent belongs to another service. The handler answers with these counts. -/
theorem dependencies_count_calls (start stop : Int) (t : SpansTable) :
    ∃ listed, dependencies none order start stop t = .ok listed ∧
      (listed.map fun d => (d.parent, d.child)).Nodup ∧
      (∀ d ∈ listed, d.parent ≠ d.child ∧ 0 < d.calls ∧
        d.calls = t.rows.countP fun row => IsCall t start stop d.parent d.child row) ∧
      (∀ parent child, parent ≠ child → (∃ row ∈ t.rows, IsCall t start stop parent child row) →
        ∃ d ∈ listed, d.parent = parent ∧ d.child = child) ∧
      (listed.map DependencyRow.calls).sum = t.rows.countP (fun row => start ≤ row.startTime ∧ row.startTime < stop ∧
        ∃ p ∈ t.rows, p.traceId = row.traceId ∧ p.spanId = row.parentSpanId ∧ p.service ≠ row.service) ∧
      ∀ request, requireTimestamp "start_time" request.startTime = .ok start →
        requireTimestamp "end_time" request.endTime = .ok stop → start < stop →
        DependencyReader.getDependencies none order request t = .ok (listed.map fun d =>
          { parent := d.parent, child := d.child, callCount := clampToU64 d.calls, source := "postgres" }) := by
  refine ⟨_, dependencies_eq order start stop t, ?_, ?_, ?_, ?_, ?_⟩
  · exact ((order.sort_perm _).map _).nodup_iff.mpr nodup_dependencyRows
  · intro d hd
    exact mem_dependencyRows.mp ((order.mem_sort _ d).mp hd)
  · intro parent child hne hcall
    have hpos : 0 < t.rows.countP fun row => IsCall t start stop parent child row := by
      obtain ⟨row, hrow, hcall⟩ := hcall
      exact List.countP_pos_iff.mpr ⟨row, hrow, decide_eq_true hcall⟩
    refine ⟨{ parent, child, calls := t.rows.countP fun row => IsCall t start stop parent child row }, ?_, rfl, rfl⟩
    rw [order.mem_sort, mem_dependencyRows]
    exact ⟨hne, Int.natCast_pos.mpr hpos, rfl⟩
  · rw [((order.sort_perm _).map _).sum_eq, sum_dependencyRows, length_calls]
  · intro request hstart hstop hlt
    rw [DependencyReader.getDependencies, hstart, hstop]
    change (if start ≥ stop then _ else _) = _
    rw [if_neg (not_le.mpr hlt), dependencies_eq]
    rfl

end Graph

end OtelviewPostgres
