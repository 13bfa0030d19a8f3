import OtelviewPostgres.Model.Server

/-!
# Listings

A loose index scan lists the distinct values of its column in order, and with each of them a
row it was found in. The listing of metrics has one entry for each of their names, whatever
the order in which the lookups complete.
-/

namespace OtelviewPostgres

open Relational

variable {c : Collation}

lemma distinctValues_eq {ρ : Type} {column : ρ → String} (order : OrderBy ρ (ColumnLe c.lt column)) (rows : List ρ) :
    distinctValues order rows = selectDistinct c.lt column rows := by
  have hwalk := scalarWalk_spec order rows
  rw [← Option.some_get (isSome_scalarWalk order rows), Option.map_some, Option.some.injEq] at hwalk
  rw [distinctValues, hwalk]
  exact ((pairwise_selectDistinct rows).imp fun hlt => asymm_of c.lt hlt).insertionSort_eq

/-- The walk over a column ends, and lists each value of the column once, in ascending order;
so does the walk over the services of a metric. -/
theorem loose_scan_lists_distinct (c : Collation) :
    (∀ {ρ : Type} (column : ρ → String) (order : OrderBy ρ (ColumnLe c.lt column)) (rows : List ρ),
      (∃ walk, scalarWalk order rows = some walk) ∧
        distinctIndexed none order rows = .ok (selectDistinct c.lt column rows)) ∧
    (∀ (lookup : MetricLookup c) (name : String) (t : MetricsTable), lookup.servicesFault = none →
      servicesOfMetric lookup name t =
        .ok (selectDistinct c.lt (fun p => p.row.service) (t.rows.filter fun p => p.row.name = name))) ∧
    ∀ {ρ : Type} (column : ρ → String) (rows : List ρ), (selectDistinct c.lt column rows).Pairwise c.lt ∧
      ∀ v, v ∈ selectDistinct c.lt column rows ↔ ∃ r ∈ rows, column r = v := by
  refine ⟨fun column order rows => ⟨?_, ?_⟩, fun lookup name t hfault => ?_, fun column rows => ⟨?_, ?_⟩⟩
  · exact Option.isSome_iff_exists.mp (isSome_scalarWalk order rows)
  · rw [distinctIndexed, distinctValues_eq]
  · rw [servicesOfMetric, hfault, distinctValues_eq]
  · exact pairwise_selectDistinct rows
  · exact mem_selectDistinct rows

section Operations

variable (order : OrderBy SpanRow (ColumnLe c.lt SpanRow.operation)) (service kind : String) (t : SpansTable)

/-- The rows that a listing of operations probes. -/
def operationRows : List SpanRow := t.rows.filter fun row => row.service = service ∧ (kind.isEmpty ∨ row.kind = kind)

variable {service kind t} in
lemma mem_operationRows {row : SpanRow} :
    row ∈ operationRows service kind t ↔ row ∈ t.rows ∧ row.service = service ∧ (kind ≠ "" → row.kind = kind) := by
  rw [operationRows, List.mem_filter, decide_eq_true_iff, String.isEmpty_iff, or_iff_not_imp_left]

/-- The walk is in order already, so it is listed as it stands. -/
lemma operations_eq : ∃ walk, lateralWalk order (operationRows service kind t) = some walk ∧
    WalkAbove c.lt SpanRow.operation (operationRows service kind t) none walk ∧
    operations none order service kind t =
      .ok (walk.map fun row => { name := row.operation, spanKind := row.kind }) := by
  obtain ⟨walk, hrun, hwalk⟩ := lateralWalk_spec order (operationRows service kind t)
  have hget : (lateralWalk order (operationRows service kind t)).get
      (isSome_lateralWalk order (operationRows service kind t)) = walk := Option.get_of_eq_some _ hrun
  have hsorted : walk.insertionSort (ColumnLe c.lt SpanRow.operation) = walk :=
    (hwalk.pairwise.imp fun hlt => asymm_of c.lt hlt).insertionSort_eq
  refine ⟨walk, hrun, hwalk, ?_⟩
  conv_rhs => rw [← hsorted, ← hget]
  rfl

/-- The walk over the operations of a service ends, whatever spans the probes land on. It lists
the names of the operations with the kind asked for, each once and in ascending order, and with
each name the kind of a span that has it. -/
theorem operations_listed_once :
    (∃ walk, lateralWalk order (operationRows service kind t) = some walk) ∧
    ∃ listed, operations none order service kind t = .ok listed ∧
      TraceReader.getOperations none order service kind t =
        (if service.isEmpty then .error (invalidArgument "service is required") else .ok listed) ∧
      (listed.map Operation.name).Pairwise c.lt ∧
      (∀ name, name ∈ listed.map Operation.name ↔
        ∃ row ∈ t.rows, row.service = service ∧ (kind ≠ "" → row.kind = kind) ∧ row.operation = name) ∧
      ∀ operation ∈ listed, (kind ≠ "" → operation.spanKind = kind) ∧
        ∃ row ∈ t.rows, row.service = service ∧ row.operation = operation.name ∧ row.kind = operation.spanKind := by
  obtain ⟨walk, hrun, hwalk, hlisted⟩ := operations_eq order service kind t
  refine ⟨⟨walk, hrun⟩, _, hlisted, ?_, ?_, ?_, ?_⟩
  · rw [TraceReader.getOperations, hlisted]
    rfl
  · rw [List.map_map]
    exact List.pairwise_map.mpr hwalk.pairwise
  · intro name
    rw [List.map_map, List.mem_map]
    constructor
    · rintro ⟨row, hrow, rfl⟩
      obtain ⟨hstored, hservice, hkind⟩ := mem_operationRows.mp (hwalk.mem row hrow).1
      exact ⟨row, hstored, hservice, hkind, rfl⟩
    · rintro ⟨row, hstored, hservice, hkind, rfl⟩
      obtain ⟨row', hrow', heq⟩ :=
        hwalk.complete row (mem_operationRows.mpr ⟨hstored, hservice, hkind⟩) (by rintro _ ⟨⟩)
      exact ⟨row', hrow', heq⟩
  · intro operation hoperation
    obtain ⟨row, hrow, rfl⟩ := List.mem_map.mp hoperation
    obtain ⟨hstored, hservice, hkind⟩ := mem_operationRows.mp (hwalk.mem row hrow).1
    exact ⟨hkind, row, hstored, hservice, rfl, rfl⟩

end Operations

section Lookup

variable (lookup : MetricLookup c) {name : String} {t : MetricsTable}

/-- One of the statements of the lookup fails, a column of its row, or its task. -/
def MetricLookup.Faulty : Prop :=
  lookup.descriptorFault ≠ none ∨ lookup.servicesFault ≠ none ∨ lookup.rowFault ≠ none ∨ lookup.taskFault ≠ none

/-- What is listed of a metric: the descriptor of a newest point, and its services in order. -/
structure MetricInfo.Describes (c : Collation) (info : MetricInfo) (t : MetricsTable) : Prop where
  newest : ∃ p ∈ t.rows, p.row.name = info.name ∧
    (∀ q ∈ t.rows, q.row.name = info.name → q.row.time ≤ p.row.time) ∧
    info.description = p.row.description ∧ info.unit = p.row.unit ∧ info.metricType = p.row.metricType
  services : info.services =
    selectDistinct c.lt (fun p => p.row.service) (t.rows.filter fun p => p.row.name = info.name)

lemma mem_newest_sort {p : StoredPoint} :
    p ∈ lookup.newest.sort (t.rows.filter fun p => p.row.name = name) ↔ p ∈ t.rows ∧ p.row.name = name := by
  rw [OrderBy.mem_sort, List.mem_filter, decide_eq_true_iff]

variable {lookup}

lemma metricDescriptor_eq_ok {descriptor : MetricDescriptor} (h : metricDescriptor lookup name t = .ok descriptor) :
    ∃ p ∈ t.rows, p.row.name = name ∧ (∀ q ∈ t.rows, q.row.name = name → q.row.time ≤ p.row.time) ∧
      descriptor = { description := p.row.description, unit := p.row.unit, metricType := p.row.metricType } := by
  unfold metricDescriptor at h
  split at h
  · cases h
  · split at h
    · cases h
    · rename_i p hhead
      cases h
      obtain ⟨hp, hpname⟩ := (mem_newest_sort lookup).mp (List.mem_of_head? hhead)
      refine ⟨p, hp, hpname, fun q hq hname => ?_, rfl⟩
      have hqmem := (mem_newest_sort lookup).mpr ⟨hq, hname⟩
      have hsorted := lookup.newest.pairwise_sort (t.rows.filter fun p => p.row.name = name)
      obtain ⟨rest, hrest⟩ := List.head?_eq_some_iff.mp hhead
      rw [hrest] at hqmem hsorted
      rcases List.mem_cons.mp hqmem with rfl | hqmem
      · exact le_rfl
      · exact (List.pairwise_cons.mp hsorted).1 q hqmem

lemma readMetricInfo_of_readable (h : lookup.rowFault = none) {descriptor : MetricDescriptor} {services : List String} :
    readMetricInfo lookup name descriptor services =
      .ok ⟨name, descriptor.description, descriptor.unit, descriptor.metricType, services⟩ := by
  rw [readMetricInfo, h]

lemma readMetricInfo_of_fault {e : Error} (h : lookup.rowFault = some e) {descriptor : MetricDescriptor}
    {services : List String} : readMetricInfo lookup name descriptor services = .error e := by
  rw [readMetricInfo, h]

/-- A lookup succeeds where nothing fails and the metric has a point. -/
lemma exists_metricDescriptor (hfault : lookup.descriptorFault = none) (hpoint : ∃ p ∈ t.rows, p.row.name = name) :
    ∃ descriptor, metricDescriptor lookup name t = .ok descriptor := by
  obtain ⟨p, hp, hname⟩ := hpoint
  have hmem := (mem_newest_sort lookup).mpr ⟨hp, hname⟩
  unfold metricDescriptor
  rw [hfault]
  cases hhead : (lookup.newest.sort (t.rows.filter fun p => p.row.name = name)).head? with
  | none =>
    rw [List.head?_eq_none_iff.mp hhead] at hmem
    cases hmem
  | some q => exact ⟨_, rfl⟩

lemma readMetricInfo_eq_ok {descriptor : MetricDescriptor} {services : List String} {info : MetricInfo}
    (h : readMetricInfo lookup name descriptor services = .ok info) :
    info = ⟨name, descriptor.description, descriptor.unit, descriptor.metricType, services⟩ := by
  unfold readMetricInfo at h
  split at h
  · cases h
  · exact (Except.ok.inj h).symm

lemma metricInfo_describes {info : MetricInfo} (h : metricInfo lookup name t t = .ok info) :
    info.name = name ∧ info.Describes c t := by
  obtain ⟨descriptor, hdescriptor, h⟩ := bind_eq_ok.mp h
  obtain ⟨services, hservices, h⟩ := bind_eq_ok.mp h
  obtain rfl := readMetricInfo_eq_ok h
  obtain ⟨p, hp, hname, hnewest, rfl⟩ := metricDescriptor_eq_ok hdescriptor
  refine ⟨rfl, ⟨p, hp, hname, hnewest, rfl, rfl, rfl⟩, ?_⟩
  unfold servicesOfMetric at hservices
  split at hservices
  · cases hservices
  · cases hservices
    rw [distinctValues_eq]

lemma joinLookup_eq_ok {joined : Except Error MetricInfo} {info : MetricInfo}
    (h : joinLookup lookup joined = .ok info) : joined = .ok info := by
  unfold joinLookup at h
  split at h
  · cases h
  · exact h

lemma exists_joinLookup (hlookup : ¬ lookup.Faulty) (hpoint : ∃ p ∈ t.rows, p.row.name = name) :
    ∃ info, joinLookup lookup (metricInfo lookup name t t) = .ok info := by
  simp only [MetricLookup.Faulty, not_or, not_not] at hlookup
  obtain ⟨hdescriptor, hservices, hrow, htask⟩ := hlookup
  obtain ⟨descriptor, hok⟩ := exists_metricDescriptor hdescriptor hpoint
  rw [joinLookup, htask, metricInfo, hok, servicesOfMetric, hservices]
  exact ⟨_, readMetricInfo_of_readable hrow⟩

lemma joinLookup_of_faulty (hlookup : lookup.Faulty) (t t' : MetricsTable) :
    ∃ e, joinLookup lookup (metricInfo lookup name t t') = .error e := by
  unfold joinLookup
  cases htask : lookup.taskFault with
  | some e => exact ⟨_, rfl⟩
  | none =>
    rcases hlookup with h | h | h | h
    · obtain ⟨e, he⟩ := Option.ne_none_iff_exists'.mp h
      rw [metricInfo, metricDescriptor, he]
      exact ⟨_, rfl⟩
    · obtain ⟨e, he⟩ := Option.ne_none_iff_exists'.mp h
      rw [metricInfo, servicesOfMetric, he]
      cases metricDescriptor lookup name t with
      | error e => exact ⟨_, rfl⟩
      | ok descriptor => exact ⟨_, rfl⟩
    · obtain ⟨e, he⟩ := Option.ne_none_iff_exists'.mp h
      rw [metricInfo]
      cases metricDescriptor lookup name t with
      | error e => exact ⟨_, rfl⟩
      | ok descriptor =>
        cases hservices : servicesOfMetric lookup name t' with
        | error e => exact ⟨_, rfl⟩
        | ok services => exact ⟨_, readMetricInfo_of_fault he⟩
    · exact absurd htask h

end Lookup

section List

variable (order : OrderBy StoredPoint (ColumnLe c.lt fun p => p.row.name)) (lookups : ℕ → MetricLookup c)
  (t : MetricsTable)

lemma metricNames_eq : metricNames none order t = .ok (selectDistinct c.lt (fun p => p.row.name) t.rows) := by
  rw [metricNames, distinctIndexed, distinctValues_eq]
  rfl

/-- The lookup of every name, one after another. -/
def lookupAll : Except Error (List MetricInfo) :=
  (selectDistinct c.lt (fun p : StoredPoint => p.row.name) t.rows).zipIdx.mapM fun (name, index) =>
    joinLookup (lookups index) (metricInfo (lookups index) name t t)

lemma listMetrics_eq_foldlM (completion : AnyOrder (String × ℕ)) :
    listMetrics none order lookups completion t (fun _ => t) (fun _ => t) = (do
      let out ← (completion.sort (selectDistinct c.lt (fun p => p.row.name) t.rows).zipIdx).foldlM
        (fillSlot fun (name, index) => joinLookup (lookups index) (metricInfo (lookups index) name t t))
        (List.replicate (selectDistinct c.lt (fun p => p.row.name) t.rows).length none)
      return out.filterMap id) := by
  rw [listMetrics, metricNames_eq]
  rfl

lemma exists_point_of_mem_names {name : String} {index : ℕ}
    (h : (name, index) ∈ (selectDistinct c.lt (fun p : StoredPoint => p.row.name) t.rows).zipIdx) :
    ∃ p ∈ t.rows, p.row.name = name :=
  (mem_selectDistinct t.rows name).mp (List.mem_of_getElem? (List.mem_zipIdx_iff_getElem?.mp h))

lemma lt_length_of_mem_names {names : List String} {name : String} {index : ℕ} (h : (name, index) ∈ names.zipIdx) :
    index < names.length :=
  (List.getElem?_eq_some_iff.mp (List.mem_zipIdx_iff_getElem?.mp h)).1

/-- Lookups one after another list each metric once, in the order of the names. -/
lemma lookupAll_eq_ok
    (hlookups : ∀ index < (selectDistinct c.lt (fun p : StoredPoint => p.row.name) t.rows).length,
      ¬ (lookups index).Faulty) :
    ∃ infos, lookupAll lookups t = .ok infos ∧
      infos.map MetricInfo.name = selectDistinct c.lt (fun p : StoredPoint => p.row.name) t.rows ∧
      ∀ info ∈ infos, info.Describes c t := by
  obtain ⟨infos, hinfos⟩ : ∃ infos, lookupAll lookups t = .ok infos := exists_mapM_eq_ok fun task htask =>
    exists_joinLookup (hlookups task.2 (lt_length_of_mem_names htask)) (exists_point_of_mem_names t htask)
  refine ⟨infos, hinfos, ?_, fun info hinfo => ?_⟩
  · rw [map_eq_map_of_mapM MetricInfo.name Prod.fst hinfos fun task info hinfo =>
      (metricInfo_describes (joinLookup_eq_ok hinfo)).1, List.zipIdx_map_fst]
  · obtain ⟨task, -, htask⟩ := exists_of_mem_mapM hinfos hinfo
    exact (metricInfo_describes (joinLookup_eq_ok htask)).2

/-- What the lookups give one after another, they give in every order. -/
lemma listMetrics_of_lookupAll {infos : List MetricInfo} (h : lookupAll lookups t = .ok infos)
    (completion : AnyOrder (String × ℕ)) :
    listMetrics none order lookups completion t (fun _ => t) (fun _ => t) = .ok infos := by
  rw [listMetrics_eq_foldlM, foldlM_fillSlot_of_perm (completion.sort_perm _) h]
  change Except.ok ((infos.map some).filterMap id) = .ok infos
  rw [List.filterMap_map, Function.id_comp, List.filterMap_some]

lemma listMetrics_of_faulty {index : ℕ}
    (hindex : index < (selectDistinct c.lt (fun p : StoredPoint => p.row.name) t.rows).length)
    (hfaulty : (lookups index).Faulty) (completion : AnyOrder (String × ℕ)) :
    ∃ e, listMetrics none order lookups completion t (fun _ => t) (fun _ => t) = .error e := by
  have htask : ((selectDistinct c.lt (fun p : StoredPoint => p.row.name) t.rows)[index], index) ∈
      completion.sort (selectDistinct c.lt (fun p : StoredPoint => p.row.name) t.rows).zipIdx := by
    rw [OrderBy.mem_sort, List.mem_zipIdx_iff_getElem?]
    exact List.getElem?_eq_getElem hindex
  obtain ⟨e, he⟩ := joinLookup_of_faulty hfaulty t t
  obtain ⟨e', he'⟩ := foldlM_fillSlot_error
    (f := fun task => joinLookup (lookups task.2) (metricInfo (lookups task.2) task.1 t t)) htask he
    (List.replicate (selectDistinct c.lt (fun p : StoredPoint => p.row.name) t.rows).length none)
  refine ⟨e', ?_⟩
  rw [listMetrics_eq_foldlM, he']
  rfl

/-- A listing that succeeds lists the names in order. -/
lemma map_name_of_listMetrics {completion : AnyOrder (String × ℕ)} {infos : List MetricInfo}
    (h : listMetrics none order lookups completion t (fun _ => t) (fun _ => t) = .ok infos) :
    infos.map MetricInfo.name = selectDistinct c.lt (fun p : StoredPoint => p.row.name) t.rows := by
  have hlookups : ∀ index < (selectDistinct c.lt (fun p : StoredPoint => p.row.name) t.rows).length,
      ¬ (lookups index).Faulty := by
    intro index hindex hfaulty
    obtain ⟨e, he⟩ := listMetrics_of_faulty order lookups t hindex hfaulty completion
    rw [h] at he
    cases he
  obtain ⟨infos', hinfos, hnames, -⟩ := lookupAll_eq_ok lookups t hlookups
  rw [listMetrics_of_lookupAll order lookups t hinfos] at h
  obtain rfl := Except.ok.inj h
  exact hnames

/-- The listing has one entry for each metric name, in ascending order, each with the descriptor
of a newest point and with the services of the metric, in whatever order the lookups complete.
A lookup that fails makes the listing fail in every order. -/
theorem list_metrics_order_independent :
    (selectDistinct c.lt (fun p : StoredPoint => p.row.name) t.rows).Pairwise c.lt ∧
      (∀ name, name ∈ selectDistinct c.lt (fun p : StoredPoint => p.row.name) t.rows ↔
        ∃ p ∈ t.rows, p.row.name = name) ∧
      ((∀ index < (selectDistinct c.lt (fun p : StoredPoint => p.row.name) t.rows).length,
          ¬ (lookups index).Faulty) →
        ∃ infos, (∀ completion, listMetrics none order lookups completion t (fun _ => t) (fun _ => t) = .ok infos) ∧
          infos.map MetricInfo.name = selectDistinct c.lt (fun p : StoredPoint => p.row.name) t.rows ∧
          ∀ info ∈ infos, info.Describes c t) ∧
      ((∃ index < (selectDistinct c.lt (fun p : StoredPoint => p.row.name) t.rows).length, (lookups index).Faulty) →
        ∀ completion, ∃ e,
          listMetrics none order lookups completion t (fun _ => t) (fun _ => t) = .error e) := by
  refine ⟨pairwise_selectDistinct t.rows, mem_selectDistinct t.rows, fun hlookups => ?_, ?_⟩
  · obtain ⟨infos, hinfos, hnames, hdescribes⟩ := lookupAll_eq_ok lookups t hlookups
    exact ⟨infos, listMetrics_of_lookupAll order lookups t hinfos, hnames, hdescribes⟩
  · rintro ⟨index, hindex, hfaulty⟩
    exact listMetrics_of_faulty order lookups t hindex hfaulty

end List

end OtelviewPostgres
