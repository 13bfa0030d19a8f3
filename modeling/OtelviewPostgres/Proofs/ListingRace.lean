import OtelviewPostgres.Model.ListingRace
import OtelviewPostgres.Proofs.Listings
import OtelviewPostgres.Proofs.MetricBudget

/-!
# When a listing survives a sweep

The names are read in one statement and each is looked up in later ones. A sweep that deletes
the last point of a listed metric in between makes the lookup, and with it the whole listing,
fail. If no lookup is overtaken in this way, the listing succeeds and misses nothing.
-/

namespace OtelviewPostgres

open Relational

variable {c : Collation} {env : Externals} {order : OrderBy StoredPoint (ColumnLe c.lt fun p => p.row.name)}
  {lookups : ℕ → MetricLookup c}

section Steps

variable {s s' : ListRace} {a : ListAction}

/-- Everything a step can do to the listing. -/
theorem step_cases (h : s.step env order lookups a = some s') :
    (s'.progress = s.progress ∧ ∀ index, a ≠ .describe index) ∨
    (a = .walkNames ∧ s'.progress = .listing (selectDistinct c.lt (fun p => p.row.name) s.table.rows)
      ((selectDistinct c.lt (fun p => p.row.name) s.table.rows).map fun _ => .started)
      ((selectDistinct c.lt (fun p => p.row.name) s.table.rows).map fun _ => none)) ∨
    ∃ names tasks out, s.progress = .listing names tasks out ∧
      ((∃ index name, a = .describe index ∧ names[index]? = some name ∧ tasks[index]? = some .started ∧
          s'.progress = .listing names (tasks.set index (describeTask (lookups index) name s.table)) out) ∨
        (∃ index name descriptor, a = .walkServices index ∧ names[index]? = some name ∧
          tasks[index]? = some (.described descriptor) ∧
          s'.progress = .listing names (tasks.set index (servicesTask (lookups index) name descriptor s.table)) out) ∨
        (∃ index result, a = .join index ∧ tasks[index]? = some (.completed result) ∧ out[index]? = some none ∧
          s'.progress = joinTask (lookups index) index result names tasks out) ∨
        (a = .finish ∧ (∀ o ∈ out, o.isSome) ∧ s'.progress = .returned (.ok (out.filterMap id)))) := by
  cases a with
  | write server data =>
    cases h
    exact .inl ⟨rfl, nofun⟩
  | sweep cutoff choice i =>
    cases h
    exact .inl ⟨rfl, nofun⟩
  | walkNames =>
    simp only [ListRace.step, metricNames_eq] at h
    split at h
    · rename_i hok
      obtain rfl := Except.ok.inj hok
      cases h
      exact .inr (.inl ⟨rfl, rfl⟩)
    · cases h
  | describe index =>
    simp only [ListRace.step] at h
    split at h
    · rename_i names tasks out hprogress
      split at h
      · rename_i name hname htask
        cases h
        exact .inr (.inr ⟨names, tasks, out, hprogress, .inl ⟨index, name, rfl, hname, htask, rfl⟩⟩)
      · cases h
    · cases h
  | walkServices index =>
    simp only [ListRace.step] at h
    split at h
    · rename_i names tasks out hprogress
      split at h
      · rename_i name descriptor hname htask
        cases h
        exact .inr (.inr ⟨names, tasks, out, hprogress,
          .inr (.inl ⟨index, name, descriptor, rfl, hname, htask, rfl⟩)⟩)
      · cases h
    · cases h
  | join index =>
    simp only [ListRace.step] at h
    split at h
    · rename_i names tasks out hprogress
      split at h
      · rename_i result htask hslot
        cases h
        exact .inr (.inr ⟨names, tasks, out, hprogress, .inr (.inr (.inl ⟨index, result, rfl, htask, hslot, rfl⟩))⟩)
      · cases h
    · cases h
  | finish =>
    simp only [ListRace.step] at h
    split at h
    · rename_i names tasks out hprogress
      split at h
      · rename_i hall
        cases h
        exact .inr (.inr ⟨names, tasks, out, hprogress, .inr (.inr (.inr ⟨rfl, List.all_eq_true.mp hall, rfl⟩))⟩)
      · cases h
    · cases h

end Steps

/-- A completed lookup has succeeded. -/
def LookupProgress.Succeeding (name : Option String) : LookupProgress → Prop
  | .completed result => ∃ info, result = .ok info ∧ name = some info.name
  | _ => True

/-- Nothing has failed so far, and every result is in the slot of its name. -/
def ListProgress.Succeeding : ListProgress → Prop
  | .idle => True
  | .listing names tasks out => out.length = names.length ∧
      (∀ (index : ℕ) (task : LookupProgress), tasks[index]? = some task → task.Succeeding names[index]?) ∧
      ∀ (index : ℕ) (info : MetricInfo), out[index]? = some (some info) → names[index]? = some info.name
  | .returned result => ∃ infos, result = .ok infos

/-- The next step, if it fetches a descriptor, finds a point of the metric. -/
def FindsPoint (s : ListRace) (a : ListAction) : Prop :=
  ∀ index name, a = .describe index → s.nameAt index = some name → s.Stores name

section Succeeding

variable {lookup : MetricLookup c} {name : String} {t : MetricsTable}

lemma succeeding_describeTask (hlookup : ¬ lookup.Faulty) (hpoint : ∃ p ∈ t.rows, p.row.name = name) :
    (describeTask lookup name t).Succeeding (some name) := by
  simp only [MetricLookup.Faulty, not_or, not_not] at hlookup
  obtain ⟨descriptor, hok⟩ := exists_metricDescriptor hlookup.1 hpoint
  rw [describeTask, hok]
  trivial

variable (name t) in
lemma succeeding_servicesTask (hlookup : ¬ lookup.Faulty) (descriptor : MetricDescriptor) :
    (servicesTask lookup name descriptor t).Succeeding (some name) := by
  simp only [MetricLookup.Faulty, not_or, not_not] at hlookup
  rw [servicesTask, servicesOfMetric, hlookup.2.1]
  exact ⟨_, readMetricInfo_of_readable hlookup.2.2.1, rfl⟩

lemma joinLookup_of_not_faulty (hlookup : ¬ lookup.Faulty) (joined : Except Error MetricInfo) :
    joinLookup lookup joined = joined := by
  simp only [MetricLookup.Faulty, not_or, not_not] at hlookup
  rw [joinLookup, hlookup.2.2.2]

lemma succeeding_set {names : List String} {tasks : List LookupProgress} {index : ℕ} {task : LookupProgress}
    (htasks : ∀ (i : ℕ) (task : LookupProgress), tasks[i]? = some task → task.Succeeding names[i]?)
    (htask : task.Succeeding names[index]?) :
    ∀ (i : ℕ) (task' : LookupProgress), (tasks.set index task)[i]? = some task' → task'.Succeeding names[i]? := by
  intro i task' h
  rw [List.getElem?_set] at h
  split at h
  · rename_i hi
    split at h
    · obtain rfl := Option.some.inj h
      rwa [← hi]
    · cases h
  · exact htasks i task' h

lemma succeeding_step (hlookups : ∀ index, ¬ (lookups index).Faulty) (s : ListRace) (a : ListAction) (s' : ListRace)
    (hs : s.progress.Succeeding) (hpoint : FindsPoint s a) (h : s.step env order lookups a = some s') :
    s'.progress.Succeeding := by
  rcases step_cases h with ⟨heq, -⟩ | ⟨-, heq⟩ | ⟨names, tasks, out, hprogress, hcases⟩
  · rwa [heq]
  · rw [heq]
    refine ⟨by rw [List.length_map], fun index task htask => ?_, fun index info hinfo => ?_⟩
    · rw [List.getElem?_map, Option.map_eq_some_iff] at htask
      obtain ⟨-, -, rfl⟩ := htask
      trivial
    · rw [List.getElem?_map, Option.map_eq_some_iff] at hinfo
      obtain ⟨-, -, hnone⟩ := hinfo
      cases hnone
  · rw [hprogress] at hs
    obtain ⟨hlen, htasks, hout⟩ := hs
    rcases hcases with ⟨index, name, rfl, hname, -, heq⟩ | ⟨index, name, descriptor, -, hname, -, heq⟩ |
      ⟨index, result, -, htask, hslot, heq⟩ | ⟨-, -, heq⟩
    · have hstored : s.Stores name := hpoint index name rfl (by rw [ListRace.nameAt, hprogress]; exact hname)
      have hdone := succeeding_describeTask (hlookups index) hstored
      rw [← hname] at hdone
      rw [heq]
      exact ⟨hlen, succeeding_set htasks hdone, hout⟩
    · have hdone := succeeding_servicesTask name s.table (hlookups index) descriptor
      rw [← hname] at hdone
      rw [heq]
      exact ⟨hlen, succeeding_set htasks hdone, hout⟩
    · obtain ⟨info, rfl, hname⟩ := htasks index _ htask
      rw [heq, joinTask, joinLookup_of_not_faulty (hlookups index)]
      refine ⟨by rw [List.length_set, hlen], htasks, fun i info' hinfo => ?_⟩
      rw [List.getElem?_set] at hinfo
      split at hinfo
      · rename_i hi
        split at hinfo
        · obtain rfl := Option.some.inj (Option.some.inj hinfo)
          rw [← hi, hname]
        · cases hinfo
      · exact hout i info' hinfo
    · rw [heq]
      exact ⟨_, rfl⟩

end Succeeding

/-- A metric has been read, and listed once the listing has returned. -/
def ListProgress.Lists (name : String) : ListProgress → Prop
  | .idle => True
  | .listing names _ _ => name ∈ names
  | .returned result => ∀ infos, result = .ok infos → name ∈ infos.map MetricInfo.name

lemma lists_step {name : String} {s s' : ListRace} {a : ListAction} (hsucceeding : s.progress.Succeeding)
    (hlists : s.progress.Lists name) (hstored : s.Stores name) (h : s.step env order lookups a = some s') :
    s'.progress.Lists name := by
  rcases step_cases h with ⟨heq, -⟩ | ⟨-, heq⟩ | ⟨names, tasks, out, hprogress, hcases⟩
  · rwa [heq]
  · rw [heq]
    exact (mem_selectDistinct s.table.rows name).mpr hstored
  · rw [hprogress] at hlists hsucceeding
    rcases hcases with ⟨index, name', -, -, -, heq⟩ | ⟨index, name', descriptor, -, -, -, heq⟩ |
      ⟨index, result, -, -, -, heq⟩ | ⟨-, hall, heq⟩
    · rwa [heq]
    · rwa [heq]
    · rw [heq, joinTask]
      split
      · exact hlists
      · exact nofun
    · rw [heq]
      rintro _ ⟨⟩
      obtain ⟨hlen, -, hout⟩ := hsucceeding
      obtain ⟨i, hi, rfl⟩ := List.getElem_of_mem hlists
      have hsome := hall _ (List.getElem_mem (l := out) (n := i) (by omega))
      obtain ⟨info, hinfo⟩ := Option.isSome_iff_exists.mp hsome
      have hslot : out[i]? = some (some info) := by rw [← hinfo, List.getElem?_eq_getElem]
      have hname := hout i info hslot
      rw [List.getElem?_eq_getElem hi, Option.some.injEq] at hname
      rw [hname]
      exact List.mem_map_of_mem (List.mem_filterMap.mpr ⟨some info, List.mem_of_getElem? hslot, rfl⟩)

/-! ### A lookup that is overtaken -/

/-- Only results of lookups that succeeded are in the slots. -/
def ListProgress.Joined : ListProgress → Prop
  | .listing _ tasks out => out.length = tasks.length ∧ ∀ (index : ℕ) (info : MetricInfo),
      out[index]? = some (some info) → ∃ info, tasks[index]? = some (.completed (.ok info))
  | _ => True

/-- The lookup has failed, and the listing with it if it has returned. -/
def ListProgress.Failed (index : ℕ) : ListProgress → Prop
  | .idle => False
  | .listing _ tasks _ => ∃ e, tasks[index]? = some (.completed (.error e))
  | .returned result => ∃ e, result = .error e

section Overtaken

variable {tasks : List LookupProgress} {index i : ℕ} {task task' : LookupProgress} {result : Except Error MetricInfo}

lemma getElem?_set_of_completed (htask : tasks[index]? = some task) (hne : ∀ result, task ≠ .completed result)
    (hcompleted : tasks[i]? = some (.completed result)) : (tasks.set index task')[i]? = some (.completed result) := by
  rw [List.getElem?_set_ne, hcompleted]
  rintro rfl
  rw [htask] at hcompleted
  exact hne _ (Option.some.inj hcompleted)

lemma joined_set {names : List String} {out : List (Option MetricInfo)}
    (h : (ListProgress.listing names tasks out).Joined) (htask : tasks[index]? = some task)
    (hne : ∀ result, task ≠ .completed result) : (ListProgress.listing names (tasks.set index task') out).Joined := by
  refine ⟨by rw [List.length_set]; exact h.1, fun i info hinfo => ?_⟩
  obtain ⟨info', hcompleted⟩ := h.2 i info hinfo
  exact ⟨info', getElem?_set_of_completed htask hne hcompleted⟩

lemma joined_step {s s' : ListRace} {a : ListAction} (hs : s.progress.Joined)
    (h : s.step env order lookups a = some s') : s'.progress.Joined := by
  rcases step_cases h with ⟨heq, -⟩ | ⟨-, heq⟩ | ⟨names, tasks, out, hprogress, hcases⟩
  · rwa [heq]
  · rw [heq]
    refine ⟨by rw [List.length_map, List.length_map], fun index info hinfo => ?_⟩
    rw [List.getElem?_map, Option.map_eq_some_iff] at hinfo
    obtain ⟨-, -, hnone⟩ := hinfo
    cases hnone
  · rw [hprogress] at hs
    rcases hcases with ⟨index, name, -, -, htask, heq⟩ | ⟨index, name, descriptor, -, -, htask, heq⟩ |
      ⟨index, result, -, htask, -, heq⟩ | ⟨-, -, heq⟩
    · rw [heq]
      exact joined_set hs htask nofun
    · rw [heq]
      exact joined_set hs htask nofun
    · rw [heq, joinTask]
      split
      · rename_i info hok
        obtain rfl := joinLookup_eq_ok hok
        refine ⟨by rw [List.length_set]; exact hs.1, fun i info' hinfo => ?_⟩
        rw [List.getElem?_set] at hinfo
        split at hinfo
        · rename_i hi
          exact ⟨info, hi ▸ htask⟩
        · exact hs.2 i info' hinfo
      · trivial
    · rw [heq]
      trivial

lemma failed_step {s s' : ListRace} {a : ListAction} (hjoined : s.progress.Joined) (hs : s.progress.Failed index)
    (h : s.step env order lookups a = some s') : s'.progress.Failed index := by
  rcases step_cases h with ⟨heq, -⟩ | ⟨rfl, -⟩ | ⟨names, tasks, out, hprogress, hcases⟩
  · rwa [heq]
  · cases hprogress : s.progress with
    | idle =>
      rw [hprogress] at hs
      cases hs
    | listing names tasks out => simp [ListRace.step, hprogress] at h
    | returned result => simp [ListRace.step, hprogress] at h
  · rw [hprogress] at hs hjoined
    obtain ⟨e, hfailed⟩ := hs
    rcases hcases with ⟨i, name, -, -, htask, heq⟩ | ⟨i, name, descriptor, -, -, htask, heq⟩ |
      ⟨i, result, -, -, -, heq⟩ | ⟨-, hall, -⟩
    · rw [heq]
      exact ⟨e, getElem?_set_of_completed htask nofun hfailed⟩
    · rw [heq]
      exact ⟨e, getElem?_set_of_completed htask nofun hfailed⟩
    · rw [heq, joinTask]
      split
      · exact ⟨e, hfailed⟩
      · exact ⟨_, rfl⟩
    · -- The loop over the tasks cannot have come to its end.
      have hlt := (List.getElem?_eq_some_iff.mp hfailed).1
      have hsome := hall _ (List.getElem_mem (l := out) (n := index) (by rw [hjoined.1]; exact hlt))
      obtain ⟨info, hinfo⟩ := Option.isSome_iff_exists.mp hsome
      have hslot : out[index]? = some (some info) := by rw [← hinfo, List.getElem?_eq_getElem]
      obtain ⟨info', hcompleted⟩ := hjoined.2 index info hslot
      rw [hfailed] at hcompleted
      cases hcompleted

/-- Fetching the descriptor of a metric that is gone is a failure. -/
lemma failed_of_describe {s s' : ListRace} {name : String} (hname : s.nameAt index = some name)
    (hgone : ¬ s.Stores name) (h : s.step env order lookups (.describe index) = some s') :
    s'.progress.Failed index := by
  rcases step_cases h with ⟨-, hne⟩ | ⟨ha, -⟩ | ⟨names, tasks, out, hprogress, hcases⟩
  · exact absurd rfl (hne index)
  · cases ha
  · rcases hcases with ⟨i, name', ha, hname', htask, heq⟩ | ⟨_, _, _, ha, -⟩ | ⟨_, _, ha, -⟩ | ⟨ha, -⟩
    · obtain rfl := ListAction.describe.inj ha
      rw [ListRace.nameAt, hprogress] at hname
      obtain rfl : name' = name := Option.some.inj (hname'.symm.trans hname)
      rw [heq]
      have hlt := (List.getElem?_eq_some_iff.mp htask).1
      cases hdescriptor : metricDescriptor (lookups index) name' s.table with
      | ok descriptor =>
        obtain ⟨p, hp, hpname, -⟩ := metricDescriptor_eq_ok hdescriptor
        exact absurd ⟨p, hp, hpname⟩ hgone
      | error e =>
        refine ⟨e, ?_⟩
        rw [List.getElem?_set_self hlt, describeTask, hdescriptor]
    · cases ha
    · cases ha
    · cases ha

end Overtaken

/-- A listing that returns has succeeded, with every metric that was stored throughout, exactly
if each descriptor was fetched while the metric still had a point. -/
theorem listing_survives_iff (hlookups : ∀ index, ¬ (lookups index).Faulty) (t : MetricsTable)
    (actions : List ListAction) (s' : ListRace) (result : Except Error (List MetricInfo))
    (hrun : runSteps (ListRace.step env order lookups) actions { table := t } = some s')
    (hreturned : s'.progress = .returned result) :
    (∃ infos, result = .ok infos ∧ ∀ name,
        Throughout (ListRace.step env order lookups) (fun s => s.Stores name) actions { table := t } →
          name ∈ infos.map MetricInfo.name) ↔
      BeforeEach (ListRace.step env order lookups) FindsPoint actions { table := t } := by
  constructor
  · rintro ⟨infos, rfl, -⟩ before a after s₁ rfl hbefore index name rfl hname
    by_contra hgone
    rw [runSteps_append, hbefore, Option.bind_some, runSteps_cons] at hrun
    obtain ⟨s₂, hstep, hafter⟩ := Option.bind_eq_some_iff.mp hrun
    have hjoined : s₁.progress.Joined :=
      invariant_of_run (I := fun s => s.progress.Joined) (fun s a s' hs h => joined_step hs h) trivial hbefore
    have hfailed := invariant_of_run (I := fun s => s.progress.Joined ∧ s.progress.Failed index)
      (fun s a s' hs h => ⟨joined_step hs.1 h, failed_step hs.1 hs.2 h⟩)
      ⟨joined_step hjoined hstep, failed_of_describe hname hgone hstep⟩ hafter
    rw [hreturned] at hfailed
    obtain ⟨e, he⟩ := hfailed.2
    cases he
  · intro hfinds
    have hsucceeding := invariant_of_beforeEach (I := fun s => s.progress.Succeeding)
      (succeeding_step hlookups) hfinds trivial hrun
    rw [hreturned] at hsucceeding
    obtain ⟨infos, rfl⟩ := hsucceeding
    refine ⟨infos, rfl, fun name hstored => ?_⟩
    have hboth : BeforeEach (ListRace.step env order lookups) (fun s a => FindsPoint s a ∧ s.Stores name) actions
        { table := t } :=
      fun before a after s₁ hsplit hbefore =>
        ⟨hfinds before a after s₁ hsplit hbefore,
          (BeforeEach.of_throughout hstored) before a after s₁ hsplit hbefore⟩
    have hlists := invariant_of_beforeEach (I := fun s => s.progress.Succeeding ∧ s.progress.Lists name)
      (fun s a s' hs hpoint h => ⟨succeeding_step hlookups s a s' hs.1 hpoint.1 h, lists_step hs.1 hs.2 hpoint.2 h⟩)
      hboth ⟨trivial, trivial⟩ hrun
    rw [hreturned] at hlists
    exact hlists.2 infos rfl

def Collation.codePoints : Collation where
  lt a b := a < b
  decidable := inferInstance
  strict := inferInstance

def MetricLookup.first : MetricLookup .codePoints where
  newest := .stable NotEarlier
  services := .stable _

lemma MetricLookup.not_faulty_first : ¬ MetricLookup.first.Faulty := by
  simp [MetricLookup.Faulty, MetricLookup.first]

/-- A listing with a write after its walk. -/
def writeBetween : List ListAction :=
  [.walkNames, .write {} (gaugeAt [2]), .describe 0, .walkServices 0, .join 0, .finish]

lemma findsPoint_writeBetween :
    BeforeEach (ListRace.step .inert (.stable _) fun _ => .first) FindsPoint writeBetween { table := tableAt [1] } := by
  refine .cons nofun fun _ hwalk => .cons nofun fun _ hwrite => .cons ?_ fun _ _ => .cons nofun fun _ _ =>
    .cons nofun fun _ _ => .cons nofun fun _ _ => .nil
  cases hwalk
  cases hwrite
  intro index name ha hname
  obtain rfl := ListAction.describe.inj ha
  obtain rfl := Option.some.inj hname
  exact ⟨_, List.mem_cons_self, rfl⟩

theorem listing_survives_write :
    ∃ infos s', runSteps (ListRace.step .inert (.stable _) fun _ => .first) writeBetween { table := tableAt [1] } =
        some s' ∧
      s'.progress = .returned (.ok infos) ∧
      ∀ name, Throughout (ListRace.step .inert (.stable _) fun _ => .first) (fun s => s.Stores name) writeBetween
        { table := tableAt [1] } → name ∈ infos.map MetricInfo.name := by
  refine ⟨_, _, rfl, rfl, ?_⟩
  obtain ⟨infos, hok, hnames⟩ := (listing_survives_iff (fun _ => MetricLookup.not_faulty_first) (tableAt [1])
    writeBetween _ _ rfl rfl).mpr findsPoint_writeBetween
  rw [Except.ok.inj hok]
  exact hnames

/-- A sweep between the two statements deletes the only point, and the listing fails although
no statement of it does. -/
theorem listing_overtaken :
    ∃ s' e, ¬ MetricLookup.first.Faulty ∧
      runSteps (ListRace.step .inert (.stable _) fun _ => .first)
        [.walkNames, .sweep 2 (.first _ _) 0, .describe 0, .join 0] { table := tableAt [1] } = some s' ∧
      s'.progress = .returned (.error e) :=
  ⟨_, _, MetricLookup.not_faulty_first, rfl, rfl⟩

end OtelviewPostgres
