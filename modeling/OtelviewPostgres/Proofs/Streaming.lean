import OtelviewPostgres.Model.Streaming
import OtelviewPostgres.Proofs.LogReadback
import OtelviewPostgres.Proofs.MetricReadback
import OtelviewPostgres.Proofs.TraceHistory

/-!
# What a client has received

Whatever the order in which the task of a stream and its client take their steps, the client has at
any moment the first messages of the answer, the task is not far ahead of it, and a client that goes
on reading comes to the end with the whole answer.
-/

namespace OtelviewPostgres

open Channels Relational

section Chunks

variable {α ι : Type}

/-- What the client of a stream has received, taken apart: the first of the items in full messages,
and at the end of the stream all of them. -/
structure Received (parts : α → List ι) (items : List ι) {κ : Type} (p : Pipe κ (Except Status α)) : Prop where
  messages : ∃ messages : List α, p.taken = messages.map .ok ∧ messages.flatMap parts <+: items ∧
    (p.reader = .ended → messages.flatMap parts = items) ∧
    ∀ message ∈ messages, 1 ≤ (parts message).length ∧ (parts message).length ≤ chunkSize

lemma received_of_delivers {merge : List Bytes → Except Error α} (parts : α → List ι) (piece : Bytes → List ι)
    {payloads : List Bytes}
    (hmerge : ∀ group, group ⊆ payloads → ∃ message, merge group = .ok message ∧ parts message = group.flatMap piece)
    (hone : ∀ payload ∈ payloads, (piece payload).length = 1) {p : Pipe (List Bytes) (Except Status α)}
    (h : p.Delivers (chunkMessage merge) chunksCapacity (chunks chunkSize payloads)) :
    Received parts (payloads.flatMap piece) p := by
  obtain ⟨messages, hstream, hitems⟩ := streamChunks_eq parts piece hmerge hone
  have htaken : p.taken <+: messages.map .ok := hstream ▸ h.taken
  have hfirst : p.taken = (messages.take p.taken.length).map .ok := by
    rw [List.map_take]
    exact List.prefix_iff_eq_take.mp htaken
  refine ⟨messages.take p.taken.length, hfirst, ?_, fun hended => ?_, fun message hmessage => ?_⟩
  · rw [← hitems.flatMap]
    exact (List.take_prefix _ messages).flatMap parts
  · have hall : p.taken = messages.map .ok := (h.ended hended).trans hstream
    rw [hall, List.length_map, List.take_length]
    exact hitems.flatMap
  · exact hitems.length message (List.mem_of_mem_take hmessage)

end Chunks

/-- Every stored record is that of some exported one. -/
lemma exists_logItem {env : Externals} {s : Store} (hs : s.Reachable env) :
    ∀ r ∈ s.logs.rows, ∃ x, logItemRow env x = .ok r.row := by
  have hitems : RowProperty.OfItems { log := fun row => ∃ x, logItemRow env x = .ok row } env :=
    ⟨fun _ _ => trivial, fun h => ⟨_, h⟩, fun _ _ _ _ => trivial⟩
  exact (hitems.ofStore hs).logs

/-- What a search for logs finds: records that match, the newest ones, each once and the newest first,
and no more of them than the depth. -/
structure FoundLogs (env : Externals) (fold : Char → Char) (depth : ℕ) (query : LogQueryParameters) (t : LogsTable)
    (rows : List (Stored LogRow)) : Prop where
  nodup : rows.Nodup
  length_le : rows.length ≤ depth
  stored : ∀ r ∈ rows, r ∈ t.rows ∧ query.Matches env fold r.row
  newestFirst : rows.Pairwise NewerLog
  newest : ∀ r' ∈ t.rows, query.Matches env fold r'.row → r' ∉ rows →
    rows.length = depth ∧ ∀ r ∈ rows, r'.row.time ≤ r.row.time

/-- Matching is meeting the conditions that the query has. -/
lemma matches_iff_all {env : Externals} {fold : Char → Char} {query : LogQueryParameters}
    {conditions : List LogCondition} (h : logConditions query = .ok conditions) (row : LogRow) :
    query.Matches env fold row ↔ (conditions.all fun condition => condition.holds env fold row) = true := by
  constructor
  · rintro ⟨conditions', hconditions', hall⟩
    rw [h] at hconditions'
    obtain rfl := Except.ok.inj hconditions'
    exact hall
  · exact fun hall => ⟨conditions, h, hall⟩

lemma foundLogs_of_findLogs {env : Externals} {fold : Char → Char} {maxSearchDepth : ℕ}
    {order : OrderBy (Stored LogRow) NewerLog} {query : LogQueryParameters} {t : LogsTable} {payloads : List Bytes}
    (h : findLogs env fold maxSearchDepth none none order query t = .ok payloads) :
    ∃ rows, payloads = rows.map (fun r => r.row.payload) ∧
      FoundLogs env fold (searchDepth maxSearchDepth query.searchDepth) query t rows := by
  obtain ⟨conditions, hconditions, h⟩ := bind_eq_ok.mp h
  obtain rfl := Except.ok.inj h
  refine ⟨_, rfl, ?_, ?_, fun r hr => ?_, ?_, fun r' hr' hmatch hout => ?_⟩
  · have hnodup : t.rows.Nodup := List.Nodup.of_map Stored.id t.nodup_keys
    have hsorted :=
      (order.sort_perm (t.rows.filter fun r => conditions.all fun c => c.holds env fold r.row)).nodup_iff.mpr
        (hnodup.filter _)
    exact hsorted.sublist (List.take_sublist _ _)
  · rw [logRows, List.length_take]
    exact min_le_left _ _
  · obtain ⟨hstored, hall⟩ := List.mem_filter.mp (order.mem_of_mem_take_sort hr)
    exact ⟨hstored, (matches_iff_all hconditions r.row).mpr hall⟩
  · exact (order.pairwise_sort _).sublist (List.take_sublist _ _)
  · exact order.le_of_notMem_take (List.mem_filter.mpr ⟨hr', (matches_iff_all hconditions r'.row).mp hmatch⟩) hout

end OtelviewPostgres
