import OtelviewPostgres.Model.Server

/-!
# Streams of chunks

A stream of payloads that each decode to one item consists of messages of at least one item
and at most as many as a chunk has payloads, and taken apart they are the items in order.
-/

namespace OtelviewPostgres

open Relational

section Streams

variable {α β ι : Type}

/-- The messages of a stream, for a way to take them apart. -/
structure StreamsItems (parts : α → List ι) (items : List ι) (messages : List α) : Prop where
  flatMap : messages.flatMap parts = items
  length : ∀ message ∈ messages, 1 ≤ (parts message).length ∧ (parts message).length ≤ chunkSize

lemma exists_messages {merge : List Bytes → Except Error α} (parts : α → List ι) (piece : Bytes → List ι)
    {groups : List (List Bytes)}
    (h : ∀ group ∈ groups, ∃ message, merge group = .ok message ∧ parts message = group.flatMap piece) :
    ∃ messages : List α, groups.map (fun group => (merge group).mapError internal) = messages.map .ok ∧
      messages.map parts = groups.map fun group => group.flatMap piece := by
  induction groups with
  | nil => exact ⟨[], rfl, rfl⟩
  | cons group groups ih =>
    rw [List.forall_mem_cons] at h
    obtain ⟨message, hmerge, hparts⟩ := h.1
    obtain ⟨messages, hok, hrest⟩ := ih h.2
    refine ⟨message :: messages, ?_, ?_⟩
    · rw [List.map_cons, List.map_cons, hmerge, hok]
      rfl
    · rw [List.map_cons, List.map_cons, hparts, hrest]

/-- What is streamed of payloads that merge to the pieces they have. -/
theorem streamChunks_eq {merge : List Bytes → Except Error α} (parts : α → List ι) (piece : Bytes → List ι)
    {payloads : List Bytes}
    (hmerge : ∀ group, group ⊆ payloads → ∃ message, merge group = .ok message ∧ parts message = group.flatMap piece)
    (hone : ∀ payload ∈ payloads, (piece payload).length = 1) :
    ∃ messages : List α, streamChunks payloads merge = messages.map .ok ∧
      StreamsItems parts (payloads.flatMap piece) messages := by
  have hpos : 0 < chunkSize := by decide
  obtain ⟨messages, hok, hparts⟩ := exists_messages parts piece fun group hgroup =>
    hmerge group (sublist_of_mem_chunks hpos hgroup).subset
  refine ⟨messages, hok, ?_, fun message hmessage => ?_⟩
  · calc messages.flatMap parts = (chunks chunkSize payloads).flatMap fun group => group.flatMap piece := by
          rw [List.flatMap_def, hparts, ← List.flatMap_def]
      _ = ((chunks chunkSize payloads).flatMap id).flatMap piece := List.flatMap_assoc.symm
      _ = payloads.flatMap piece := by rw [List.flatMap_id, flatten_chunks hpos]
  · have hmem := List.mem_map_of_mem (f := parts) hmessage
    rw [hparts, List.mem_map] at hmem
    obtain ⟨group, hgroup, heq⟩ := hmem
    have hsub := (sublist_of_mem_chunks hpos hgroup).subset
    have hlen : (group.flatMap piece).length = group.length := by
      rw [length_flatMap_of_length fun payload hpayload => hone payload (hsub hpayload), Nat.mul_one]
    rw [← heq, hlen]
    exact length_mem_chunks hpos hgroup

/-- Merging what payloads decode to. -/
lemma exists_merged {codec : Codec α} {f : α → List β} {group : List Bytes}
    (h : ∀ payload ∈ group, (codec.decode payload).isSome) (acc : List β) :
    ∃ out, group.foldlM (fun acc payload => do return acc ++ f (← decodePayload codec payload)) acc =
        .ok (acc ++ out) ∧
      ∀ g : β → List ι, out.flatMap g = group.flatMap fun payload =>
        ((codec.decode payload).map fun a => (f a).flatMap g).getD [] := by
  induction group generalizing acc with
  | nil =>
    refine ⟨[], ?_, fun _ => rfl⟩
    rw [List.append_nil]
    rfl
  | cons payload group ih =>
    rw [List.forall_mem_cons] at h
    obtain ⟨a, ha⟩ := Option.isSome_iff_exists.mp h.1
    obtain ⟨out, hout, hparts⟩ := ih h.2 (acc ++ f a)
    refine ⟨f a ++ out, ?_, fun g => ?_⟩
    · rw [List.foldlM_cons, decodePayload, ha, ← List.append_assoc]
      exact hout
    · rw [List.flatMap_append, List.flatMap_cons, ha, hparts]
      rfl

end Streams

end OtelviewPostgres
