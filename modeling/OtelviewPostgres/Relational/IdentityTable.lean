import OtelviewPostgres.Relational.KeyedTable

/-!
# Tables with an identity column

A table whose rows carry no key of their own: each insert is given an id that no stored
row has. Such a table is a keyed table, and what it holds is a list of rows in the order
in which they were added.
-/

namespace Relational

structure Stored (ρ : Type*) where
  id : ℕ
  row : ρ

abbrev IdentityTable (ρ : Type*) := KeyedTable (fun s : Stored ρ => s.id)

namespace IdentityTable

variable {ρ : Type*}

/-- An id above every id in use. Which free id an insert is given cannot be observed. -/
def freshId (t : IdentityTable ρ) : ℕ := (t.rows.map Stored.id).foldr (fun i n => max (i + 1) n) 0

lemma lt_freshId (t : IdentityTable ρ) {s : Stored ρ} (hs : s ∈ t.rows) : s.id < t.freshId := by
  have hall : ∀ l : List ℕ, ∀ i ∈ l, i < l.foldr (fun i n => max (i + 1) n) 0 := by
    intro l
    induction l with
    | nil => simp
    | cons j l ih =>
      intro i hi
      rw [List.foldr_cons, lt_max_iff]
      rcases List.mem_cons.mp hi with rfl | hi
      · exact .inl (Nat.lt_succ_self i)
      · exact .inr (ih i hi)
  exact hall _ _ (List.mem_map_of_mem hs)

def insert (t : IdentityTable ρ) (r : ρ) : IdentityTable ρ where
  rows := t.rows ++ [⟨t.freshId, r⟩]
  nodup_keys := by
    rw [List.map_append, List.nodup_append]
    refine ⟨t.nodup_keys, by simp, ?_⟩
    rintro i hi j hj rfl
    obtain ⟨s, hs, rfl⟩ := List.mem_map.mp hi
    rw [List.map_singleton, List.mem_singleton] at hj
    exact absurd hj (t.lt_freshId hs).ne

def insertAll (t : IdentityTable ρ) (rows : List ρ) : IdentityTable ρ := rows.foldl insert t

/-- The rows without their ids. -/
def contents (t : IdentityTable ρ) : List ρ := t.rows.map Stored.row

@[simp] lemma contents_empty : contents (∅ : IdentityTable ρ) = [] := rfl

@[simp] lemma contents_insert (t : IdentityTable ρ) (r : ρ) : (t.insert r).contents = t.contents ++ [r] := by
  simp [contents, insert]

@[simp] lemma insertAll_nil (t : IdentityTable ρ) : t.insertAll [] = t := rfl

lemma insertAll_append (t : IdentityTable ρ) (rows rows' : List ρ) :
    t.insertAll (rows ++ rows') = (t.insertAll rows).insertAll rows' := List.foldl_append

lemma insertAll_flatten (t : IdentityTable ρ) (batches : List (List ρ)) :
    t.insertAll batches.flatten = batches.foldl insertAll t := by
  induction batches generalizing t with
  | nil => rfl
  | cons rows batches ih => rw [List.flatten_cons, insertAll_append, ih, List.foldl_cons]

/-- Inserting adds the rows, each once, after those that were there. -/
@[simp] theorem contents_insertAll (t : IdentityTable ρ) (rows : List ρ) :
    (t.insertAll rows).contents = t.contents ++ rows := by
  induction rows generalizing t with
  | nil => simp
  | cons r rows ih =>
    change ((t.insert r).insertAll rows).contents = _
    rw [ih, contents_insert, List.append_assoc, List.singleton_append]

lemma mem_insertAll_of_mem {t : IdentityTable ρ} {s : Stored ρ} (hs : s ∈ t.rows) (rows : List ρ) :
    s ∈ (t.insertAll rows).rows := by
  induction rows generalizing t with
  | nil => exact hs
  | cons r rows ih => exact ih (t := t.insert r) (List.mem_append_left _ hs)

lemma forall_insertAll {P : ρ → Prop} {t : IdentityTable ρ} {rows : List ρ} (ht : ∀ r ∈ t.rows, P r.row)
    (hrows : ∀ row ∈ rows, P row) : ∀ r ∈ (t.insertAll rows).rows, P r.row := by
  intro r hr
  have hmem : r.row ∈ (t.insertAll rows).contents := List.mem_map_of_mem hr
  rw [contents_insertAll, List.mem_append] at hmem
  cases hmem with
  | inl hold =>
    obtain ⟨r', hr', heq⟩ := List.mem_map.mp hold
    exact heq ▸ ht r' hr'
  | inr hnew => exact hrows _ hnew

end IdentityTable

end Relational
