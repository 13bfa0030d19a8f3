import Mathlib

/-!
# ORDER BY and LIMIT

`ORDER BY` returns the rows in an order that leaves ties open. It is a parameter of the
statement, of which only the documented part is known.
-/

namespace Relational

variable {α : Type*}

/-- A rearrangement of each list in which earlier rows are `le` later ones, ties in any order. -/
structure OrderBy (α : Type*) (le : α → α → Prop) where
  sort : List α → List α
  sort_perm : ∀ l, (sort l).Perm l
  pairwise_sort : ∀ l, (sort l).Pairwise le

/-- A rearrangement of which nothing more is known. -/
abbrev AnyOrder (α : Type*) := OrderBy α fun _ _ => True

/-- The rows as they stand. -/
def AnyOrder.unchanged : AnyOrder α where
  sort l := l
  sort_perm := .refl
  pairwise_sort _ := List.pairwise_of_forall fun _ _ => trivial

namespace OrderBy

variable {le : α → α → Prop} (order : OrderBy α le)

@[simp] lemma mem_sort (l : List α) (a : α) : a ∈ order.sort l ↔ a ∈ l := (order.sort_perm l).mem_iff

@[simp] lemma length_sort (l : List α) : (order.sort l).length = l.length := (order.sort_perm l).length_eq

/-- The stable sort is one of the orders. -/
def stable (le : α → α → Prop) [DecidableRel le] [Std.Total le] [IsTrans α le] : OrderBy α le where
  sort l := l.insertionSort le
  sort_perm l := List.perm_insertionSort le l
  pairwise_sort l := List.pairwise_insertionSort le l

lemma mem_of_mem_take_sort {l : List α} {a : α} {limit : ℕ} (h : a ∈ (order.sort l).take limit) : a ∈ l :=
  (order.mem_sort l a).mp ((List.take_sublist _ _).subset h)

/-- What a limit leaves out comes after all that it leaves. -/
lemma le_of_notMem_take {l : List α} {a : α} {limit : ℕ} (ha : a ∈ l) (hout : a ∉ (order.sort l).take limit) :
    ((order.sort l).take limit).length = limit ∧ ∀ b ∈ (order.sort l).take limit, le b a := by
  have hmem : a ∈ (order.sort l).take limit ++ (order.sort l).drop limit := by
    rw [List.take_append_drop]
    exact (order.mem_sort l a).mpr ha
  have hdrop := (List.mem_append.mp hmem).resolve_left hout
  have hsorted := order.pairwise_sort l
  rw [← List.take_append_drop limit (order.sort l), List.pairwise_append] at hsorted
  refine ⟨?_, fun b hb => hsorted.2.2 b hb a hdrop⟩
  have hpos := List.length_pos_of_mem hdrop
  rw [List.length_drop] at hpos
  rw [List.length_take]
  omega

/-- A limit leaves something of a table that is not empty. -/
lemma exists_mem_take_sort {l : List α} {a : α} {limit : ℕ} (ha : a ∈ l) (hlimit : 0 < limit) :
    ∃ b, b ∈ (order.sort l).take limit := by
  have hne : (order.sort l).take limit ≠ [] := by
    rw [Ne, List.take_eq_nil_iff, not_or]
    exact ⟨hlimit.ne', List.ne_nil_of_mem ((order.mem_sort l a).mpr ha)⟩
  exact List.exists_mem_of_ne_nil _ hne

/-- Unless the limit leaves some row of a kind, it leaves others only, none of which is after
any of the kind. -/
theorem exists_mem_take_sort_or_le [DecidableRel le] (kind : α → Bool) {l : List α} {a : α} (ha : a ∈ l)
    (hkind : kind a = true) (limit : ℕ) :
    (∃ b ∈ (order.sort l).take limit, kind b = true) ∨ limit ≤ l.countP (fun b => kind b = false ∧ le b a) := by
  by_cases hexists : ∃ b ∈ (order.sort l).take limit, kind b = true
  · exact .inl hexists
  · right
    push Not at hexists
    have hsplit := List.take_append_drop limit (order.sort l)
    have hdrop : a ∈ (order.sort l).drop limit := by
      have hall : a ∈ (order.sort l).take limit ++ (order.sort l).drop limit := by
        rw [hsplit]
        exact (order.mem_sort l a).mpr ha
      exact (List.mem_append.mp hall).resolve_left fun hmem => hexists a hmem hkind
    have hpair := order.pairwise_sort l
    rw [← hsplit, List.pairwise_append] at hpair
    have hbefore : ∀ b ∈ (order.sort l).take limit, decide (kind b = false ∧ le b a) = true := by
      intro b hb
      rw [decide_eq_true_iff]
      exact ⟨Bool.eq_false_of_not_eq_true (hexists b hb), hpair.2.2 b hb a hdrop⟩
    have hlen : ((order.sort l).take limit).length = limit := by
      have hpos := List.length_pos_of_mem hdrop
      rw [List.length_drop] at hpos
      rw [List.length_take]
      omega
    calc limit = ((order.sort l).take limit).countP (fun b => kind b = false ∧ le b a) := by
          rw [List.countP_eq_length.mpr hbefore, hlen]
      _ ≤ (order.sort l).countP (fun b => kind b = false ∧ le b a) := (List.take_sublist _ _).countP_le
      _ = l.countP (fun b => kind b = false ∧ le b a) := (order.sort_perm l).countP_eq _

/-- A row that the limit cuts off has as many others before it as the limit allows. -/
theorem mem_take_sort_or_le [DecidableEq α] [DecidableRel le] {l : List α} {a : α} (ha : a ∈ l) (limit : ℕ) :
    a ∈ (order.sort l).take limit ∨ limit ≤ l.countP (fun b => b ≠ a ∧ le b a) := by
  rcases order.exists_mem_take_sort_or_le (fun b => b = a) ha (decide_eq_true rfl) limit with
    ⟨b, hb, heq⟩ | hle
  · rw [of_decide_eq_true heq] at hb
    exact .inl hb
  · simp only [decide_eq_false_iff_not] at hle
    exact .inr hle

/-- A row that the limit leaves has fewer rows strictly before it than the limit allows. -/
theorem countP_lt_of_mem_take [DecidableRel le] [Std.Refl le] {l : List α} {a : α} {limit : ℕ}
    (ha : a ∈ (order.sort l).take limit) : l.countP (fun b => ¬ le a b) < limit := by
  obtain ⟨u, v, huv⟩ := List.append_of_mem ha
  have hpair := order.pairwise_sort l
  rw [← List.take_append_drop limit (order.sort l), huv, List.append_assoc, List.cons_append] at hpair
  have hafter : ∀ b ∈ a :: (v ++ (order.sort l).drop limit), ¬ decide (¬ le a b) = true := by
    intro b hb
    rw [decide_eq_true_iff, not_not]
    rcases List.mem_cons.mp hb with rfl | hb
    · exact Std.Refl.refl b
    · exact (List.pairwise_cons.mp (List.pairwise_append.mp hpair).2.1).1 b hb
  have hlen : u.length + (v.length + 1) ≤ limit := by
    rw [← List.length_cons (a := a), ← List.length_append, ← huv]
    exact List.length_take_le _ _
  calc l.countP (fun b => ¬ le a b) = (order.sort l).countP (fun b => ¬ le a b) :=
        ((order.sort_perm l).countP_eq _).symm
    _ = (u ++ a :: (v ++ (order.sort l).drop limit)).countP (fun b => ¬ le a b) := by
        rw [← List.cons_append, ← List.append_assoc, ← huv, List.take_append_drop]
    _ = u.countP (fun b => ¬ le a b) := by
        rw [List.countP_append, List.countP_eq_zero.mpr hafter, Nat.add_zero]
    _ < limit := by
        have hle := List.countP_le_length (p := fun b => decide (¬ le a b)) (l := u)
        omega

/-- Unless ties of a row lie across the limit, whether it is left does not depend on their order. -/
theorem mem_take_sort_iff [DecidableEq α] [DecidableRel le] [Std.Refl le] {l : List α} {a : α} {limit : ℕ}
    (ha : a ∈ l) (huntied : limit ≤ l.countP (fun b => ¬ le a b) ∨ l.countP (fun b => le b a) ≤ limit) :
    a ∈ (order.sort l).take limit ↔ l.countP (fun b => le b a) ≤ limit := by
  have hself : l.countP (fun b => b ≠ a ∧ le b a) < l.countP (fun b => le b a) := by
    have hfilter : l.filter (fun b => b ≠ a ∧ le b a) = (l.filter fun b => le b a).filter fun b => b ≠ a := by
      rw [List.filter_filter]
      apply List.filter_congr
      intro b _
      rw [Bool.decide_and]
    rw [List.countP_eq_length_filter, List.countP_eq_length_filter, hfilter, List.length_filter_lt_length_iff_exists]
    refine ⟨a, List.mem_filter.mpr ⟨ha, ?_⟩, by simp⟩
    rw [decide_eq_true_iff]
    exact Std.Refl.refl a
  constructor
  · intro hmem
    exact huntied.resolve_left (not_le.mpr (order.countP_lt_of_mem_take hmem))
  · intro hle
    apply (order.mem_take_sort_or_le ha limit).resolve_right
    exact fun hlimit => absurd (hlimit.trans_lt hself) (not_lt.mpr hle)

/-- Before, or a tie that a row of the kind does not win. -/
def TiesLast (le : α → α → Prop) (kind : α → Bool) (a b : α) : Prop :=
  le a b ∧ (le b a → kind a = true → kind b = true)

section Last

variable {le : α → α → Prop} {kind : α → Bool}

instance [DecidableRel le] : DecidableRel (TiesLast le kind) := fun a b =>
  inferInstanceAs (Decidable (le a b ∧ (le b a → kind a = true → kind b = true)))

instance [Std.Total le] : Std.Total (TiesLast le kind) := ⟨fun a b => by
  by_cases hab : le a b
  · by_cases hba : le b a
    · by_cases hb : kind b = true
      · exact .inl ⟨hab, fun _ _ => hb⟩
      · exact .inr ⟨hba, fun _ h => absurd h hb⟩
    · exact .inl ⟨hab, fun h => absurd h hba⟩
  · exact .inr ⟨(Std.Total.total a b).resolve_left hab, fun h => absurd h hab⟩⟩

instance [IsTrans α le] : IsTrans α (TiesLast le kind) := ⟨fun _ _ _ hab hbc =>
  ⟨trans_of le hab.1 hbc.1, fun hca ha =>
    hbc.2 (trans_of le hca hab.1) (hab.2 (trans_of le hbc.1 hca) ha)⟩⟩

/-- Among ties the rows of the kind come last. -/
def tiesLast (le : α → α → Prop) [DecidableRel le] [Std.Total le] [IsTrans α le] (kind : α → Bool) :
    OrderBy α le where
  sort l := l.insertionSort (TiesLast le kind)
  sort_perm l := List.perm_insertionSort (TiesLast le kind) l
  pairwise_sort l := (List.pairwise_insertionSort (TiesLast le kind) l).imp fun h => h.1

variable [DecidableRel le] [Std.Total le] [IsTrans α le]

/-- A row of the kind has to wait for all that are not of the kind and not after it. -/
theorem countP_lt_of_mem_take_tiesLast {l : List α} {a : α} {limit : ℕ}
    (ha : a ∈ ((tiesLast le kind).sort l).take limit) (hkind : kind a = true) :
    l.countP (fun b => ¬ le a b ∨ le b a ∧ kind b = false) < limit := by
  have hcount := countP_lt_of_mem_take (stable (TiesLast le kind)) ha
  refine lt_of_le_of_lt (List.countP_mono_left fun b _ hb => ?_) hcount
  rw [decide_eq_true_iff] at hb ⊢
  rintro ⟨hab, hties⟩
  rcases hb with hb | ⟨hba, hb⟩
  · exact hb hab
  · rw [hties hba hkind] at hb
    cases hb

end Last

end OrderBy

/-- In a list sorted by a key, the elements of one key are side by side. -/
theorem eq_filter_append_filter {κ : Type*} [LinearOrder κ] {key : α → κ} {l : List α}
    (h : l.Pairwise fun a b => key a ≤ key b) (k : κ) :
    l = l.filter (fun a => key a < k) ++ (l.filter (fun a => key a = k) ++ l.filter fun a => k < key a) := by
  induction l with
  | nil => rfl
  | cons a l ih =>
    obtain ⟨ha, hl⟩ := List.pairwise_cons.mp h
    have hnone : ∀ p : α → Bool, (∀ b ∈ l, p b = false) → l.filter p = [] := by
      intro p hp
      rw [List.filter_eq_nil_iff]
      intro b hb
      rw [hp b hb]
      exact Bool.false_ne_true
    rcases lt_trichotomy (key a) k with hlt | heq | hgt
    · rw [List.filter_cons_of_pos (by simpa using hlt), List.filter_cons_of_neg (by simpa using hlt.ne),
        List.filter_cons_of_neg (by simpa using hlt.le), List.cons_append, ← ih hl]
    · have hbelow := hnone (fun b => key b < k) fun b hb => decide_eq_false (not_lt.mpr (heq ▸ ha b hb))
      have hrest := ih hl
      rw [hbelow, List.nil_append] at hrest
      rw [List.filter_cons_of_neg (by simpa using heq.ge), List.filter_cons_of_pos (by simpa using heq),
        List.filter_cons_of_neg (by simpa using heq.le), hbelow, List.nil_append, List.cons_append, ← hrest]
    · have hbelow := hnone (fun b => key b < k) fun b hb => decide_eq_false (not_lt.mpr (hgt.le.trans (ha b hb)))
      have hequal := hnone (fun b => key b = k) fun b hb => decide_eq_false (hgt.trans_le (ha b hb)).ne'
      have hrest := ih hl
      rw [hbelow, hequal, List.nil_append, List.nil_append] at hrest
      rw [List.filter_cons_of_neg (by simpa using hgt.le), List.filter_cons_of_neg (by simpa using hgt.ne'),
        List.filter_cons_of_pos (by simpa using hgt), hbelow, hequal, List.nil_append, List.nil_append, ← hrest]

end Relational
