import Mathlib

/-!
# Loops that can fail

Loops over a list whose body can fail: nested loops are one loop over the flattened list,
a loop that pushes results is a map, a map succeeds exactly when each call does, and
statements that succeed have their effects in turn.
-/

namespace Relational

variable {α β γ ε : Type}

lemma bind_eq_ok {x : Except ε α} {f : α → Except ε β} {b : β} : x >>= f = .ok b ↔ ∃ a, x = .ok a ∧ f a = .ok b := by
  cases x with
  | error e =>
    constructor
    · intro h
      cases h
    · rintro ⟨a, ha, -⟩
      cases ha
  | ok a =>
    constructor
    · intro h
      exact ⟨a, rfl, h⟩
    · rintro ⟨a', ha, h⟩
      rwa [Except.ok.inj ha]

lemma bind_eq_error {x : Except ε α} {f : α → Except ε β} {e : ε} :
    x >>= f = .error e ↔ x = .error e ∨ ∃ a, x = .ok a ∧ f a = .error e := by
  cases x with
  | error e' =>
    constructor
    · intro h
      exact .inl (congrArg Except.error (Except.error.inj h))
    · rintro (h | ⟨a, ha, -⟩)
      · exact congrArg Except.error (Except.error.inj h)
      · cases ha
  | ok a =>
    constructor
    · intro h
      exact .inr ⟨a, rfl, h⟩
    · rintro (h | ⟨a', ha, h⟩)
      · cases h
      · rwa [Except.ok.inj ha]

lemma mapError_eq_ok {ε' : Type} {x : Except ε α} {f : ε → ε'} {a : α} : x.mapError f = .ok a ↔ x = .ok a := by
  cases x with
  | error e =>
    constructor
    · intro h
      cases h
    · intro h
      cases h
  | ok b =>
    constructor
    · intro h
      exact congrArg Except.ok (Except.ok.inj h)
    · intro h
      exact congrArg Except.ok (Except.ok.inj h)

/-- The call fails exactly if something is refused, and then with an error that has the property. -/
def Checks (P : ε → Prop) (refused : Prop) : Except ε α → Prop
  | .error e => refused ∧ P e
  | .ok _ => ¬ refused

namespace Checks

variable {P : ε → Prop} {p q : Prop} {x : Except ε α} {f : α → Except ε β}

lemma bind (hx : Checks P p x) (hf : ∀ a, Checks P q (f a)) : Checks P (p ∨ q) (x >>= f) := by
  cases x with
  | error e => exact ⟨.inl hx.1, hx.2⟩
  | ok a =>
    have hfa := hf a
    change Checks P (p ∨ q) (f a)
    cases hres : f a with
    | error e =>
      rw [hres] at hfa
      exact ⟨.inr hfa.1, hfa.2⟩
    | ok b =>
      rw [hres] at hfa
      exact not_or.mpr ⟨hx, hfa⟩

lemma bind_pure (hx : Checks P p x) (g : α → β) : Checks P p (x >>= fun a => pure (g a)) := by
  cases x with
  | error e => exact hx
  | ok a => exact hx

lemma mapError {ε' : Type} {Q : ε' → Prop} {g : ε → ε'} (hx : Checks P p x) (hg : ∀ e, P e → Q (g e)) :
    Checks Q p (x.mapError g) := by
  cases x with
  | error e => exact ⟨hx.1, hg e hx.2⟩
  | ok a => exact hx

/-- What is not given is not refused. -/
lemma of_none (refused : γ → Prop) (a : α) : Checks P (∃ c ∈ (none : Option γ), refused c) (.ok a : Except ε α) := by
  rintro ⟨c, hc, -⟩
  cases hc

lemma of_some {refused : γ → Prop} {c : γ} (hx : Checks P (refused c) x) : Checks P (∃ c' ∈ some c, refused c') x := by
  simpa only [Option.mem_some_iff, exists_eq_left'] using hx

end Checks

lemma length_flatMap_of_length {f : α → List β} {l : List α} {n : ℕ} (h : ∀ a ∈ l, (f a).length = n) :
    (l.flatMap f).length = l.length * n := by
  rw [List.length_flatMap, List.map_congr_left h, List.map_const', List.sum_replicate, smul_eq_mul]

lemma foldlM_flatMap (f : α → List β) (g : γ → β → Except ε γ) (l : List α) (c : γ) :
    (l.flatMap f).foldlM g c = l.foldlM (fun c a => (f a).foldlM g c) c := by
  induction l generalizing c with
  | nil => rfl
  | cons a l ih =>
    rw [List.flatMap_cons, List.foldlM_append, List.foldlM_cons]
    simp only [ih]

lemma foldlM_push (f : α → Except ε β) (l : List α) (acc : List β) :
    l.foldlM (fun acc a => do return acc ++ [← f a]) acc = (do return acc ++ (← l.mapM f)) := by
  induction l generalizing acc with
  | nil =>
    rw [List.foldlM_nil, List.mapM_nil, pure_bind, List.append_nil]
  | cons a l ih =>
    rw [List.foldlM_cons, List.mapM_cons]
    cases f a with
    | error e => rfl
    | ok b =>
      have hb := ih (acc ++ [b])
      simp only [List.append_assoc, List.singleton_append] at hb
      simp only [bind, Except.bind, pure, Except.pure] at hb ⊢
      rw [hb]
      cases l.mapM f <;> rfl

theorem mapM_eq_ok_iff {f : α → Except ε β} {l : List α} {m : List β} :
    l.mapM f = .ok m ↔ List.Forall₂ (fun a b => f a = .ok b) l m := by
  induction l generalizing m with
  | nil =>
    rw [List.mapM_nil, List.forall₂_nil_left_iff]
    constructor
    · intro h
      cases h
      rfl
    · rintro rfl
      rfl
  | cons a l ih =>
    rw [List.mapM_cons]
    constructor
    · intro h
      obtain ⟨b, ha, h⟩ := bind_eq_ok.mp h
      obtain ⟨bs, hl, h⟩ := bind_eq_ok.mp h
      obtain rfl := Except.ok.inj h
      exact .cons ha (ih.mp hl)
    · rintro (_ | ⟨ha, hl⟩)
      rw [ha, ih.mpr hl]
      rfl

lemma exists_of_mem_mapM {f : α → Except ε β} {l : List α} {m : List β} (h : l.mapM f = .ok m) {b : β}
    (hb : b ∈ m) : ∃ a ∈ l, f a = .ok b := by
  obtain ⟨i, hi, rfl⟩ := List.getElem_of_mem hb
  obtain ⟨hlen, hget⟩ := List.forall₂_iff_get.mp (mapM_eq_ok_iff.mp h)
  have hil : i < l.length := by omega
  exact ⟨l[i], List.getElem_mem hil, hget i hil hi⟩

lemma exists_mem_of_mapM {f : α → Except ε β} {l : List α} {m : List β} (h : l.mapM f = .ok m) {a : α}
    (ha : a ∈ l) : ∃ b ∈ m, f a = .ok b := by
  obtain ⟨i, hi, rfl⟩ := List.getElem_of_mem ha
  obtain ⟨hlen, hget⟩ := List.forall₂_iff_get.mp (mapM_eq_ok_iff.mp h)
  have him : i < m.length := by omega
  exact ⟨m[i], List.getElem_mem him, hget i hi him⟩

/-- Where a loop fails, one of the calls does. -/
lemma exists_of_mapM_eq_error {f : α → Except ε β} {l : List α} {e : ε} (h : l.mapM f = .error e) :
    ∃ a ∈ l, f a = .error e := by
  induction l with
  | nil => cases h
  | cons a l ih =>
    rw [List.mapM_cons] at h
    rcases bind_eq_error.mp h with ha | ⟨b, -, h⟩
    · exact ⟨a, List.mem_cons_self, ha⟩
    · rcases bind_eq_error.mp h with hl | ⟨bs, -, h⟩
      · obtain ⟨a', ha', heq⟩ := ih hl
        exact ⟨a', List.mem_cons_of_mem a ha', heq⟩
      · cases h

lemma exists_mapM_eq_ok {f : α → Except ε β} {l : List α} (h : ∀ a ∈ l, ∃ b, f a = .ok b) : ∃ m, l.mapM f = .ok m := by
  induction l with
  | nil => exact ⟨[], rfl⟩
  | cons a l ih =>
    rw [List.forall_mem_cons] at h
    obtain ⟨b, hb⟩ := h.1
    obtain ⟨m, hm⟩ := ih h.2
    exact ⟨b :: m, mapM_eq_ok_iff.mpr (.cons hb (mapM_eq_ok_iff.mp hm))⟩

/-- What the calls return agrees with what they are called with. -/
lemma map_eq_map_of_mapM {f : α → Except ε β} (g : β → γ) (g' : α → γ) {l : List α} {m : List β}
    (h : l.mapM f = .ok m) (hg : ∀ a b, f a = .ok b → g b = g' a) : m.map g = l.map g' := by
  have hl := mapM_eq_ok_iff.mp h
  clear h
  induction hl with
  | nil => rfl
  | cons hab _ ih => rw [List.map_cons, List.map_cons, ih, hg _ _ hab]

/-- What is returned in another order is returned for the arguments in another order. -/
lemma exists_perm_mapM {f : α → Except ε β} {l : List α} {m m' : List β} (h : l.mapM f = .ok m) (hperm : m.Perm m') :
    ∃ l' : List α, l'.Perm l ∧ l'.mapM f = .ok m' := by
  have hcomp : Relation.Comp (List.Forall₂ fun a b => f a = .ok b) List.Perm l m' := ⟨m, mapM_eq_ok_iff.mp h, hperm⟩
  rw [List.forall₂_comp_perm_eq_perm_comp_forall₂] at hcomp
  obtain ⟨l', hl', hforall⟩ := hcomp
  exact ⟨l', hl'.symm, mapM_eq_ok_iff.mpr hforall⟩

lemma mapM_append_eq_ok {f : α → Except ε β} {l l' : List α} {m m' : List β} (h : l.mapM f = .ok m)
    (h' : l'.mapM f = .ok m') : (l ++ l').mapM f = .ok (m ++ m') :=
  mapM_eq_ok_iff.mpr (List.rel_append (mapM_eq_ok_iff.mp h) (mapM_eq_ok_iff.mp h'))

lemma mapM_append_split {f : α → Except ε β} {l l' : List α} {k : List β} (h : (l ++ l').mapM f = .ok k) :
    ∃ m m', l.mapM f = .ok m ∧ l'.mapM f = .ok m' ∧ k = m ++ m' := by
  have hk := mapM_eq_ok_iff.mp h
  refine ⟨k.take l.length, k.drop l.length, ?_, ?_, (List.take_append_drop _ _).symm⟩
  · have htake := List.forall₂_take l.length hk
    rw [List.take_left] at htake
    exact mapM_eq_ok_iff.mpr htake
  · have hdrop := List.forall₂_drop l.length hk
    rw [List.drop_left] at hdrop
    exact mapM_eq_ok_iff.mpr hdrop

lemma exists_ok_and_iff {r : Except ε α} {P : α → Prop} :
    (∃ a, r = .ok a ∧ P a) ↔ (∃ a, r = .ok a) ∧ ∀ a, r = .ok a → P a := by
  constructor
  · rintro ⟨a, ha, hP⟩
    refine ⟨⟨a, ha⟩, fun a' ha' => ?_⟩
    rwa [← Except.ok.inj (ha.symm.trans ha')]
  · rintro ⟨⟨a, ha⟩, hP⟩
    exact ⟨a, ha, hP a ha⟩

lemma forall₂_map_same {R : β → γ → Prop} {f : α → β} {g : α → γ} (h : ∀ a, R (f a) (g a)) (l : List α) :
    List.Forall₂ R (l.map f) (l.map g) := by
  rw [List.forall₂_map_left_iff, List.forall₂_map_right_iff, List.forall₂_same]
  exact fun a _ => h a

lemma forall₂_flatMap_same {R : β → γ → Prop} {f : α → List β} {g : α → List γ}
    (h : ∀ a, List.Forall₂ R (f a) (g a)) (l : List α) : List.Forall₂ R (l.flatMap f) (l.flatMap g) := by
  induction l with
  | nil => exact .nil
  | cons a l ih => exact List.rel_append (h a) ih

lemma forall₂_trans {R : α → β → Prop} {S : α → γ → Prop} {T : β → γ → Prop}
    (h : ∀ a b c, R a b → S a c → T b c) {l : List α} {m : List β} {k : List γ} (hlm : List.Forall₂ R l m)
    (hlk : List.Forall₂ S l k) : List.Forall₂ T m k := by
  induction hlm generalizing k with
  | nil =>
    rw [List.forall₂_nil_left_iff] at hlk
    rw [hlk]
    exact .nil
  | cons hab _ ih =>
    obtain ⟨c, k, hac, hrest, rfl⟩ := List.forall₂_cons_left_iff.mp hlk
    exact .cons (h _ _ _ hab hac) (ih hrest)

lemma exists_forall₂ {R : α → β → Prop} {l : List α} (h : ∀ a ∈ l, ∃ b, R a b) : ∃ m, List.Forall₂ R l m := by
  induction l with
  | nil => exact ⟨[], .nil⟩
  | cons a l ih =>
    rw [List.forall_mem_cons] at h
    obtain ⟨b, hb⟩ := h.1
    obtain ⟨m, hm⟩ := ih h.2
    exact ⟨b :: m, .cons hb hm⟩

/-- Elements that each stand for one other. -/
lemma flatMap_eq_of_forall₂ {f : α → List β} {l : List α} {m : List β} (h : List.Forall₂ (fun a b => f a = [b]) l m) :
    l.flatMap f = m := by
  induction h with
  | nil => rfl
  | cons hab _ ih => rw [List.flatMap_cons, hab, ih, List.singleton_append]

section Batches

variable {ρ τ : Type} {statement : List ρ → τ → Except ε τ} {effect : τ → List ρ → τ}

/-- Statements that all succeed have their effects one after another, and hold what each of
them says of its rows. -/
lemma foldlM_batches_eq_ok {P : ρ → Prop}
    (hstatement : ∀ c t t', statement c t = .ok t' → t' = effect t c ∧ ∀ r ∈ c, P r) {batches : List (List ρ)}
    {t t' : τ} (h : (batches.map statement).foldlM (fun t run => run t) t = .ok t') :
    t' = batches.foldl effect t ∧ ∀ r ∈ batches.flatten, P r := by
  induction batches generalizing t with
  | nil =>
    cases h
    simp
  | cons c batches ih =>
    rw [List.map_cons, List.foldlM_cons] at h
    obtain ⟨t'', hc, h⟩ := bind_eq_ok.mp h
    obtain ⟨rfl, hrows⟩ := hstatement c t t'' hc
    obtain ⟨ht, hrest⟩ := ih h
    refine ⟨ht, fun r hr => ?_⟩
    rw [List.flatten_cons, List.mem_append] at hr
    exact hr.elim (hrows r) (hrest r)

lemma foldlM_batches {batches : List (List ρ)} (h : ∀ c ∈ batches, ∀ t, statement c t = .ok (effect t c)) (t : τ) :
    (batches.map statement).foldlM (fun t run => run t) t = .ok (batches.foldl effect t) := by
  induction batches generalizing t with
  | nil => rfl
  | cons c batches ih =>
    rw [List.forall_mem_cons] at h
    rw [List.map_cons, List.foldlM_cons, h.1 t]
    exact ih h.2 (effect t c)

end Batches

section Slots

variable {f : α × ℕ → Except ε β} {results : List β} {tasks : List (α × ℕ)}

/-- Store the result of one task in its slot. Once all tasks have, the slots hold what a loop over the
tasks returns, in whatever order they completed. -/
def fillSlot (f : α × ℕ → Except ε β) (out : List (Option β)) (task : α × ℕ) : Except ε (List (Option β)) := do
  let b ← f task
  return out.set task.2 (some b)

lemma foldlM_fillSlot (htasks : ∀ task ∈ tasks, ∃ b, f task = .ok b ∧ results[task.2]? = some b)
    {out : List (Option β)} (hout : out.length = results.length) :
    ∃ out', tasks.foldlM (fillSlot f) out = .ok out' ∧ out'.length = results.length ∧
      ∀ i, out'[i]? = if i ∈ tasks.map Prod.snd then results[i]?.map some else out[i]? := by
  induction tasks generalizing out with
  | nil => exact ⟨out, rfl, hout, fun i => rfl⟩
  | cons task tasks ih =>
    rw [List.forall_mem_cons] at htasks
    obtain ⟨b, hb, hslot⟩ := htasks.1
    have hlt := (List.getElem?_eq_some_iff.mp hslot).1
    have hlength : ∀ b, (out.set task.2 (some b)).length = results.length := fun b => List.length_set.trans hout
    obtain ⟨out', hrun, hlen, hout'⟩ := ih htasks.2 (hlength b)
    refine ⟨out', ?_, hlen, fun i => ?_⟩
    · rw [List.foldlM_cons, fillSlot, hb]
      exact hrun
    · rw [hout', List.map_cons, List.getElem?_set]
      by_cases hi : task.2 = i
      · subst hi
        have hset : (if task.2 = task.2 then if task.2 < out.length then some (some b) else none else out[task.2]?) =
            (results[task.2]?).map some := by
          rw [if_pos rfl, if_pos (by rwa [hout]), hslot, Option.map_some]
        rw [hset, ite_self, if_pos List.mem_cons_self]
      · simp only [List.mem_cons, Ne.symm hi, false_or, if_neg hi]

/-- Once all tasks have completed the slots hold the results of a loop over them. -/
theorem foldlM_fillSlot_of_perm {l : List α} (hperm : tasks.Perm l.zipIdx) (h : l.zipIdx.mapM f = .ok results) :
    tasks.foldlM (fillSlot f) (List.replicate l.length none) = .ok (results.map some) := by
  obtain ⟨hlen, hget⟩ := List.forall₂_iff_get.mp (mapM_eq_ok_iff.mp h)
  rw [List.length_zipIdx] at hlen
  have htasks : ∀ task ∈ tasks, ∃ b, f task = .ok b ∧ results[task.2]? = some b := by
    rintro ⟨a, i⟩ htask
    have hlookup : l[i]? = some a := List.mem_zipIdx_iff_getElem?.mp (hperm.mem_iff.mp htask)
    obtain ⟨hi, rfl⟩ := List.getElem?_eq_some_iff.mp hlookup
    refine ⟨results[i], ?_, List.getElem?_eq_getElem _⟩
    have hfi := hget i (by rwa [List.length_zipIdx]) (by omega)
    simpa using hfi
  have hslots : (List.replicate l.length (none : Option β)).length = results.length := by
    rw [List.length_replicate, hlen]
  obtain ⟨out', hrun, hlen', hout'⟩ := foldlM_fillSlot htasks hslots
  rw [hrun]
  congr 1
  apply List.ext_getElem?
  intro i
  rw [hout', List.getElem?_map]
  split
  · rfl
  · rename_i hi
    have hge : results.length ≤ i := by
      by_contra hlt
      apply hi
      rw [(hperm.map Prod.snd).mem_iff, List.mem_map]
      exact ⟨(l[i], i), List.mem_zipIdx_iff_getElem?.mpr (List.getElem?_eq_getElem (by omega)), rfl⟩
    rw [List.getElem?_eq_none hge, List.getElem?_eq_none (by rw [List.length_replicate]; omega)]
    rfl

/-- A task that fails makes the whole fail, wherever it comes. -/
lemma foldlM_fillSlot_error {task : α × ℕ} (hmem : task ∈ tasks) {e : ε} (he : f task = .error e)
    (out : List (Option β)) : ∃ e', tasks.foldlM (fillSlot f) out = .error e' := by
  induction tasks generalizing out with
  | nil => cases hmem
  | cons t tasks ih =>
    rw [List.foldlM_cons, fillSlot]
    cases ht : f t with
    | error e' => exact ⟨e', rfl⟩
    | ok b =>
      rcases List.mem_cons.mp hmem with rfl | hmem
      · rw [he] at ht
        cases ht
      · exact ih hmem (out.set t.2 (some b))

end Slots

end Relational
