import Mathlib

/-!
# Binary JSON values

The values a `jsonb` column holds: numbers are decimals that remember how many
fractional digits they were written with, object entries are normalised. Equality
compares numbers by value while the text form keeps their digits, so the two differ
exactly where a number is written in two ways.
-/

namespace Jsonb

/-- The decimal `unscaled / 10 ^ scale`, written with `scale` fractional digits. -/
structure Numeric where
  unscaled : Int
  scale : ℕ
deriving DecidableEq

namespace Numeric

/-- Equal value, whatever the number of digits. -/
def eqv (a b : Numeric) : Bool := a.unscaled * 10 ^ b.scale == b.unscaled * 10 ^ a.scale

@[simp] lemma eqv_self (a : Numeric) : a.eqv a = true := by simp [eqv]

lemma eqv_symm {a b : Numeric} (h : a.eqv b = true) : b.eqv a = true := by
  simp only [eqv, beq_iff_eq] at h ⊢
  exact h.symm

lemma eqv_trans {a b c : Numeric} (hab : a.eqv b = true) (hbc : b.eqv c = true) : a.eqv c = true := by
  simp only [eqv, beq_iff_eq] at hab hbc ⊢
  have hpos : (10 : Int) ^ b.scale ≠ 0 := pow_ne_zero _ (by norm_num)
  apply mul_right_cancel₀ hpos
  calc a.unscaled * 10 ^ c.scale * 10 ^ b.scale
      = (a.unscaled * 10 ^ b.scale) * 10 ^ c.scale := by ring
    _ = (b.unscaled * 10 ^ c.scale) * 10 ^ a.scale := by rw [hab]; ring
    _ = c.unscaled * 10 ^ a.scale * 10 ^ b.scale := by rw [hbc]; ring

end Numeric

inductive Value where
  | null
  | bool (b : Bool)
  | number (n : Numeric)
  | string (s : String)
  | array (values : List Value)
  | object (entries : List (String × Value))

namespace Value

mutual

/-- Equality of the `jsonb` type: pointwise, numbers by value. -/
def eqv : Value → Value → Bool
  | null, null => true
  | bool a, bool b => a == b
  | number a, number b => a.eqv b
  | string a, string b => a == b
  | array vs, array ws => eqvElems vs ws
  | object es, object fs => eqvEntries es fs
  | _, _ => false
termination_by structural v => v

def eqvElems : List Value → List Value → Bool
  | [], [] => true
  | v :: vs, w :: ws => eqv v w && eqvElems vs ws
  | _, _ => false
termination_by structural v => v

def eqvEntries : List (String × Value) → List (String × Value) → Bool
  | [], [] => true
  | e :: es, f :: fs => eqvEntry e f && eqvEntries es fs
  | _, _ => false
termination_by structural v => v

def eqvEntry : String × Value → String × Value → Bool
  | (k, v), (l, w) => k == l && eqv v w
termination_by structural v => v

end

mutual

/-- Containment, `u @> v`: an object contains the objects whose entries it contains, an
array the arrays each of whose elements one of its own contains, and a scalar its equals. -/
def contains : Value → Value → Bool
  | object es, object fs => containsEntries es fs
  | array vs, array ws => containsElems vs ws
  | null, null => true
  | bool a, bool b => a == b
  | number a, number b => a.eqv b
  | string a, string b => a == b
  | _, _ => false
termination_by structural _ v => v

def containsElems : List Value → List Value → Bool
  | _, [] => true
  | vs, w :: ws => vs.any (fun v => contains v w) && containsElems vs ws
termination_by structural _ v => v

def containsEntries : List (String × Value) → List (String × Value) → Bool
  | _, [] => true
  | es, f :: fs => containsEntry es f && containsEntries es fs
termination_by structural _ v => v

def containsEntry : List (String × Value) → String × Value → Bool
  | es, (k, w) => es.any (fun e => e.1 == k && contains e.2 w)
termination_by structural _ v => v

end

mutual

/-- Wherever both values hold a number, it is written with the same digits. -/
def numbersAlike : Value → Value → Bool
  | number a, number b => a == b
  | array vs, array ws => numbersAlikeElems vs ws
  | object es, object fs => numbersAlikeEntries es fs
  | _, _ => true
termination_by structural v => v

def numbersAlikeElems : List Value → List Value → Bool
  | v :: vs, w :: ws => numbersAlike v w && numbersAlikeElems vs ws
  | _, _ => true
termination_by structural v => v

def numbersAlikeEntries : List (String × Value) → List (String × Value) → Bool
  | e :: es, f :: fs => numbersAlikeEntry e f && numbersAlikeEntries es fs
  | _, _ => true
termination_by structural v => v

def numbersAlikeEntry : String × Value → String × Value → Bool
  | (_, v), (_, w) => numbersAlike v w
termination_by structural v => v

end

example : eqv (number ⟨1, 0⟩) (number ⟨10, 1⟩) = true := by decide

/-- Induction with the hypothesis for every element and every entry. -/
@[elab_as_elim, induction_eliminator]
theorem induct {motive : Value → Prop} (null : motive null) (bool : ∀ b, motive (bool b))
    (number : ∀ n, motive (number n)) (string : ∀ s, motive (string s))
    (array : ∀ vs, (∀ v ∈ vs, motive v) → motive (array vs))
    (object : ∀ es, (∀ e ∈ es, motive e.2) → motive (object es)) (v : Value) : motive v := by
  refine @Value.rec motive (fun vs => ∀ v ∈ vs, motive v) (fun es => ∀ e ∈ es, motive e.2)
    (fun e => motive e.2) null bool number string array object ?_ ?_ ?_ ?_ ?_ v
  · simp
  · intro v vs hv hvs w hw
    rcases List.mem_cons.mp hw with rfl | hw
    · exact hv
    · exact hvs w hw
  · simp
  · intro e es he hes f hf
    rcases List.mem_cons.mp hf with rfl | hf
    · exact he
    · exact hes f hf
  · exact fun _ _ hv => hv

lemma eqvElems_iff (vs ws : List Value) :
    eqvElems vs ws = true ↔ List.Forall₂ (fun v w => eqv v w = true) vs ws := by
  induction vs generalizing ws with
  | nil => cases ws <;> simp [eqvElems]
  | cons v vs ih => cases ws <;> simp [eqvElems, ih]

lemma eqvEntries_iff (es fs : List (String × Value)) :
    eqvEntries es fs = true ↔ List.Forall₂ (fun e f => e.1 = f.1 ∧ eqv e.2 f.2 = true) es fs := by
  induction es generalizing fs with
  | nil => cases fs <;> simp [eqvEntries]
  | cons e es ih =>
    cases fs with
    | nil => simp [eqvEntries]
    | cons f fs =>
      obtain ⟨k, v⟩ := e
      obtain ⟨l, w⟩ := f
      simp [eqvEntries, eqvEntry, ih]

lemma containsElems_iff (vs ws : List Value) :
    containsElems vs ws = true ↔ ∀ w ∈ ws, ∃ v ∈ vs, contains v w = true := by
  induction ws with
  | nil => simp [containsElems]
  | cons w ws ih => simp [containsElems, ih]

lemma containsEntries_iff (es fs : List (String × Value)) :
    containsEntries es fs = true ↔
      ∀ f ∈ fs, ∃ e ∈ es, e.1 = f.1 ∧ contains e.2 f.2 = true := by
  induction fs with
  | nil => simp [containsEntries]
  | cons f fs ih =>
    obtain ⟨k, w⟩ := f
    rw [containsEntries, Bool.and_eq_true, ih, List.forall_mem_cons]
    simp [containsEntry]

lemma forall₂_self_of_mem {α : Type*} {R : α → α → Prop} {l : List α} (h : ∀ a ∈ l, R a a) :
    List.Forall₂ R l l := List.forall₂_same.mpr h

lemma forall₂_symm_of_mem {α : Type*} {R : α → α → Prop} {l m : List α}
    (h : ∀ a ∈ l, ∀ b, R a b → R b a) (hl : List.Forall₂ R l m) : List.Forall₂ R m l := by
  induction hl with
  | nil => exact .nil
  | cons hab _ ih =>
    exact .cons (h _ List.mem_cons_self _ hab) (ih (fun a ha => h a (List.mem_cons_of_mem _ ha)))

lemma forall₂_trans_of_mem {α : Type*} {R : α → α → Prop} {l m n : List α}
    (h : ∀ a ∈ l, ∀ b c, R a b → R b c → R a c) (hl : List.Forall₂ R l m) (hm : List.Forall₂ R m n) :
    List.Forall₂ R l n := by
  induction hl generalizing n with
  | nil => exact hm
  | cons hab _ ih =>
    cases hm with
    | cons hbc hm =>
      exact .cons (h _ List.mem_cons_self _ _ hab hbc)
        (ih (fun a ha => h a (List.mem_cons_of_mem _ ha)) hm)

@[simp] theorem eqv_self (v : Value) : eqv v v = true := by
  induction v with
  | null => rfl
  | bool b => simp [eqv]
  | number n => simp [eqv]
  | string s => simp [eqv]
  | array vs ih => exact (eqvElems_iff vs vs).mpr (forall₂_self_of_mem ih)
  | object es ih => exact (eqvEntries_iff es es).mpr (forall₂_self_of_mem (fun e he => ⟨rfl, ih e he⟩))

theorem eqv_symm {v w : Value} (h : eqv v w = true) : eqv w v = true := by
  induction v generalizing w with
  | null => cases w <;> simp_all [eqv]
  | bool b => cases w <;> simp_all [eqv]
  | number n => cases w <;> first | exact Numeric.eqv_symm h | simp [eqv] at h
  | string s => cases w <;> simp_all [eqv]
  | array vs ih =>
    cases w <;> try simp [eqv] at h
    exact (eqvElems_iff _ vs).mpr
      (forall₂_symm_of_mem (fun v hv _ h => ih v hv h) ((eqvElems_iff vs _).mp h))
  | object es ih =>
    cases w <;> try simp [eqv] at h
    exact (eqvEntries_iff _ es).mpr
      (forall₂_symm_of_mem (fun e he _ h => ⟨h.1.symm, ih e he h.2⟩) ((eqvEntries_iff es _).mp h))

theorem eqv_trans {u v w : Value} (huv : eqv u v = true) (hvw : eqv v w = true) : eqv u w = true := by
  induction u generalizing v w with
  | null =>
    cases v <;> try simp [eqv] at huv
    exact hvw
  | bool b =>
    cases v <;> try simp [eqv] at huv
    rw [huv]
    exact hvw
  | number n =>
    cases v <;> try simp [eqv] at huv
    cases w <;> first | exact Numeric.eqv_trans huv hvw | simp [eqv] at hvw
  | string s =>
    cases v <;> try simp [eqv] at huv
    rw [huv]
    exact hvw
  | array us ih =>
    cases v <;> try simp [eqv] at huv
    cases w <;> try simp [eqv] at hvw
    exact (eqvElems_iff us _).mpr (forall₂_trans_of_mem (fun u hu _ _ h h' => ih u hu h h')
      ((eqvElems_iff us _).mp huv) ((eqvElems_iff _ _).mp hvw))
  | object ds ih =>
    cases v <;> try simp [eqv] at huv
    cases w <;> try simp [eqv] at hvw
    exact (eqvEntries_iff ds _).mpr (forall₂_trans_of_mem
      (fun d hd _ _ h h' => ⟨h.1.trans h'.1, ih d hd h.2 h'.2⟩)
      ((eqvEntries_iff ds _).mp huv) ((eqvEntries_iff _ _).mp hvw))

lemma numbersAlikeElems_self {vs : List Value} (h : ∀ v ∈ vs, numbersAlike v v = true) :
    numbersAlikeElems vs vs = true := by
  induction vs with
  | nil => rfl
  | cons v vs ih =>
    rw [List.forall_mem_cons] at h
    simp [numbersAlikeElems, h.1, ih h.2]

lemma numbersAlikeEntries_self {es : List (String × Value)} (h : ∀ e ∈ es, numbersAlike e.2 e.2 = true) :
    numbersAlikeEntries es es = true := by
  induction es with
  | nil => rfl
  | cons e es ih =>
    obtain ⟨k, v⟩ := e
    rw [List.forall_mem_cons] at h
    simp [numbersAlikeEntries, numbersAlikeEntry, h.1, ih h.2]

lemma numbersAlike_self (v : Value) : numbersAlike v v = true := by
  induction v with
  | number n => simp [numbersAlike]
  | array vs ih => exact numbersAlikeElems_self ih
  | object es ih => exact numbersAlikeEntries_self ih
  | _ => rfl

lemma elems_eq_of_numbersAlike {vs ws : List Value} (h : List.Forall₂ (fun v w => eqv v w = true) vs ws)
    (ih : ∀ v ∈ vs, ∀ {w}, eqv v w = true → numbersAlike v w = true → v = w)
    (ha : numbersAlikeElems vs ws = true) : vs = ws := by
  induction h with
  | nil => rfl
  | cons hvw _ ihl =>
    rw [List.forall_mem_cons] at ih
    rw [numbersAlikeElems, Bool.and_eq_true] at ha
    rw [ih.1 hvw ha.1, ihl ih.2 ha.2]

lemma entries_eq_of_numbersAlike {es fs : List (String × Value)}
    (h : List.Forall₂ (fun e f => e.1 = f.1 ∧ eqv e.2 f.2 = true) es fs)
    (ih : ∀ e ∈ es, ∀ {w}, eqv e.2 w = true → numbersAlike e.2 w = true → e.2 = w)
    (ha : numbersAlikeEntries es fs = true) : es = fs := by
  induction h with
  | nil => rfl
  | @cons e f _ _ hef _ ihl =>
    obtain ⟨k, v⟩ := e
    obtain ⟨l, w⟩ := f
    rw [List.forall_mem_cons] at ih
    rw [numbersAlikeEntries, Bool.and_eq_true, numbersAlikeEntry] at ha
    rw [Prod.ext hef.1 (ih.1 hef.2 ha.1), ihl ih.2 ha.2]

/-- Equal values that write their numbers alike are the same value. -/
theorem eq_of_eqv_of_numbersAlike {v w : Value} (h : eqv v w = true) (ha : numbersAlike v w = true) :
    v = w := by
  induction v generalizing w with
  | null => cases w <;> simp_all [eqv]
  | bool b => cases w <;> simp_all [eqv]
  | number n => cases w <;> simp_all [eqv, numbersAlike]
  | string s => cases w <;> simp_all [eqv]
  | array vs ih =>
    cases w <;> try simp [eqv] at h
    rw [elems_eq_of_numbersAlike ((eqvElems_iff vs _).mp h) (fun v hv _ => ih v hv) ha]
  | object es ih =>
    cases w <;> try simp [eqv] at h
    rw [entries_eq_of_numbersAlike ((eqvEntries_iff es _).mp h) (fun e he _ => ih e he) ha]

theorem contains_self (v : Value) : contains v v = true := by
  induction v with
  | null => rfl
  | bool b => simp [contains]
  | number n => simp [contains]
  | string s => simp [contains]
  | array vs ih => exact (containsElems_iff vs vs).mpr (fun v hv => ⟨v, hv, ih v hv⟩)
  | object es ih => exact (containsEntries_iff es es).mpr (fun e he => ⟨e, he, rfl, ih e he⟩)

/-- An object contains the object of any one of its entries. -/
theorem contains_singleton_of_mem {es : List (String × Value)} {k : String} {v : Value}
    (h : (k, v) ∈ es) : contains (object es) (object [(k, v)]) = true := by
  rw [contains, containsEntries_iff]
  intro f hf
  rw [List.mem_singleton] at hf
  exact ⟨(k, v), h, by rw [hf], by rw [hf]; exact contains_self v⟩

end Value

end Jsonb
