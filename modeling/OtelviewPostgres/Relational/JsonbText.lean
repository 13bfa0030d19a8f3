import OtelviewPostgres.Relational.Jsonb

/-!
# The text of a binary JSON value

The text form separates elements by a comma and a space, keeps the digits of numbers
and escapes strings. A value can be read back from its text: two values with the same
text are the same value, digits included.
-/

namespace Jsonb

/-- The last `s` decimal digits of `m`. -/
def fractionDigits : ℕ → ℕ → List Char
  | 0, _ => []
  | s + 1, m => fractionDigits s (m / 10) ++ [Nat.digitChar (m % 10)]

/-- The digits after the decimal point, with the point. -/
def fraction (s m : ℕ) : List Char := if s = 0 then [] else '.' :: fractionDigits s (m % 10 ^ s)

/-- The decimal `m / 10 ^ s` with `s` fractional digits. -/
def decimalDigits (s m : ℕ) : List Char := Nat.toDigits 10 (m / 10 ^ s) ++ fraction s m

def Numeric.render (n : Numeric) : List Char :=
  if n.unscaled < 0 then '-' :: decimalDigits n.scale n.unscaled.natAbs
  else decimalDigits n.scale n.unscaled.natAbs

lemma digitChar_inj {m n : ℕ} (hm : m < 16) (hn : n < 16) (h : Nat.digitChar m = Nat.digitChar n) :
    m = n := by
  have hall : ∀ a < 16, ∀ b < 16, Nat.digitChar a = Nat.digitChar b → a = b := by decide
  exact hall m hm n hn h

@[simp] lemma length_fractionDigits (s m : ℕ) : (fractionDigits s m).length = s := by
  induction s generalizing m with
  | zero => rfl
  | succ s ih => simp [fractionDigits, ih]

lemma fractionDigits_inj {s m n : ℕ} (hm : m < 10 ^ s) (hn : n < 10 ^ s)
    (h : fractionDigits s m = fractionDigits s n) : m = n := by
  induction s generalizing m n with
  | zero => omega
  | succ s ih =>
    rw [pow_succ] at hm hn
    obtain ⟨hinit, hlast⟩ := List.append_inj' h rfl
    have h1 := ih (by omega) (by omega) hinit
    have h2 := digitChar_inj (by omega) (by omega) (List.singleton_inj.mp hlast)
    omega

lemma toDigits_inj {m n : ℕ} (h : Nat.toDigits 10 m = Nat.toDigits 10 n) : m = n := by
  rw [← Nat.ofDigitChars_ten_toDigits (n := m), h, Nat.ofDigitChars_ten_toDigits]

lemma isDigit_of_mem_toDigits_ten {n : ℕ} {c : Char} (h : c ∈ Nat.toDigits 10 n) : c.isDigit = true :=
  Nat.isDigit_of_mem_toDigits (by norm_num) (by norm_num) h

/-- Digits end where a character that is no digit follows. -/
lemma toDigits_append_inj {m n : ℕ} {s t : List Char} (hs : ∀ c ∈ s.head?, c.isDigit = false)
    (ht : ∀ c ∈ t.head?, c.isDigit = false) (h : Nat.toDigits 10 m ++ s = Nat.toDigits 10 n ++ t) :
    m = n ∧ s = t := by
  have htake : ∀ (k : ℕ) (u : List Char), (∀ c ∈ u.head?, c.isDigit = false) →
      (Nat.toDigits 10 k ++ u).takeWhile Char.isDigit = Nat.toDigits 10 k := by
    intro k u hu
    rw [List.takeWhile_append_of_pos (fun c hc => isDigit_of_mem_toDigits_ten hc)]
    cases u with
    | nil => simp
    | cons c u => simp [hu c rfl]
  have hdigits : Nat.toDigits 10 m = Nat.toDigits 10 n := by
    rw [← htake m s hs, h, htake n t ht]
  rw [hdigits, List.append_cancel_left_eq] at h
  exact ⟨toDigits_inj hdigits, h⟩

lemma not_isDigit_head_fraction (s m : ℕ) : ∀ c ∈ (fraction s m).head?, c.isDigit = false := by
  intro c hc
  unfold fraction at hc
  split at hc
  · simp at hc
  · simp only [List.head?_cons, Option.mem_def, Option.some.injEq] at hc
    rw [← hc]
    decide

lemma fraction_inj {s t m n : ℕ} (h : fraction s m = fraction t n) :
    s = t ∧ m % 10 ^ s = n % 10 ^ t := by
  have hlen (s m : ℕ) : (fraction s m).length = if s = 0 then 0 else s + 1 := by
    unfold fraction
    split <;> simp
  have hst : s = t := by
    have h1 := hlen s m
    have h2 := hlen t n
    rw [h] at h1
    split at h1 <;> split at h2 <;> omega
  subst hst
  refine ⟨rfl, ?_⟩
  unfold fraction at h
  split at h
  · rename_i h0
    rw [h0, pow_zero, Nat.mod_one, Nat.mod_one]
  · have hpos : 0 < 10 ^ s := by positivity
    exact fractionDigits_inj (Nat.mod_lt _ hpos) (Nat.mod_lt _ hpos) (List.cons.inj h).2

lemma decimalDigits_inj {s t m n : ℕ} (h : decimalDigits s m = decimalDigits t n) : s = t ∧ m = n := by
  obtain ⟨hdiv, hfrac⟩ := toDigits_append_inj (not_isDigit_head_fraction s m)
    (not_isDigit_head_fraction t n) h
  obtain ⟨rfl, hmod⟩ := fraction_inj hfrac
  refine ⟨rfl, ?_⟩
  rw [← Nat.div_add_mod m (10 ^ s), hdiv, hmod, Nat.div_add_mod]

lemma exists_decimalDigits_eq_cons (s m : ℕ) :
    ∃ c rest, decimalDigits s m = c :: rest ∧ c.isDigit = true := by
  unfold decimalDigits
  cases h : Nat.toDigits 10 (m / 10 ^ s) with
  | nil => exact absurd h Nat.toDigits_ne_nil
  | cons c rest => exact ⟨c, rest ++ fraction s m, rfl, isDigit_of_mem_toDigits_ten (h ▸ List.mem_cons_self)⟩

lemma minus_cons_ne_decimalDigits (l : List Char) (s m : ℕ) : '-' :: l ≠ decimalDigits s m := by
  intro h
  obtain ⟨c, rest, hc, hdigit⟩ := exists_decimalDigits_eq_cons s m
  rw [hc] at h
  rw [← (List.cons.inj h).1] at hdigit
  exact absurd hdigit (by decide)

/-- A number can be read back from its text, digits included. -/
theorem Numeric.render_inj {a b : Numeric} (h : a.render = b.render) : a = b := by
  obtain ⟨u, s⟩ := a
  obtain ⟨v, t⟩ := b
  simp only [Numeric.render] at h
  split at h <;> split at h
  · obtain ⟨rfl, hn⟩ := decimalDigits_inj (List.cons.inj h).2
    rw [show u = v by omega]
  · exact absurd h (minus_cons_ne_decimalDigits _ _ _)
  · exact absurd h.symm (minus_cons_ne_decimalDigits _ _ _)
  · obtain ⟨rfl, hn⟩ := decimalDigits_inj h
    rw [show u = v by omega]

/-- The characters with an escape of two characters, each with its second character. -/
def shortEscapes : List (Char × Char) :=
  [('\x08', 'b'), ('\x0c', 'f'), ('\n', 'n'), ('\r', 'r'), ('\t', 't'), ('"', '"'), ('\\', '\\')]

def shortEscape (c : Char) : Option Char := (shortEscapes.find? (fun p => p.1 = c)).map Prod.snd

def escapeChar (c : Char) : List Char :=
  match shortEscape c with
  | some x => ['\\', x]
  | none =>
    if c.toNat < 32 then
      ['\\', 'u', '0', '0', Nat.digitChar (c.toNat / 16), Nat.digitChar (c.toNat % 16)]
    else [c]

def quote (s : String) : List Char := '"' :: (s.toList.flatMap escapeChar ++ ['"'])

lemma mem_shortEscapes {c x : Char} (h : shortEscape c = some x) : (c, x) ∈ shortEscapes := by
  obtain ⟨⟨d, y⟩, hd, rfl⟩ := Option.map_eq_some_iff.mp h
  have hdc : d = c := by simpa using List.find?_some hd
  exact hdc ▸ List.mem_of_find?_eq_some hd

lemma shortEscape_inj {c d x : Char} (hc : shortEscape c = some x) (hd : shortEscape d = some x) :
    c = d := by
  have hall : ∀ p ∈ shortEscapes, ∀ q ∈ shortEscapes, p.2 = q.2 → p.1 = q.1 := by decide
  exact hall (c, x) (mem_shortEscapes hc) (d, x) (mem_shortEscapes hd) rfl

lemma shortEscape_ne_u {c x : Char} (hc : shortEscape c = some x) : x ≠ 'u' := by
  have hall : ∀ p ∈ shortEscapes, p.2 ≠ 'u' := by decide
  exact hall (c, x) (mem_shortEscapes hc)

lemma shortEscape_quote : shortEscape '"' = some '"' := rfl

lemma shortEscape_backslash : shortEscape '\\' = some '\\' := rfl

/-- No escape begins another one. -/
lemma escapeChar_append_inj {c d : Char} {s t : List Char} (h : escapeChar c ++ s = escapeChar d ++ t) :
    c = d ∧ s = t := by
  unfold escapeChar at h
  cases hc : shortEscape c with
  | some x =>
    rw [hc] at h
    cases hd : shortEscape d with
    | some y =>
      rw [hd] at h
      simp only [List.cons_append, List.nil_append, List.cons.injEq, true_and] at h
      obtain ⟨rfl, rfl⟩ := h
      exact ⟨shortEscape_inj hc hd, rfl⟩
    | none =>
      rw [hd] at h
      by_cases hlt : d.toNat < 32
      · simp only [hlt, if_true, List.cons_append, List.cons.injEq, true_and] at h
        exact absurd h.1 (shortEscape_ne_u hc)
      · simp only [hlt, if_false, List.cons_append, List.cons.injEq] at h
        rw [← h.1, shortEscape_backslash] at hd
        cases hd
  | none =>
    rw [hc] at h
    cases hd : shortEscape d with
    | some y =>
      rw [hd] at h
      by_cases hlt : c.toNat < 32
      · simp only [hlt, if_true, List.cons_append, List.cons.injEq, true_and] at h
        exact absurd h.1.symm (shortEscape_ne_u hd)
      · simp only [hlt, if_false, List.cons_append, List.cons.injEq] at h
        rw [h.1, shortEscape_backslash] at hc
        cases hc
    | none =>
      rw [hd] at h
      by_cases hlc : c.toNat < 32 <;> by_cases hld : d.toNat < 32
      · simp only [hlc, hld, if_true, List.cons_append, List.nil_append, List.cons.injEq, true_and] at h
        have h1 := digitChar_inj (by omega) (by omega) h.1
        have h2 := digitChar_inj (by omega) (by omega) h.2.1
        exact ⟨Char.toNat_inj.mp (by omega), h.2.2⟩
      · simp only [hlc, hld, if_true, if_false, List.cons_append, List.cons.injEq] at h
        rw [← h.1, shortEscape_backslash] at hd
        cases hd
      · simp only [hlc, hld, if_true, if_false, List.cons_append, List.cons.injEq] at h
        rw [h.1, shortEscape_backslash] at hc
        cases hc
      · simpa only [hlc, hld, if_false, List.cons_append, List.nil_append, List.cons.injEq] using h

lemma quote_cons_ne_escapeChar (c : Char) (s t : List Char) : '"' :: s ≠ escapeChar c ++ t := by
  intro h
  unfold escapeChar at h
  cases hc : shortEscape c with
  | some x =>
    rw [hc] at h
    simp at h
  | none =>
    rw [hc] at h
    by_cases hlt : c.toNat < 32
    · simp [hlt] at h
    · simp only [hlt, if_false, List.cons_append, List.cons.injEq] at h
      rw [← h.1, shortEscape_quote] at hc
      cases hc

lemma flatMap_escapeChar_inj {l m s t : List Char}
    (h : l.flatMap escapeChar ++ '"' :: s = m.flatMap escapeChar ++ '"' :: t) : l = m ∧ s = t := by
  induction l generalizing m with
  | nil =>
    cases m with
    | nil => simpa using h
    | cons d m =>
      rw [List.flatMap_cons, List.append_assoc] at h
      exact absurd h (quote_cons_ne_escapeChar d s _)
  | cons c l ih =>
    cases m with
    | nil =>
      rw [List.flatMap_cons, List.append_assoc] at h
      exact absurd h.symm (quote_cons_ne_escapeChar c t _)
    | cons d m =>
      rw [List.flatMap_cons, List.flatMap_cons, List.append_assoc, List.append_assoc] at h
      obtain ⟨rfl, hrest⟩ := escapeChar_append_inj h
      obtain ⟨rfl, rfl⟩ := ih hrest
      exact ⟨rfl, rfl⟩

/-- A string can be read back from its quoted text. -/
theorem quote_append_inj {a b : String} {s t : List Char} (h : quote a ++ s = quote b ++ t) :
    a = b ∧ s = t := by
  simp only [quote, List.cons_append, List.append_assoc, List.nil_append, List.cons.injEq, true_and] at h
  obtain ⟨hl, hs⟩ := flatMap_escapeChar_inj h
  exact ⟨String.toList_inj.mp hl, hs⟩

namespace Value

mutual

def render : Value → List Char
  | null => ['n', 'u', 'l', 'l']
  | bool true => ['t', 'r', 'u', 'e']
  | bool false => ['f', 'a', 'l', 's', 'e']
  | number n => n.render
  | string s => quote s
  | array [] => ['[', ']']
  | array (v :: vs) => '[' :: (render v ++ renderElems vs)
  | object [] => ['\x7b', '\x7d']
  | object (e :: es) => '\x7b' :: (renderEntry e ++ renderEntries es)
termination_by structural v => v

/-- The elements after the first one, with the closing bracket. -/
def renderElems : List Value → List Char
  | [] => [']']
  | v :: vs => ',' :: ' ' :: (render v ++ renderElems vs)
termination_by structural v => v

def renderEntries : List (String × Value) → List Char
  | [] => ['\x7d']
  | e :: es => ',' :: ' ' :: (renderEntry e ++ renderEntries es)
termination_by structural v => v

def renderEntry : String × Value → List Char
  | (k, v) => quote k ++ ':' :: ' ' :: render v
termination_by structural v => v

end

/-- The text of a value, `v::TEXT`. -/
def text (v : Value) : String := String.ofList v.render

/-- Which constructor a text comes from, by its first character. -/
def leadKind (c : Char) : ℕ :=
  if c = 'n' then 0 else if c = 't' then 1 else if c = 'f' then 2 else if c = '"' then 3
  else if c = '[' then 4 else if c = '\x7b' then 5 else if c = '-' ∨ c.isDigit then 6 else 7

def kind : Value → ℕ
  | null => 0
  | bool true => 1
  | bool false => 2
  | string _ => 3
  | array _ => 4
  | object _ => 5
  | number _ => 6

lemma leadKind_of_isDigit {c : Char} (h : c.isDigit = true) : leadKind c = 6 := by
  have hne : ∀ d : Char, d.isDigit = false → c ≠ d := by
    rintro d hd rfl
    rw [h] at hd
    cases hd
  simp [leadKind, h, hne]

lemma exists_render_eq_cons (v : Value) : ∃ c rest, v.render = c :: rest ∧ leadKind c = v.kind := by
  cases v with
  | null => exact ⟨_, _, rfl, rfl⟩
  | bool b => cases b <;> exact ⟨_, _, rfl, rfl⟩
  | string s => exact ⟨_, _, rfl, rfl⟩
  | array vs => cases vs <;> exact ⟨_, _, rfl, rfl⟩
  | object es => cases es <;> exact ⟨_, _, rfl, rfl⟩
  | number n =>
    rw [render, Numeric.render]
    obtain ⟨c, rest, hc, hdigit⟩ := exists_decimalDigits_eq_cons n.scale n.unscaled.natAbs
    split
    · exact ⟨_, _, rfl, rfl⟩
    · exact ⟨c, rest, hc, leadKind_of_isDigit hdigit⟩

lemma kind_eq_of_render {v w : Value} {s t : List Char} (h : v.render ++ s = w.render ++ t) :
    v.kind = w.kind := by
  obtain ⟨c, l, hc, hv⟩ := exists_render_eq_cons v
  obtain ⟨d, m, hd, hw⟩ := exists_render_eq_cons w
  rw [hc, hd] at h
  rw [← hv, ← hw, (List.cons.inj h).1]

lemma render_ne_cons_of_leadKind {c : Char} (hc : leadKind c = 7) (v : Value) (s t : List Char) :
    v.render ++ s ≠ c :: t := by
  intro h
  obtain ⟨d, l, hd, hv⟩ := exists_render_eq_cons v
  rw [hd] at h
  rw [(List.cons.inj h).1, hc] at hv
  cases v with
  | bool b => cases b <;> cases hv
  | _ => cases hv

lemma renderEntry_ne_cons_brace (e : String × Value) (s t : List Char) :
    renderEntry e ++ s ≠ '\x7d' :: t := by
  obtain ⟨k, v⟩ := e
  simp [renderEntry, quote]

/-- What may follow a value: the end, a separator or a closing bracket. -/
def Stopped (s : List Char) : Prop := ∀ c ∈ s.head?, c = ',' ∨ c = ']' ∨ c = '\x7d'

lemma stopped_nil : Stopped [] := by simp [Stopped]

lemma stopped_renderElems (vs : List Value) (s : List Char) : Stopped (renderElems vs ++ s) := by
  cases vs <;> simp [Stopped, renderElems]

lemma stopped_renderEntries (es : List (String × Value)) (s : List Char) :
    Stopped (renderEntries es ++ s) := by
  cases es <;> simp [Stopped, renderEntries]

lemma numeric_render_chars {n : Numeric} {c : Char} (h : c ∈ n.render) :
    c ≠ ',' ∧ c ≠ ']' ∧ c ≠ '\x7d' := by
  have hfrac : ∀ s m, c ∈ fractionDigits s m → c.isDigit = true := by
    intro s
    induction s with
    | zero => simp [fractionDigits]
    | succ s ih =>
      intro m hc
      rw [fractionDigits, List.mem_append, List.mem_singleton] at hc
      rcases hc with hc | rfl
      · exact ih _ hc
      · have hall : ∀ k < 10, (Nat.digitChar k).isDigit = true := by decide
        exact hall _ (Nat.mod_lt _ (by norm_num))
  have hchar : c = '-' ∨ c = '.' ∨ c.isDigit = true := by
    have hdec : ∀ s m, c ∈ decimalDigits s m → c = '.' ∨ c.isDigit = true := by
      intro s m hc
      rw [decimalDigits, List.mem_append] at hc
      rcases hc with hc | hc
      · exact .inr (isDigit_of_mem_toDigits_ten hc)
      · unfold fraction at hc
        split at hc
        · simp at hc
        · rcases List.mem_cons.mp hc with rfl | hc
          · exact .inl rfl
          · exact .inr (hfrac _ _ hc)
    unfold Numeric.render at h
    split at h
    · rcases List.mem_cons.mp h with rfl | h
      · exact .inl rfl
      · exact .inr (hdec _ _ h)
    · exact .inr (hdec _ _ h)
  refine ⟨?_, ?_, ?_⟩ <;> rintro rfl <;> revert hchar <;> decide

lemma numeric_render_append_inj {a b : Numeric} {s t : List Char} (hs : Stopped s) (ht : Stopped t)
    (h : a.render ++ s = b.render ++ t) : a = b ∧ s = t := by
  let go : Char → Bool := fun c => c != ',' && c != ']' && c != '\x7d'
  have htake : ∀ (n : Numeric) (u : List Char), Stopped u → (n.render ++ u).takeWhile go = n.render := by
    intro n u hu
    rw [List.takeWhile_append_of_pos (fun c hc => by
      obtain ⟨h1, h2, h3⟩ := numeric_render_chars hc
      simp [go, h1, h2, h3])]
    cases u with
    | nil => simp
    | cons c u =>
      rcases hu c rfl with rfl | rfl | rfl <;> simp [go]
  have hrender : a.render = b.render := by
    rw [← htake a s hs, h, htake b t ht]
  rw [hrender, List.append_cancel_left_eq] at h
  exact ⟨Numeric.render_inj hrender, h⟩

/-- Reading one value off a text. -/
def Readable (v : Value) : Prop :=
  ∀ (w : Value) (s t : List Char), Stopped s → Stopped t → v.render ++ s = w.render ++ t → v = w ∧ s = t

lemma renderElems_append_inj {vs ws : List Value} {s t : List Char} (ih : ∀ v ∈ vs, Readable v)
    (h : renderElems vs ++ s = renderElems ws ++ t) : vs = ws ∧ s = t := by
  induction vs generalizing ws with
  | nil =>
    cases ws with
    | nil => simpa [renderElems] using h
    | cons w ws => simp [renderElems] at h
  | cons v vs ihl =>
    cases ws with
    | nil => simp [renderElems] at h
    | cons w ws =>
      rw [List.forall_mem_cons] at ih
      simp only [renderElems, List.cons_append, List.cons.injEq, true_and, List.append_assoc] at h
      obtain ⟨rfl, hrest⟩ := ih.1 w _ _ (stopped_renderElems _ _) (stopped_renderElems _ _) h
      obtain ⟨rfl, rfl⟩ := ihl ih.2 hrest
      exact ⟨rfl, rfl⟩

lemma renderEntry_append_inj {e f : String × Value} {s t : List Char} (ih : Readable e.2)
    (hs : Stopped s) (ht : Stopped t) (h : renderEntry e ++ s = renderEntry f ++ t) : e = f ∧ s = t := by
  obtain ⟨k, v⟩ := e
  obtain ⟨l, w⟩ := f
  simp only [renderEntry, List.append_assoc] at h
  obtain ⟨rfl, hrest⟩ := quote_append_inj h
  simp only [List.cons_append, List.cons.injEq, true_and] at hrest
  obtain ⟨rfl, rfl⟩ := ih w s t hs ht hrest
  exact ⟨rfl, rfl⟩

lemma renderEntries_append_inj {es fs : List (String × Value)} {s t : List Char}
    (ih : ∀ e ∈ es, Readable e.2) (h : renderEntries es ++ s = renderEntries fs ++ t) : es = fs ∧ s = t := by
  induction es generalizing fs with
  | nil =>
    cases fs with
    | nil => simpa [renderEntries] using h
    | cons f fs => simp [renderEntries] at h
  | cons e es ihl =>
    cases fs with
    | nil => simp [renderEntries] at h
    | cons f fs =>
      rw [List.forall_mem_cons] at ih
      simp only [renderEntries, List.cons_append, List.cons.injEq, true_and, List.append_assoc] at h
      obtain ⟨rfl, hrest⟩ :=
        renderEntry_append_inj ih.1 (stopped_renderEntries _ _) (stopped_renderEntries _ _) h
      obtain ⟨rfl, rfl⟩ := ihl ih.2 hrest
      exact ⟨rfl, rfl⟩

lemma array_append_inj {vs ws : List Value} {s t : List Char} (ih : ∀ v ∈ vs, Readable v)
    (h : (array vs).render ++ s = (array ws).render ++ t) : vs = ws ∧ s = t := by
  cases vs with
  | nil =>
    cases ws with
    | nil => simpa [render] using h
    | cons w ws =>
      simp only [render, List.cons_append, List.cons.injEq, true_and, List.append_assoc] at h
      exact absurd h.symm (render_ne_cons_of_leadKind rfl w _ _)
  | cons v vs =>
    cases ws with
    | nil =>
      simp only [render, List.cons_append, List.cons.injEq, true_and, List.append_assoc] at h
      exact absurd h (render_ne_cons_of_leadKind rfl v _ _)
    | cons w ws =>
      rw [List.forall_mem_cons] at ih
      simp only [render, List.cons_append, List.cons.injEq, true_and, List.append_assoc] at h
      obtain ⟨rfl, hrest⟩ := ih.1 w _ _ (stopped_renderElems _ _) (stopped_renderElems _ _) h
      obtain ⟨rfl, rfl⟩ := renderElems_append_inj ih.2 hrest
      exact ⟨rfl, rfl⟩

lemma object_append_inj {es fs : List (String × Value)} {s t : List Char} (ih : ∀ e ∈ es, Readable e.2)
    (h : (object es).render ++ s = (object fs).render ++ t) : es = fs ∧ s = t := by
  cases es with
  | nil =>
    cases fs with
    | nil => simpa [render] using h
    | cons f fs =>
      simp only [render, List.cons_append, List.cons.injEq, true_and, List.append_assoc] at h
      exact absurd h.symm (renderEntry_ne_cons_brace f _ _)
  | cons e es =>
    cases fs with
    | nil =>
      simp only [render, List.cons_append, List.cons.injEq, true_and, List.append_assoc] at h
      exact absurd h (renderEntry_ne_cons_brace e _ _)
    | cons f fs =>
      rw [List.forall_mem_cons] at ih
      simp only [render, List.cons_append, List.cons.injEq, true_and, List.append_assoc] at h
      obtain ⟨rfl, hrest⟩ :=
        renderEntry_append_inj ih.1 (stopped_renderEntries _ _) (stopped_renderEntries _ _) h
      obtain ⟨rfl, rfl⟩ := renderEntries_append_inj ih.2 hrest
      exact ⟨rfl, rfl⟩

theorem readable (v : Value) : Readable v := by
  induction v with
  | null =>
    intro w s t _ _ h
    have hk := kind_eq_of_render h
    cases w with
    | null => exact ⟨rfl, List.append_cancel_left h⟩
    | bool b => cases b <;> simp [kind] at hk
    | _ => simp [kind] at hk
  | bool b =>
    intro w s t _ _ h
    have hk := kind_eq_of_render h
    cases w with
    | bool c =>
      cases b <;> cases c <;> simp [kind] at hk
      all_goals exact ⟨rfl, List.append_cancel_left h⟩
    | _ => cases b <;> simp [kind] at hk
  | number n =>
    intro w s t hs ht h
    have hk := kind_eq_of_render h
    cases w with
    | number m =>
      obtain ⟨rfl, rfl⟩ := numeric_render_append_inj hs ht h
      exact ⟨rfl, rfl⟩
    | bool b => cases b <;> simp [kind] at hk
    | _ => simp [kind] at hk
  | string a =>
    intro w s t _ _ h
    have hk := kind_eq_of_render h
    cases w with
    | string b =>
      obtain ⟨rfl, rfl⟩ := quote_append_inj h
      exact ⟨rfl, rfl⟩
    | bool b => cases b <;> simp [kind] at hk
    | _ => simp [kind] at hk
  | array vs ih =>
    intro w s t _ _ h
    have hk := kind_eq_of_render h
    cases w with
    | array ws =>
      obtain ⟨rfl, rfl⟩ := array_append_inj ih h
      exact ⟨rfl, rfl⟩
    | bool b => cases b <;> simp [kind] at hk
    | _ => simp [kind] at hk
  | object es ih =>
    intro w s t _ _ h
    have hk := kind_eq_of_render h
    cases w with
    | object fs =>
      obtain ⟨rfl, rfl⟩ := object_append_inj ih h
      exact ⟨rfl, rfl⟩
    | bool b => cases b <;> simp [kind] at hk
    | _ => simp [kind] at hk

/-- Values with the same text are the same value. -/
theorem text_inj {v w : Value} : v.text = w.text ↔ v = w := by
  constructor
  · intro h
    have hr : v.render ++ [] = w.render ++ [] := by
      rw [List.append_nil, List.append_nil]
      exact String.ofList_injective h
    exact (readable v w [] [] stopped_nil stopped_nil hr).1
  · rintro rfl
    rfl

/-- The strings and the keys in a value. -/
inductive HasString : Value → String → Prop
  | string (s : String) : HasString (string s) s
  | element {vs : List Value} {v : Value} {s : String} : v ∈ vs → HasString v s → HasString (array vs) s
  | key {es : List (String × Value)} {e : String × Value} : e ∈ es → HasString (object es) e.1
  | value {es : List (String × Value)} {e : String × Value} {s : String} :
    e ∈ es → HasString e.2 s → HasString (object es) s

lemma render_infix_renderElems {vs : List Value} {v : Value} (h : v ∈ vs) : v.render <:+: renderElems vs := by
  induction vs with
  | nil => cases h
  | cons w vs ih =>
    rw [renderElems]
    cases List.mem_cons.mp h with
    | inl heq =>
      rw [heq]
      exact ⟨[',', ' '], renderElems vs, rfl⟩
    | inr hmem => exact (ih hmem).trans ⟨',' :: ' ' :: w.render, [], by simp⟩

lemma render_infix_array {vs : List Value} {v : Value} (h : v ∈ vs) : v.render <:+: (array vs).render := by
  cases vs with
  | nil => cases h
  | cons w vs =>
    rw [render]
    cases List.mem_cons.mp h with
    | inl heq =>
      rw [heq]
      exact ⟨['['], renderElems vs, rfl⟩
    | inr hmem => exact (render_infix_renderElems hmem).trans ⟨'[' :: w.render, [], by simp⟩

lemma renderEntry_infix_renderEntries {es : List (String × Value)} {e : String × Value} (h : e ∈ es) :
    renderEntry e <:+: renderEntries es := by
  induction es with
  | nil => cases h
  | cons f es ih =>
    rw [renderEntries]
    cases List.mem_cons.mp h with
    | inl heq =>
      rw [heq]
      exact ⟨[',', ' '], renderEntries es, rfl⟩
    | inr hmem => exact (ih hmem).trans ⟨',' :: ' ' :: renderEntry f, [], by simp⟩

lemma renderEntry_infix_object {es : List (String × Value)} {e : String × Value} (h : e ∈ es) :
    renderEntry e <:+: (object es).render := by
  cases es with
  | nil => cases h
  | cons f es =>
    rw [render]
    cases List.mem_cons.mp h with
    | inl heq =>
      rw [heq]
      exact ⟨['\x7b'], renderEntries es, rfl⟩
    | inr hmem => exact (renderEntry_infix_renderEntries hmem).trans ⟨'\x7b' :: renderEntry f, [], by simp⟩

lemma key_infix_object {es : List (String × Value)} {k : String} {v : Value} (h : (k, v) ∈ es) :
    quote k ++ [':'] <:+: (object es).render := by
  have hentry : quote k ++ [':'] <:+: renderEntry (k, v) := ⟨[], ' ' :: v.render, by simp [renderEntry]⟩
  exact hentry.trans (renderEntry_infix_object h)

lemma open_infix_object (es : List (String × Value)) : ['\x7b'] <:+: (object es).render := by
  cases es with
  | nil => exact ⟨[], ['\x7d'], rfl⟩
  | cons e es => exact ⟨[], renderEntry e ++ renderEntries es, rfl⟩

lemma close_infix_renderEntries (es : List (String × Value)) : ['\x7d'] <:+: renderEntries es := by
  induction es with
  | nil => exact List.infix_rfl
  | cons e es ih => exact ih.trans ⟨',' :: ' ' :: renderEntry e, [], by simp [renderEntries]⟩

lemma close_infix_object (es : List (String × Value)) : ['\x7d'] <:+: (object es).render := by
  cases es with
  | nil => exact ⟨['\x7b'], [], rfl⟩
  | cons e es => exact (close_infix_renderEntries es).trans ⟨'\x7b' :: renderEntry e, [], by simp [render]⟩

/-- The text of a value holds each of its strings, quoted. -/
theorem quote_infix_render {v : Value} {s : String} (h : v.HasString s) : quote s <:+: v.render := by
  induction h with
  | string s => exact List.infix_rfl
  | element hmem _ ih => exact ih.trans (render_infix_array hmem)
  | @key es e hmem =>
    obtain ⟨k, v⟩ := e
    have hentry : quote k <:+: renderEntry (k, v) := ⟨[], ':' :: ' ' :: v.render, rfl⟩
    exact hentry.trans (renderEntry_infix_object hmem)
  | @value es e s hmem _ ih =>
    obtain ⟨k, v⟩ := e
    have hentry : v.render <:+: renderEntry (k, v) := ⟨quote k ++ [':', ' '], [], by simp [renderEntry]⟩
    exact (ih.trans hentry).trans (renderEntry_infix_object hmem)

end Value

end Jsonb
