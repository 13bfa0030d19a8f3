import Mathlib

/-!
# LIKE patterns

In a pattern a percent sign stands for any text, an underscore for any character, and a
backslash takes the character after it literally.
-/

namespace Relational

inductive LikeToken where
  | anyText
  | anyChar
  | char (c : Char)
deriving DecidableEq

/-- The tokens of a pattern. A pattern that ends in an escape has none. -/
def parseLike : List Char → Option (List LikeToken)
  | [] => some []
  | '%' :: p => (parseLike p).map (.anyText :: ·)
  | '_' :: p => (parseLike p).map (.anyChar :: ·)
  | '\\' :: c :: p => (parseLike p).map (.char c :: ·)
  | ['\\'] => none
  | c :: p => (parseLike p).map (.char c :: ·)

def likeTokens : List LikeToken → List Char → Bool
  | [], s => s.isEmpty
  | .anyText :: p, s => s.tails.any (likeTokens p)
  | .anyChar :: p, s => match s with
    | [] => false
    | _ :: s => likeTokens p s
  | .char c :: p, s => match s with
    | [] => false
    | d :: s => c = d && likeTokens p s

/-- `text LIKE pattern` -/
def like (text pattern : List Char) : Bool := (parseLike pattern).any fun tokens => likeTokens tokens text

/-- `text ILIKE pattern`, for a case folding of single characters. -/
def ilike (fold : Char → Char) (text pattern : List Char) : Bool := like (text.map fold) (pattern.map fold)

def IsWildcard (c : Char) : Prop := c = '%' ∨ c = '_' ∨ c = '\\'

instance IsWildcard.decidable : DecidablePred IsWildcard := fun c =>
  inferInstanceAs (Decidable (c = '%' ∨ c = '_' ∨ c = '\\'))

/-- The pattern of one character. -/
def literalChar (c : Char) : List Char := if IsWildcard c then ['\\', c] else [c]

/-- The pattern of a text that stands for itself. -/
def literal (s : List Char) : List Char := s.flatMap literalChar

/-- A case folding that changes none of the characters with a meaning in patterns, and turns no
other character into one. -/
structure KeepsWildcards (fold : Char → Char) : Prop where
  fixes : ∀ c, IsWildcard c → fold c = c
  reflects : ∀ c, IsWildcard (fold c) → IsWildcard c

lemma parseLike_char {c : Char} (h : ¬ IsWildcard c) (p : List Char) :
    parseLike (c :: p) = (parseLike p).map (.char c :: ·) := by
  have hpercent : c ≠ '%' := fun heq => h (.inl heq)
  have hunderscore : c ≠ '_' := fun heq => h (.inr (.inl heq))
  have hescape : c ≠ '\\' := fun heq => h (.inr (.inr heq))
  rw [parseLike]
  · exact hpercent
  · exact hunderscore
  · exact fun _ _ heq _ => hescape heq
  · exact fun heq _ => hescape heq

lemma parseLike_literal_append (s p : List Char) :
    parseLike (literal s ++ p) = (parseLike p).map (s.map .char ++ ·) := by
  induction s with
  | nil => simp [literal]
  | cons c s ih =>
    have hcons : literal (c :: s) ++ p = literalChar c ++ (literal s ++ p) := by simp [literal]
    have hstep : parseLike (literalChar c ++ (literal s ++ p)) =
        (parseLike (literal s ++ p)).map (.char c :: ·) := by
      unfold literalChar
      split
      next h => rfl
      next h => exact parseLike_char h _
    rw [hcons, hstep, ih, Option.map_map]
    rfl

lemma likeTokens_chars_append {s t : List Char} {p : List LikeToken} :
    likeTokens (s.map .char ++ p) t = true ↔ ∃ t', t = s ++ t' ∧ likeTokens p t' = true := by
  induction s generalizing t with
  | nil => simp
  | cons c s ih =>
    cases t with
    | nil => simp [likeTokens]
    | cons d t =>
      rw [List.map_cons, List.cons_append, likeTokens, Bool.and_eq_true, ih, decide_eq_true_eq]
      constructor
      · rintro ⟨rfl, t', rfl, h⟩
        exact ⟨t', rfl, h⟩
      · rintro ⟨t', heq, h⟩
        injection heq with hd ht
        exact ⟨hd.symm, t', ht, h⟩

lemma likeTokens_anyText {p : List LikeToken} {t : List Char} :
    likeTokens (.anyText :: p) t = true ↔ ∃ u v, t = u ++ v ∧ likeTokens p v = true := by
  rw [likeTokens, List.any_eq_true]
  constructor
  · rintro ⟨v, hv, h⟩
    obtain ⟨u, hu⟩ := (List.mem_tails v t).mp hv
    exact ⟨u, v, hu.symm, h⟩
  · rintro ⟨u, v, rfl, h⟩
    exact ⟨v, (List.mem_tails v _).mpr (List.suffix_append u v), h⟩

/-- The tokens of a literal text between two percent signs. -/
lemma parseLike_contains (s : List Char) :
    parseLike ('%' :: literal s ++ ['%']) = some (.anyText :: s.map .char ++ [.anyText]) := by
  rw [List.cons_append, parseLike, parseLike_literal_append]
  rfl

/-- A literal text between two percent signs matches the texts it occurs in. -/
theorem like_contains_iff (s t : List Char) : like t ('%' :: literal s ++ ['%']) = true ↔ s <:+: t := by
  unfold like
  rw [parseLike_contains, Option.any_some, List.cons_append, likeTokens_anyText]
  constructor
  · rintro ⟨u, v, rfl, h⟩
    obtain ⟨v', rfl, -⟩ := likeTokens_chars_append.mp h
    exact ⟨u, v', List.append_assoc ..⟩
  · rintro ⟨u, v, rfl⟩
    refine ⟨u, s ++ v, List.append_assoc .., likeTokens_chars_append.mpr ⟨v, rfl, ?_⟩⟩
    exact likeTokens_anyText.mpr ⟨v, [], (List.append_nil v).symm, rfl⟩

section Fold

variable {fold : Char → Char} (h : KeepsWildcards fold)
include h

lemma literal_map_fold (s : List Char) : (literal s).map fold = literal (s.map fold) := by
  have hchar : ∀ c, (literalChar c).map fold = literalChar (fold c) := by
    intro c
    unfold literalChar
    by_cases hc : IsWildcard c
    · rw [if_pos hc, h.fixes c hc, if_pos hc, List.map_cons, h.fixes _ (.inr (.inr rfl)), List.map_singleton,
        h.fixes c hc]
    · rw [if_neg hc, if_neg fun hfold => hc (h.reflects c hfold), List.map_singleton]
  unfold literal
  rw [List.map_flatMap, List.flatMap_map]
  exact congrArg (fun f => s.flatMap f) (funext hchar)

/-- Regardless of case, a literal text between two percent signs matches the texts it occurs in. -/
theorem ilike_contains_iff (s t : List Char) :
    ilike fold t ('%' :: literal s ++ ['%']) = true ↔ s.map fold <:+: t.map fold := by
  have hpercent : fold '%' = '%' := h.fixes _ (.inl rfl)
  unfold ilike
  rw [List.map_append, List.map_cons, List.map_singleton, hpercent, literal_map_fold h]
  exact like_contains_iff _ _

end Fold

section Runs

variable {α : Type*} {s a b : List α} {z : α} {n : ℕ}

lemma getElem?_run {i : ℕ} (hlow : a.length ≤ i) (hhigh : i < a.length + n) :
    (a ++ (List.replicate n z ++ b))[i]? = some z := by
  have hlt : i - a.length < n := by omega
  have hrun : i - a.length < (List.replicate n z).length := by rwa [List.length_replicate]
  rw [List.getElem?_append_right hlow, List.getElem?_append_left hrun, List.getElem?_replicate_of_lt hlt]

/-- A text that neither begins nor ends with the character of a run, and is not longer than the run,
occurs before it or after it. -/
lemma infix_append_replicate (hne : s ≠ []) (hhead : s.head hne ≠ z) (hlast : s.getLast hne ≠ z)
    (hlength : s.length ≤ n) (h : s <:+: a ++ (List.replicate n z ++ b)) : s <:+: a ∨ s <:+: b := by
  obtain ⟨u, v, heq⟩ := h
  have hpos : 0 < s.length := List.length_pos_iff.mpr hne
  have htotal : u.length + s.length + v.length = a.length + (n + b.length) := by
    have hlengths := congrArg List.length heq
    simp only [List.length_append, List.length_replicate] at hlengths
    exact hlengths
  by_cases hbefore : u.length + s.length ≤ a.length
  · have hprefix : u ++ s <+: a := by
      refine List.prefix_of_prefix_length_le ⟨v, heq⟩ (List.prefix_append a _) ?_
      rwa [List.length_append]
    obtain ⟨w, hw⟩ := hprefix
    exact .inl ⟨u, w, hw⟩
  · by_cases hafter : a.length + n ≤ u.length
    · have hleft : s ++ v <:+ u ++ s ++ v := ⟨u, (List.append_assoc ..).symm⟩
      have hright : b <:+ u ++ s ++ v := by
        rw [heq, ← List.append_assoc]
        exact List.suffix_append _ b
      have hle : (s ++ v).length ≤ b.length := by
        rw [List.length_append]
        omega
      obtain ⟨w, hw⟩ := List.suffix_of_suffix_length_le hleft hright hle
      exact .inr ⟨w, v, by rw [List.append_assoc, hw]⟩
    · exfalso
      by_cases hstart : a.length ≤ u.length
      · have hget := getElem?_run (z := z) (b := b) hstart (not_le.mp hafter)
        rw [← heq, List.append_assoc, List.getElem?_append_right le_rfl, Nat.sub_self,
          List.getElem?_append_left hpos, List.getElem?_eq_getElem hpos] at hget
        injection hget with hget
        exact hhead ((List.head_eq_getElem hne).trans hget)
      · have hend : u.length + (s.length - 1) < a.length + n := by omega
        have hget := getElem?_run (z := z) (b := b) (i := u.length + (s.length - 1)) (by omega) hend
        have hindex : s.length - 1 < s.length := by omega
        rw [← heq, List.append_assoc, List.getElem?_append_right (by omega), Nat.add_sub_cancel_left,
          List.getElem?_append_left hindex, List.getElem?_eq_getElem hindex] at hget
        injection hget with hget
        exact hlast ((List.getLast_eq_getElem hne).trans hget)

end Runs

end Relational
