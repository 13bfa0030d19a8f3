import OtelviewPostgres.Model.Rust
import OtelviewPostgres.Relational.Traversal

/-!
# Reading hexadecimal text

`hex_decode` takes a text two bytes at a time and reads each pair with `u8::from_str_radix`. Such a
pair need not be two characters, and the parser takes a plus sign before the last digit. A text is
therefore a run of readable pairs and then its end, a pair that splits a character, or a pair that
does not parse, and the result follows from which of these it is.
-/

namespace OtelviewPostgres

open Relational

/-- The length of a text in UTF-8. -/
def byteLength (s : List Char) : ℕ := (s.map Char.utf8Size).sum

lemma utf8ByteSize_ofList (s : List Char) : (String.ofList s).utf8ByteSize = byteLength s := by
  induction s with
  | nil => rfl
  | cons c s ih =>
    have hcons : String.ofList (c :: s) = String.singleton c ++ String.ofList s := by
      rw [String.ext_iff]
      simp
    rw [hcons, String.utf8ByteSize_append, String.utf8ByteSize_singleton, ih]
    rfl

lemma utf8ByteSize_eq_byteLength (s : String) : s.utf8ByteSize = byteLength s.toList := by
  rw [← utf8ByteSize_ofList, String.ofList_toList]

lemma byteLength_cons (c : Char) (s : List Char) : byteLength (c :: s) = c.utf8Size + byteLength s := rfl

/-- The bytes `2 * i` and `2 * i + 1`. -/
def bytePair (s : List Char) (i : ℕ) : Except Panic (List Char) := strSlice (.ofList s) (2 * i) (2 * i + 2)

/-- The first two bytes end inside a character. -/
def SplitsPair : List Char → Prop
  | [] => False
  | [c] => 2 < c.utf8Size
  | c :: d :: _ => 2 < c.utf8Size ∨ c.utf8Size = 1 ∧ 1 < d.utf8Size

lemma bytePair_eq (s : List Char) (i : ℕ) :
    bytePair s i = match (dropBytes (2 * i) s).bind (takeBytes 2) with
      | some slice => .ok slice
      | none => .error .charBoundary := by
  have hslice : (dropBytes (2 * i) (String.ofList s).toList).bind (takeBytes (2 * i + 2 - 2 * i)) =
      (dropBytes (2 * i) s).bind (takeBytes 2) := by
    rw [String.toList_ofList, Nat.add_sub_cancel_left]
  rw [← hslice]
  exact rfl

section Pairs

variable {c d : Char} {s : List Char}

lemma bytePair_single (hc : c.utf8Size = 1) (hd : d.utf8Size = 1) : bytePair (c :: d :: s) 0 = .ok [c, d] := by
  rw [bytePair_eq]
  simp [dropBytes, takeBytes, hc, hd]

lemma bytePair_double (hc : c.utf8Size = 2) : bytePair (c :: s) 0 = .ok [c] := by
  rw [bytePair_eq]
  simp [dropBytes, takeBytes, hc]

lemma bytePair_succ (hc : c.utf8Size = 1) (hd : d.utf8Size = 1) (i : ℕ) :
    bytePair (c :: d :: s) (i + 1) = bytePair s i := by
  have hdrop : dropBytes (2 * (i + 1)) (c :: d :: s) = dropBytes (2 * i) s := by
    rw [show 2 * (i + 1) = 2 * i + 1 + 1 from by omega]
    simp [dropBytes, hc, hd]
  rw [bytePair_eq, bytePair_eq, hdrop]

lemma bytePair_splits (h : SplitsPair s) : bytePair s 0 = .error .charBoundary := by
  rw [bytePair_eq]
  match s, h with
  | [c], h =>
    have hc : ¬ c.utf8Size ≤ 2 := Nat.not_le.mpr h
    simp [dropBytes, takeBytes, hc]
  | c :: d :: s, .inl h =>
    have hc : ¬ c.utf8Size ≤ 2 := Nat.not_le.mpr h
    simp [dropBytes, takeBytes, hc]
  | c :: d :: s, .inr ⟨hc, h⟩ =>
    have hd : ¬ d.utf8Size ≤ 1 := Nat.not_le.mpr h
    simp [dropBytes, takeBytes, hc, hd]

end Pairs

def IsHexDigit (c : Char) : Prop := (hexDigitValue c).isSome

instance IsHexDigit.decidable : DecidablePred IsHexDigit := fun c =>
  inferInstanceAs (Decidable ((hexDigitValue c).isSome = true))

/-- What `from_str_radix` reads of two characters. -/
def ReadablePair (c d : Char) : Prop := (c = '+' ∨ IsHexDigit c) ∧ IsHexDigit d

instance ReadablePair.decidable (c d : Char) : Decidable (ReadablePair c d) :=
  inferInstanceAs (Decidable ((c = '+' ∨ IsHexDigit c) ∧ IsHexDigit d))

lemma toNat_lt_of_isHexDigit {c : Char} (h : IsHexDigit c) : c.toNat < 128 := by
  by_contra hge
  have hval : ∀ e : Char, e.toNat < 128 → ¬ c ≤ e := by
    intro e he hle
    have hle' : c.toNat ≤ e.toNat := hle
    omega
  have h9 := hval '9' (by decide)
  have hf := hval 'f' (by decide)
  have hF := hval 'F' (by decide)
  simp [IsHexDigit, hexDigitValue, h9, hf, hF] at h

/-- All there is to a digit, checked for every ASCII character. -/
lemma isHexDigit_spec {c : Char} (h : IsHexDigit c) :
    c.utf8Size = 1 ∧ c ≠ '+' ∧ IsHexDigit c.toLower ∧
      ∃ v < 16, hexDigitValue c = some v ∧ Nat.digitChar v = c.toLower := by
  have hall : ∀ c : Char, c.toNat < 128 → IsHexDigit c →
      c.utf8Size = 1 ∧ c ≠ '+' ∧ IsHexDigit c.toLower ∧
        ∃ v < 16, hexDigitValue c = some v ∧ Nat.digitChar v = c.toLower := forall_char_lt 128 (by decide)
  exact hall c (toNat_lt_of_isHexDigit h) h

lemma hexDigitValue_eq_none {c : Char} (h : ¬ IsHexDigit c) : hexDigitValue c = none :=
  Option.not_isSome_iff_eq_none.mp h

lemma isHexDigit_digitChar {v : ℕ} (h : v < 16) :
    IsHexDigit (Nat.digitChar v) ∧ hexDigitValue (Nat.digitChar v) = some v ∧
      (Nat.digitChar v).toLower = Nat.digitChar v := by
  have hall : ∀ n < 16, IsHexDigit (Nat.digitChar n) ∧ hexDigitValue (Nat.digitChar n) = some n ∧
      (Nat.digitChar n).toLower = Nat.digitChar n := by decide
  exact hall v h

lemma parseHexU8_digits {c d : Char} {v w : ℕ} (hplus : c ≠ '+') (hc : hexDigitValue c = some v) (hv : v < 16)
    (hd : hexDigitValue d = some w) (hw : w < 16) : parseHexU8 [c, d] = some (.ofNat (v * 16 + w)) := by
  have hlt : v * 16 + w < 256 := by omega
  have hlt' : v < 256 := by omega
  unfold parseHexU8
  split
  next rest heq =>
    injection heq with heq
    exact absurd heq hplus
  next => simp [hc, hd, hlt, hlt']

lemma parseHexU8_plus {d : Char} {w : ℕ} (hd : hexDigitValue d = some w) (hw : w < 16) :
    parseHexU8 ['+', d] = some (.ofNat w) := by
  have hlt : w < 256 := by omega
  simp [parseHexU8, hd, hlt]

lemma parseHexU8_isSome {c d : Char} (h : ReadablePair c d) : ∃ b, parseHexU8 [c, d] = some b := by
  obtain ⟨hc, hd⟩ := h
  obtain ⟨-, -, -, w, hw, hvalue, -⟩ := isHexDigit_spec hd
  cases hc with
  | inl hplus =>
    rw [hplus]
    exact ⟨_, parseHexU8_plus hvalue hw⟩
  | inr hdigit =>
    obtain ⟨-, hplus, -, v, hv, hvalue', -⟩ := isHexDigit_spec hdigit
    exact ⟨_, parseHexU8_digits hplus hvalue' hv hvalue hw⟩

lemma parseHexU8_eq_none {c d : Char} (h : ¬ ReadablePair c d) : parseHexU8 [c, d] = none := by
  unfold parseHexU8
  split
  next rest heq =>
    injection heq with hplus hrest
    have hd : ¬ IsHexDigit d := fun hd => h ⟨.inl hplus, hd⟩
    simp [← hrest, hexDigitValue_eq_none hd]
  next =>
    by_cases hc : IsHexDigit c
    · have hd : ¬ IsHexDigit d := fun hd => h ⟨.inr hc, hd⟩
      obtain ⟨-, -, -, v, hv, hvalue, -⟩ := isHexDigit_spec hc
      have hlt : v < 256 := by omega
      simp [hvalue, hlt, hexDigitValue_eq_none hd]
    · simp [hexDigitValue_eq_none hc]

lemma parseHexU8_single {c : Char} (h : ¬ IsHexDigit c) : parseHexU8 [c] = none := by
  unfold parseHexU8
  split
  next rest heq =>
    injection heq with hplus hrest
    simp [← hrest]
  next => simp [hexDigitValue_eq_none h]

/-- A byte is written with the digits it was read from, in lower case. -/
lemma hexByte_of_digits {c d : Char} (hc : IsHexDigit c) (hd : IsHexDigit d) :
    ∃ b, parseHexU8 [c, d] = some b ∧ (hexByte b).toList = [c.toLower, d.toLower] := by
  obtain ⟨-, hplus, -, v, hv, hvalue, hlower⟩ := isHexDigit_spec hc
  obtain ⟨-, -, -, w, hw, hvalue', hlower'⟩ := isHexDigit_spec hd
  refine ⟨_, parseHexU8_digits hplus hvalue hv hvalue' hw, ?_⟩
  have hnat : (UInt8.ofNat (v * 16 + w)).toNat = v * 16 + w := UInt8.toNat_ofNat_of_lt' (by
    rw [UInt8.size]
    omega)
  have hdiv : (v * 16 + w) / 16 = v := by omega
  have hmod : (v * 16 + w) % 16 = w := by omega
  unfold hexByte
  rw [hnat, hdiv, hmod, hlower, hlower', String.toList_ofList]

lemma toList_hexByte (b : UInt8) :
    (hexByte b).toList = [Nat.digitChar (b.toNat / 16), Nat.digitChar (b.toNat % 16)] := by
  unfold hexByte
  rw [String.toList_ofList]

lemma toList_hex (bytes : Bytes) : (hex bytes).toList = bytes.flatMap fun b => (hexByte b).toList := by
  unfold hex
  rw [String.toList_join, List.flatMap_map]

lemma isHexDigit_of_mem_hex {bytes : Bytes} {c : Char} (h : c ∈ (hex bytes).toList) :
    IsHexDigit c ∧ c.toLower = c := by
  rw [toList_hex, List.mem_flatMap] at h
  obtain ⟨b, -, hc⟩ := h
  have hlt := b.toNat_lt
  rw [toList_hexByte, List.mem_pair] at hc
  cases hc with
  | inl hc =>
    obtain ⟨hdigit, -, hlower⟩ := isHexDigit_digitChar (show b.toNat / 16 < 16 from by omega)
    exact hc ▸ ⟨hdigit, hlower⟩
  | inr hc =>
    obtain ⟨hdigit, -, hlower⟩ := isHexDigit_digitChar (show b.toNat % 16 < 16 from by omega)
    exact hc ▸ ⟨hdigit, hlower⟩

lemma hexByte_injective {b b' : UInt8} (h : (hexByte b).toList = (hexByte b').toList) : b = b' := by
  have hlt := b.toNat_lt
  have hlt' := b'.toNat_lt
  rw [toList_hexByte, toList_hexByte] at h
  injection h with hhigh hrest
  injection hrest with hlow
  have hvalue : ∀ {v w : ℕ}, v < 16 → w < 16 → Nat.digitChar v = Nat.digitChar w → v = w := by
    intro v w hv hw heq
    have hsome := (isHexDigit_digitChar hv).2.1
    rw [heq, (isHexDigit_digitChar hw).2.1] at hsome
    injection hsome with hsome
    exact hsome.symm
  have hdiv := hvalue (by omega) (by omega) hhigh
  have hmod := hvalue (by omega) (by omega) hlow
  rw [← UInt8.toNat_inj]
  omega

lemma hex_cons (b : UInt8) (bytes : Bytes) :
    (hex (b :: bytes)).toList = (hexByte b).toList ++ (hex bytes).toList := by
  rw [toList_hex, toList_hex, List.flatMap_cons]

lemma hex_injective {b b' : Bytes} (h : hex b = hex b') : b = b' := by
  have hlist : (hex b).toList = (hex b').toList := congrArg String.toList h
  clear h
  induction b generalizing b' with
  | nil =>
    cases b' with
    | nil => rfl
    | cons x b' => simp [toList_hexByte, toList_hex] at hlist
  | cons x b ih =>
    cases b' with
    | nil => simp [toList_hexByte, toList_hex] at hlist
    | cons y b' =>
      rw [hex_cons, hex_cons] at hlist
      have hlength : (hexByte x).toList.length = (hexByte y).toList.length := by simp [toList_hexByte]
      obtain ⟨hbyte, hrest⟩ := List.append_inj hlist hlength
      rw [hexByte_injective hbyte, ih hrest]

/-! ### Decoding pair after pair -/

/-- Decoding the first `n` pairs that `pair` gives. -/
def decodePairs (pair : ℕ → Except Panic (List Char)) (n : ℕ) : Except Panic (Option Bytes) :=
  OptionT.run ((List.range n).mapM fun i => OptionT.mk (do return parseHexU8 (← pair i)))

lemma hexDecode_eq (s : String) :
    hexDecode s = if byteLength s.toList % 2 ≠ 0 then .ok none
      else decodePairs (bytePair s.toList) (byteLength s.toList / 2) := by
  unfold hexDecode decodePairs bytePair
  simp only [utf8ByteSize_eq_byteLength, String.ofList_toList]

lemma run_cons (x : OptionT (Except Panic) UInt8) (xs : OptionT (Except Panic) Bytes) :
    OptionT.run (do return (← x) :: (← xs)) =
      match x.run with
      | .error p => .error p
      | .ok none => .ok none
      | .ok (some b) => xs.run.map (Option.map (b :: ·)) := by
  match x with
  | .error p => rfl
  | .ok none => rfl
  | .ok (some b) =>
    match xs with
    | .error p => rfl
    | .ok none => rfl
    | .ok (some bs) => rfl

lemma decodePairs_succ (pair : ℕ → Except Panic (List Char)) (n : ℕ) :
    decodePairs pair (n + 1) = match pair 0 with
      | .error p => .error p
      | .ok digits => match parseHexU8 digits with
        | none => .ok none
        | some b => (decodePairs (fun i => pair (i + 1)) n).map (Option.map (b :: ·)) := by
  unfold decodePairs
  rw [List.range_succ_eq_map, List.mapM_cons, List.mapM_map, run_cons]
  cases hpair : pair 0 with
  | error p => rfl
  | ok digits =>
    have hrun : OptionT.run (OptionT.mk (do return parseHexU8 (← Except.ok digits))) =
        (Except.ok (parseHexU8 digits) : Except Panic (Option UInt8)) := rfl
    rw [hrun]
    cases hparse : parseHexU8 digits with
    | none => simp only [hparse]
    | some b =>
      simp only [hparse]
      rfl

def pairText (pairs : List (Char × Char)) : List Char := pairs.flatMap fun p => [p.1, p.2]

lemma ReadablePair.utf8Size {c d : Char} (h : ReadablePair c d) : c.utf8Size = 1 ∧ d.utf8Size = 1 := by
  refine ⟨?_, (isHexDigit_spec h.2).1⟩
  cases h.1 with
  | inl hplus =>
    rw [hplus]
    decide
  | inr hdigit => exact (isHexDigit_spec hdigit).1

/-- Readable pairs are decoded and what follows them is what is left to decode. -/
lemma decodePairs_readable (pairs : List (Char × Char)) (h : ∀ p ∈ pairs, ReadablePair p.1 p.2)
    (rest : List Char) (n : ℕ) :
    ∃ bs : Bytes, decodePairs (bytePair (pairText pairs ++ rest)) (pairs.length + n) =
        (decodePairs (bytePair rest) n).map (Option.map (bs ++ ·)) ∧
      ((∀ p ∈ pairs, p.1 ≠ '+') → (pairText pairs).map Char.toLower = (hex bs).toList) := by
  induction pairs with
  | nil =>
    refine ⟨[], ?_, fun _ => rfl⟩
    rw [show pairText [] ++ rest = rest from rfl, List.length_nil, Nat.zero_add]
    cases decodePairs (bytePair rest) n with
    | error p => rfl
    | ok r => cases r <;> rfl
  | cons p pairs ih =>
    obtain ⟨bs, hdecode, htext⟩ := ih fun q hq => h q (List.mem_cons_of_mem p hq)
    have hp := h p List.mem_cons_self
    obtain ⟨hc, hd⟩ := hp.utf8Size
    obtain ⟨b, hb⟩ := parseHexU8_isSome hp
    refine ⟨b :: bs, ?_, ?_⟩
    · have hcons : pairText (p :: pairs) ++ rest = p.1 :: p.2 :: (pairText pairs ++ rest) := rfl
      have hlength : (p :: pairs).length + n = pairs.length + n + 1 := by
        rw [List.length_cons]
        omega
      have htail : (fun i => bytePair (p.1 :: p.2 :: (pairText pairs ++ rest)) (i + 1)) =
          bytePair (pairText pairs ++ rest) := funext fun i => bytePair_succ hc hd i
      rw [hcons, hlength, decodePairs_succ, bytePair_single hc hd]
      simp only [hb]
      rw [htail, hdecode]
      cases decodePairs (bytePair rest) n with
      | error p => rfl
      | ok r => cases r <;> rfl
    · intro hsigned
      have hdigit : IsHexDigit p.1 := hp.1.resolve_left (hsigned p List.mem_cons_self)
      obtain ⟨b', hb', hbyte⟩ := hexByte_of_digits hdigit hp.2
      rw [hb] at hb'
      injection hb' with hb'
      have hrest := htext fun q hq => hsigned q (List.mem_cons_of_mem p hq)
      rw [hex_cons, hb', hbyte, ← hrest]
      rfl

/-- A text whose first pair does not parse. -/
def StopsPair : List Char → Prop
  | [] => False
  | [c] => c.utf8Size = 2
  | c :: d :: _ => c.utf8Size = 2 ∨ c.utf8Size = 1 ∧ d.utf8Size = 1 ∧ ¬ ReadablePair c d

lemma not_isHexDigit_of_utf8Size {c : Char} (h : c.utf8Size = 2) : ¬ IsHexDigit c := by
  intro hdigit
  rw [(isHexDigit_spec hdigit).1] at h
  cases h

lemma decodePairs_stops {s : List Char} (h : StopsPair s) (n : ℕ) :
    decodePairs (bytePair s) (n + 1) = .ok none := by
  rw [decodePairs_succ]
  match s, h with
  | [c], h =>
    rw [bytePair_double h]
    simp only [parseHexU8_single (not_isHexDigit_of_utf8Size h)]
  | c :: d :: s, .inl h =>
    rw [bytePair_double h]
    simp only [parseHexU8_single (not_isHexDigit_of_utf8Size h)]
  | c :: d :: s, .inr ⟨hc, hd, h⟩ =>
    rw [bytePair_single hc hd]
    simp only [parseHexU8_eq_none h]

lemma decodePairs_splits {s : List Char} (h : SplitsPair s) (n : ℕ) :
    decodePairs (bytePair s) (n + 1) = .error .charBoundary := by
  rw [decodePairs_succ, bytePair_splits h]

/-- A text of even length is a run of readable pairs, and then its end or a pair that is not. -/
lemma eq_pairText_append (s : List Char) (heven : byteLength s % 2 = 0) :
    ∃ pairs rest, s = pairText pairs ++ rest ∧ (∀ p ∈ pairs, ReadablePair p.1 p.2) ∧
      (rest = [] ∨ SplitsPair rest ∨ StopsPair rest) := by
  match s with
  | [] => exact ⟨[], [], rfl, by simp, .inl rfl⟩
  | [c] =>
    refine ⟨[], [c], rfl, by simp, .inr ?_⟩
    have hsize := Char.utf8Size_eq c
    rw [byteLength_cons, show byteLength [] = 0 from rfl] at heven
    unfold SplitsPair StopsPair
    omega
  | c :: d :: s =>
    by_cases hpair : ReadablePair c d
    · obtain ⟨hc, hd⟩ := hpair.utf8Size
      rw [byteLength_cons, byteLength_cons, hc, hd] at heven
      obtain ⟨pairs, rest, hs, hread, hend⟩ := eq_pairText_append s (by omega)
      refine ⟨(c, d) :: pairs, rest, ?_, ?_, hend⟩
      · rw [hs]
        rfl
      · intro p hp
        cases List.mem_cons.mp hp with
        | inl heq => exact heq ▸ hpair
        | inr hp => exact hread p hp
    · refine ⟨[], c :: d :: s, rfl, by simp, .inr ?_⟩
      have hsize := Char.utf8Size_eq c
      have hsize' := Char.utf8Size_pos d
      unfold SplitsPair StopsPair
      by_cases hd : d.utf8Size = 1
      · simp only [hpair, hd, not_false_eq_true, and_true]
        omega
      · simp only [hd, false_and, and_false, or_false]
        omega

/-- A text that is misread: after readable pairs it ends, one of them signed, or goes on with a
pair that splits a character. -/
def Misread (s : String) : Prop :=
  byteLength s.toList % 2 = 0 ∧ ∃ pairs rest, s.toList = pairText pairs ++ rest ∧
    (∀ p ∈ pairs, ReadablePair p.1 p.2) ∧ (rest = [] ∧ (∃ p ∈ pairs, p.1 = '+') ∨ SplitsPair rest)

/-- The bytes a text is read as are those written in it, and there are none otherwise. -/
def HexDecodesExactly (s : String) : Prop :=
  ∃ r, hexDecode s = .ok r ∧ ∀ b, r = some b ↔ s.toLower = hex b

lemma toList_toLower (s : String) : s.toLower.toList = s.toList.map Char.toLower := by
  unfold String.toLower
  rw [String.toList_map]

lemma isHexDigit_of_toLower_eq {s : String} {b : Bytes} (h : s.toLower = hex b) {c : Char} (hc : c ∈ s.toList) :
    IsHexDigit c.toLower := by
  have hmem : c.toLower ∈ (hex b).toList := by
    rw [← h, toList_toLower]
    exact List.mem_map_of_mem hc
  exact (isHexDigit_of_mem_hex hmem).1

lemma isHexDigit_of_toLower {c : Char} (h : IsHexDigit c.toLower) : IsHexDigit c := by
  by_cases hc : c.toNat < 128
  · have hall : ∀ c : Char, c.toNat < 128 → IsHexDigit c.toLower → IsHexDigit c := forall_char_lt 128 (by decide)
    exact hall c hc h
  · rwa [toLower_of_not_ascii hc] at h

lemma digits_of_toLower_eq {s : String} {b : Bytes} (h : s.toLower = hex b) {c : Char} (hc : c ∈ s.toList) :
    IsHexDigit c :=
  isHexDigit_of_toLower (isHexDigit_of_toLower_eq h hc)

lemma length_hex (b : Bytes) : (hex b).toList.length = b.length * 2 := by
  rw [toList_hex]
  exact length_flatMap_of_length fun x _ => by simp [toList_hexByte]

lemma byteLength_of_digits {s : List Char} (h : ∀ c ∈ s, IsHexDigit c) : byteLength s = s.length := by
  induction s with
  | nil => rfl
  | cons c s ih =>
    rw [byteLength_cons, (isHexDigit_spec (h c List.mem_cons_self)).1,
      ih fun d hd => h d (List.mem_cons_of_mem c hd), List.length_cons, Nat.add_comm]

lemma byteLength_of_toLower_eq {s : String} {b : Bytes} (h : s.toLower = hex b) :
    byteLength s.toList = b.length * 2 := by
  rw [byteLength_of_digits fun c hc => digits_of_toLower_eq h hc, ← length_hex, ← h, toList_toLower, List.length_map]

lemma mem_pairText {pairs : List (Char × Char)} {p : Char × Char} (h : p ∈ pairs) : p.1 ∈ pairText pairs :=
  List.mem_flatMap.mpr ⟨p, h, List.mem_cons_self⟩

lemma byteLength_pairText {pairs : List (Char × Char)} (h : ∀ p ∈ pairs, ReadablePair p.1 p.2)
    (rest : List Char) : byteLength (pairText pairs ++ rest) = 2 * pairs.length + byteLength rest := by
  induction pairs with
  | nil => simp [pairText]
  | cons p pairs ih =>
    have hrest := ih fun q hq => h q (List.mem_cons_of_mem p hq)
    obtain ⟨hc, hd⟩ := (h p List.mem_cons_self).utf8Size
    have hcons : pairText (p :: pairs) ++ rest = p.1 :: p.2 :: (pairText pairs ++ rest) := rfl
    rw [hcons, byteLength_cons, byteLength_cons, hrest, hc, hd, List.length_cons]
    omega

/-- Of a text in pairs, what the decoder makes is what it makes of the pair where it ends. -/
lemma hexDecode_pairs {s : String} {pairs : List (Char × Char)} {rest : List Char}
    (heven : byteLength s.toList % 2 = 0) (hs : s.toList = pairText pairs ++ rest)
    (hread : ∀ p ∈ pairs, ReadablePair p.1 p.2) :
    (rest = [] → ∃ bs, hexDecode s = .ok (some bs) ∧
      ((∀ p ∈ pairs, p.1 ≠ '+') → s.toLower = hex bs)) ∧
    (SplitsPair rest → hexDecode s = .error .charBoundary) ∧
    (StopsPair rest → hexDecode s = .ok none) := by
  have hlength := byteLength_pairText hread rest
  rw [← hs] at hlength
  obtain ⟨bs, hdecode, htext⟩ := decodePairs_readable pairs hread rest (byteLength rest / 2)
  have hpairs : byteLength s.toList / 2 = pairs.length + byteLength rest / 2 := by omega
  have heq : hexDecode s = (decodePairs (bytePair rest) (byteLength rest / 2)).map (Option.map (bs ++ ·)) := by
    rw [hexDecode_eq, if_neg (not_not.mpr heven), hpairs, hs, hdecode]
  -- What is left is of even length, so that a pair that is left has two bytes.
  have hleft : rest ≠ [] → ∃ n, byteLength rest / 2 = n + 1 := by
    intro hne
    obtain ⟨c, rest', rfl⟩ := List.exists_cons_of_ne_nil hne
    have hpos := Char.utf8Size_pos c
    rw [byteLength_cons] at hlength
    refine ⟨byteLength (c :: rest') / 2 - 1, ?_⟩
    rw [byteLength_cons]
    omega
  refine ⟨?_, ?_, ?_⟩
  · rintro rfl
    refine ⟨bs, ?_, ?_⟩
    · rw [heq, show byteLength [] / 2 = 0 from rfl]
      exact congrArg (fun l => Except.ok (some l)) (List.append_nil bs)
    · intro hsigned
      rw [String.ext_iff, toList_toLower, hs, List.append_nil, htext hsigned]
  · intro hsplit
    obtain ⟨n, hn⟩ := hleft fun hnil => by rw [hnil] at hsplit; exact hsplit
    rw [heq, hn, decodePairs_splits hsplit]
    rfl
  · intro hstop
    obtain ⟨n, hn⟩ := hleft fun hnil => by rw [hnil] at hstop; exact hstop
    rw [heq, hn, decodePairs_stops hstop]
    rfl

lemma exists_not_isHexDigit_of_stops {s : List Char} (h : StopsPair s) : ∃ c ∈ s, ¬ IsHexDigit c := by
  match s, h with
  | [c], h => exact ⟨c, List.mem_cons_self, not_isHexDigit_of_utf8Size h⟩
  | c :: d :: s, .inl h => exact ⟨c, List.mem_cons_self, not_isHexDigit_of_utf8Size h⟩
  | c :: d :: s, .inr ⟨_, _, h⟩ =>
    by_cases hd : IsHexDigit d
    · exact ⟨c, List.mem_cons_self, fun hc => h ⟨.inr hc, hd⟩⟩
    · exact ⟨d, List.mem_cons_of_mem c List.mem_cons_self, hd⟩

lemma not_misread_of_digits {s : String} (h : ∀ c ∈ s.toList, IsHexDigit c) : ¬ Misread s := by
  rintro ⟨-, pairs, rest, hs, -, hend⟩
  rw [hs] at h
  cases hend with
  | inl hplus =>
    obtain ⟨-, p, hp, hplus⟩ := hplus
    exact (isHexDigit_spec (h p.1 (List.mem_append_left rest (mem_pairText hp)))).2.1 hplus
  | inr hsplit =>
    have hsize : ∀ c ∈ rest, c.utf8Size = 1 := fun c hc => (isHexDigit_spec (h c (List.mem_append_right _ hc))).1
    match rest, hsplit with
    | [c], hc => simp [SplitsPair, hsize c List.mem_cons_self] at hc
    | c :: d :: rest, hcd =>
      have hd := hsize d (List.mem_cons_of_mem c List.mem_cons_self)
      simp [SplitsPair, hsize c List.mem_cons_self, hd] at hcd

lemma hexDecodesExactly_of_not_misread {s : String} (hgood : ¬ Misread s) : HexDecodesExactly s := by
  by_cases heven : byteLength s.toList % 2 = 0
  · obtain ⟨pairs, rest, hs, hread, hend⟩ := eq_pairText_append s.toList heven
    obtain ⟨hall, -, hstops⟩ := hexDecode_pairs heven hs hread
    obtain hnil | hsplit | hstop := hend
    · have hsigned : ∀ p ∈ pairs, p.1 ≠ '+' := fun p hp hplus =>
        hgood ⟨heven, pairs, rest, hs, hread, .inl ⟨hnil, p, hp, hplus⟩⟩
      obtain ⟨bs, hdecode, htext⟩ := hall hnil
      refine ⟨some bs, hdecode, fun b => ?_⟩
      rw [htext hsigned, Option.some.injEq]
      exact ⟨fun heq => heq ▸ rfl, hex_injective⟩
    · exact absurd ⟨heven, pairs, rest, hs, hread, .inr hsplit⟩ hgood
    · refine ⟨none, hstops hstop, fun b => ⟨fun h => (by cases h), fun h => ?_⟩⟩
      obtain ⟨c, hc, hnot⟩ := exists_not_isHexDigit_of_stops hstop
      have hmem : c ∈ s.toList := by
        rw [hs]
        exact List.mem_append_right _ hc
      exact absurd (digits_of_toLower_eq h hmem) hnot
  · refine ⟨none, ?_, fun b => ⟨fun h => (by cases h), fun h => ?_⟩⟩
    · rw [hexDecode_eq, if_pos heven]
    · rw [byteLength_of_toLower_eq h, Nat.mul_mod_left] at heven
      exact absurd rfl heven

lemma not_hexDecodesExactly_of_misread {s : String} (h : Misread s) : ¬ HexDecodesExactly s := by
  obtain ⟨heven, pairs, rest, hs, hread, hend⟩ := h
  obtain ⟨hall, hsplits, -⟩ := hexDecode_pairs heven hs hread
  rintro ⟨r, hr, hexact⟩
  cases hend with
  | inl hplus =>
    obtain ⟨hnil, p, hp, hplus⟩ := hplus
    obtain ⟨bs, hdecode, -⟩ := hall hnil
    rw [hr] at hdecode
    injection hdecode with hdecode
    have hmem : p.1 ∈ s.toList := by
      rw [hs]
      exact List.mem_append_left rest (mem_pairText hp)
    exact (isHexDigit_spec (digits_of_toLower_eq ((hexact bs).mp hdecode) hmem)).2.1 hplus
  | inr hsplit =>
    rw [hsplits hsplit] at hr
    cases hr

lemma hexDecode_hex (b : Bytes) : hexDecode (hex b) = .ok (some b) := by
  obtain ⟨r, hr, hexact⟩ :=
    hexDecodesExactly_of_not_misread (not_misread_of_digits fun c hc => (isHexDigit_of_mem_hex hc).1)
  have hlower : (hex b).toLower = hex b := by
    rw [String.ext_iff, toList_toLower]
    exact (List.map_congr_left fun c hc => (isHexDigit_of_mem_hex hc).2).trans (List.map_id _)
  rw [hr, (hexact b).mpr hlower]

/-- `hex_decode` inverts `hex`, accepts nothing else and does not panic, exactly on the texts that
are not misread. -/
theorem hexDecodesExactly_iff (s : String) : HexDecodesExactly s ↔ ¬ Misread s :=
  ⟨fun hexact h => not_hexDecodesExactly_of_misread h hexact, hexDecodesExactly_of_not_misread⟩

/-- A signed digit is read as a byte, and a pair that splits a character panics. -/
theorem signed_digit_and_split_misread :
    (¬ ∀ s, HexDecodesExactly s) ∧ hexDecode "+f" = .ok (some [15]) ∧ "+f".toLower ≠ hex [15] ∧
    hexDecode "aéb" = .error .charBoundary := by
  have hplus : hexDecode "+f" = .ok (some [15]) := by decide
  have hhex : "+f".toLower ≠ hex [15] := by
    intro h
    have hlist := congrArg String.toList h
    rw [toList_toLower] at hlist
    exact absurd hlist (by decide)
  refine ⟨fun h => ?_, hplus, hhex, by decide⟩
  obtain ⟨r, hr, hexact⟩ := h "+f"
  rw [hplus] at hr
  injection hr with hr
  exact hhex ((hexact [15]).mp hr.symm)

end OtelviewPostgres
