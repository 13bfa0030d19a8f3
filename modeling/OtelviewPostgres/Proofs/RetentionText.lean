import OtelviewPostgres.Model.RetentionConfig
import OtelviewPostgres.Proofs.StoreInvariant

/-!
# What a retention says

A retention is a number and a unit. It is read as the number of seconds it says modulo `2 ^ 64`, so
that a sweep keeps what is younger than the duration exactly where these seconds fit in 64 bits.
-/

namespace OtelviewPostgres

open Relational

inductive RetentionUnit where
  | hour
  | day
  | week
  | month
deriving DecidableEq

namespace RetentionUnit

def names : RetentionUnit → List String
  | hour => ["h", "hour"]
  | day => ["d", "day"]
  | week => ["w", "week"]
  | month => ["m", "mo", "month"]

def hours : RetentionUnit → ℕ
  | hour => 1
  | day => 24
  | week => 24 * 7
  | month => 24 * 30

def seconds (u : RetentionUnit) : ℕ := u.hours * 3600

end RetentionUnit

/-- The text is a decimal number and a unit, with any number of letters `s` after it. -/
def Writes (text : List Char) (n : ℕ) (u : RetentionUnit) : Prop :=
  ∃ digits name k, text = digits ++ name.toList ++ List.replicate k 's' ∧ digits ≠ [] ∧
    (∀ c ∈ digits, c.isDigit = true) ∧ n = Nat.ofDigitChars 10 digits 0 ∧ name ∈ u.names

/-- A unit begins with a letter that is no digit and ends with one that is no `s`. -/
lemma RetentionUnit.name_spec {u : RetentionUnit} {name : String} (h : name ∈ u.names) :
    (∃ c rest, name.toList = c :: rest ∧ c.isDigit = false) ∧ ∃ rest c, name.toList = rest ++ [c] ∧ c ≠ 's' := by
  cases u with
  | hour =>
    simp only [names, List.mem_cons, List.not_mem_nil, or_false] at h
    obtain rfl | rfl := h
    · exact ⟨⟨'h', [], rfl, rfl⟩, [], 'h', rfl, by decide⟩
    · exact ⟨⟨'h', ['o', 'u', 'r'], rfl, rfl⟩, ['h', 'o', 'u'], 'r', rfl, by decide⟩
  | day =>
    simp only [names, List.mem_cons, List.not_mem_nil, or_false] at h
    obtain rfl | rfl := h
    · exact ⟨⟨'d', [], rfl, rfl⟩, [], 'd', rfl, by decide⟩
    · exact ⟨⟨'d', ['a', 'y'], rfl, rfl⟩, ['d', 'a'], 'y', rfl, by decide⟩
  | week =>
    simp only [names, List.mem_cons, List.not_mem_nil, or_false] at h
    obtain rfl | rfl := h
    · exact ⟨⟨'w', [], rfl, rfl⟩, [], 'w', rfl, by decide⟩
    · exact ⟨⟨'w', ['e', 'e', 'k'], rfl, rfl⟩, ['w', 'e', 'e'], 'k', rfl, by decide⟩
  | month =>
    simp only [names, List.mem_cons, List.not_mem_nil, or_false] at h
    obtain rfl | rfl | rfl := h
    · exact ⟨⟨'m', [], rfl, rfl⟩, [], 'm', rfl, by decide⟩
    · exact ⟨⟨'m', ['o'], rfl, rfl⟩, ['m'], 'o', rfl, by decide⟩
    · exact ⟨⟨'m', ['o', 'n', 't', 'h'], rfl, rfl⟩, ['m', 'o', 'n', 't'], 'h', rfl, by decide⟩

lemma RetentionUnit.eq_of_mem_names {u v : RetentionUnit} {name : String} (hu : name ∈ u.names) (hv : name ∈ v.names) :
    u = v := by
  have hall : ∀ name ∈ u.names, name ∈ v.names → u = v := by
    cases u <;> cases v <;> decide
  exact hall name hu hv

lemma trimEndMatches_append_replicate {c d : Char} (h : c ≠ d) (l : List Char) (k : ℕ) :
    trimEndMatches d (l ++ [c] ++ List.replicate k d) = l ++ [c] := by
  unfold trimEndMatches
  induction k with
  | zero => rw [List.replicate_zero, List.append_nil, List.rdropWhile_concat_neg _ _ _ (by simp [h])]
  | succ k ih => rw [List.replicate_succ', ← List.append_assoc, List.rdropWhile_concat_pos _ _ _ (by simp), ih]

lemma exists_eq_trimEndMatches_append (d : Char) (l : List Char) :
    ∃ k, l = trimEndMatches d l ++ List.replicate k d := by
  refine ⟨(l.rtakeWhile fun c => c = d).length, ?_⟩
  have hall : ∀ c ∈ l.rtakeWhile (fun c => c = d), c = d := fun c hc => by simpa using List.mem_rtakeWhile_imp hc
  rw [← List.eq_replicate_length.mpr hall]
  exact List.rdropWhile_append_rtakeWhile.symm

/-- The number and the unit of a text are the digits at its start and what is left of the rest. -/
lemma writes_iff {text : List Char} {n : ℕ} {u : RetentionUnit} :
    Writes text n u ↔ text.takeWhile Char.isDigit ≠ [] ∧ n = Nat.ofDigitChars 10 (text.takeWhile Char.isDigit) 0 ∧
      String.ofList (trimEndMatches 's' (text.dropWhile Char.isDigit)) ∈ u.names := by
  constructor
  · rintro ⟨digits, name, k, rfl, hne, hdigits, rfl, hname⟩
    obtain ⟨⟨c, rest, hfirst, hc⟩, rest', c', hlast, hc'⟩ := RetentionUnit.name_spec hname
    have htake : (digits ++ name.toList ++ List.replicate k 's').takeWhile Char.isDigit = digits := by
      rw [List.append_assoc, List.takeWhile_append_of_pos hdigits, hfirst, List.cons_append,
        List.takeWhile_cons_of_neg (by simp [hc]), List.append_nil]
    have hdrop : (digits ++ name.toList ++ List.replicate k 's').dropWhile Char.isDigit =
        name.toList ++ List.replicate k 's' := by
      rw [List.append_assoc, List.dropWhile_append_of_pos hdigits, hfirst, List.cons_append,
        List.dropWhile_cons_of_neg (by simp [hc])]
    have htrim : trimEndMatches 's' (name.toList ++ List.replicate k 's') = name.toList := by
      rw [hlast, trimEndMatches_append_replicate hc']
    rw [htake, hdrop, htrim, String.ofList_toList]
    exact ⟨hne, rfl, hname⟩
  · rintro ⟨hne, rfl, hname⟩
    obtain ⟨k, hk⟩ := exists_eq_trimEndMatches_append 's' (text.dropWhile Char.isDigit)
    refine ⟨text.takeWhile Char.isDigit, _, k, ?_, hne, fun c hc => List.mem_takeWhile_imp hc, rfl, hname⟩
    rw [String.toList_ofList, List.append_assoc, ← hk, List.takeWhile_append_dropWhile]

lemma Writes.unique {text : List Char} {n m : ℕ} {u v : RetentionUnit} (h : Writes text n u) (h' : Writes text m v) :
    n = m ∧ u = v := by
  obtain ⟨-, hn, hu⟩ := writes_iff.mp h
  obtain ⟨-, hm, hv⟩ := writes_iff.mp h'
  exact ⟨hn.trans hm.symm, RetentionUnit.eq_of_mem_names hu hv⟩

lemma le_ofDigitChars (digits : List Char) (init : ℕ) : init ≤ Nat.ofDigitChars 10 digits init := by
  induction digits generalizing init with
  | nil => simp
  | cons c digits ih =>
    rw [Nat.ofDigitChars_cons]
    exact le_trans (by omega) (ih _)

/-- The checks made at each digit fail where the number they end in does not fit. -/
lemma foldlM_digits (digits : List Char) (init : ℕ) (hinit : init < 2 ^ 64) :
    digits.foldlM (fun value c =>
      if value * 10 + (c.toNat - '0'.toNat) < 2 ^ 64 then some (value * 10 + (c.toNat - '0'.toNat)) else none) init =
      if Nat.ofDigitChars 10 digits init < 2 ^ 64 then some (Nat.ofDigitChars 10 digits init) else none := by
  induction digits generalizing init with
  | nil =>
    rw [List.foldlM_nil, Nat.ofDigitChars_nil, if_pos hinit]
    rfl
  | cons c digits ih =>
    have hcomm : init * 10 = 10 * init := Nat.mul_comm ..
    rw [List.foldlM_cons, Nat.ofDigitChars_cons, hcomm]
    by_cases hfits : 10 * init + (c.toNat - '0'.toNat) < 2 ^ 64
    · rw [if_pos hfits]
      exact ih _ hfits
    · have hlarge := le_ofDigitChars digits (10 * init + (c.toNat - '0'.toNat))
      rw [if_neg hfits, if_neg (by omega)]
      rfl

lemma parseU64_eq_ok {digits : List Char} {n : UInt64} :
    parseU64 digits = .ok n ↔ digits ≠ [] ∧ n.toNat = Nat.ofDigitChars 10 digits 0 := by
  unfold parseU64
  rw [foldlM_digits digits 0 (by decide)]
  cases digits with
  | nil => simp
  | cons c digits =>
    have hlt := n.toNat_lt
    by_cases hfits : Nat.ofDigitChars 10 (c :: digits) 0 < 2 ^ 64
    · rw [if_neg (by simp), if_pos hfits]
      constructor
      · rintro ⟨⟩
        exact ⟨by simp, by rw [UInt64.toNat_ofNat']; exact Nat.mod_eq_of_lt hfits⟩
      · rintro ⟨-, heq⟩
        rw [← heq]
        simp
    · rw [if_neg (by simp), if_neg hfits]
      constructor
      · rintro ⟨⟩
      · rintro ⟨-, heq⟩
        omega

/-- The hours of a unit are taken modulo `2 ^ 64`. -/
lemma retentionHours_eq_ok {tables : CharTables} {n hours : UInt64} {name : String} :
    retentionHours tables n name = .ok hours ↔ ∃ u : RetentionUnit, name ∈ u.names ∧ hours = n * .ofNat u.hours := by
  constructor
  · intro h
    unfold retentionHours at h
    split at h
    next hname =>
      cases h
      exact ⟨.hour, by simpa [RetentionUnit.names] using hname, (UInt64.mul_one n).symm⟩
    next =>
      split at h
      next hname =>
        cases h
        exact ⟨.day, by simpa [RetentionUnit.names] using hname, rfl⟩
      next =>
        split at h
        next hname =>
          cases h
          exact ⟨.week, by simpa [RetentionUnit.names] using hname, UInt64.mul_assoc ..⟩
        next =>
          split at h
          next hname =>
            cases h
            exact ⟨.month, by simpa [RetentionUnit.names] using hname, UInt64.mul_assoc ..⟩
          next => cases h
  · rintro ⟨u, hname, rfl⟩
    cases u with
    | hour =>
      simp only [RetentionUnit.names, List.mem_cons, List.not_mem_nil, or_false] at hname
      rw [retentionHours, if_pos hname]
      exact congrArg Except.ok (UInt64.mul_one n).symm
    | day =>
      simp only [RetentionUnit.names, List.mem_cons, List.not_mem_nil, or_false] at hname
      obtain rfl | rfl := hname <;> rfl
    | week =>
      simp only [RetentionUnit.names, List.mem_cons, List.not_mem_nil, or_false] at hname
      obtain rfl | rfl := hname <;> exact congrArg Except.ok (UInt64.mul_assoc ..)
    | month =>
      simp only [RetentionUnit.names, List.mem_cons, List.not_mem_nil, or_false] at hname
      obtain rfl | rfl | rfl := hname <;> exact congrArg Except.ok (UInt64.mul_assoc ..)

section Parse

variable {tables : CharTables} {toLowercase : List Char → List Char} {raw : String}

/-- What is checked before a retention is accepted. -/
lemma parseRetention_steps {seconds : UInt64} :
    parseRetention tables toLowercase raw = .ok seconds ↔
      (retentionText toLowercase raw).dropWhile Char.isDigit ≠ [] ∧
      ∃ n hours, parseU64 ((retentionText toLowercase raw).takeWhile Char.isDigit) = .ok n ∧ n ≠ 0 ∧
        retentionHours tables n
          (.ofList (trimEndMatches 's' ((retentionText toLowercase raw).dropWhile Char.isDigit))) = .ok hours ∧
        seconds = hours * 3600 := by
  unfold parseRetention
  generalize retentionText toLowercase raw = s
  dsimp only
  constructor
  · intro h
    split at h
    · cases h
    · rename_i hunit
      obtain ⟨n, hn, h⟩ := bind_eq_ok.mp h
      split at h
      · cases h
      · rename_i hzero
        obtain ⟨hours, hhours, h⟩ := bind_eq_ok.mp h
        rw [List.isEmpty_iff] at hunit
        exact ⟨hunit, n, hours, mapError_eq_ok.mp hn, hzero, hhours, (Except.ok.inj h).symm⟩
  · rintro ⟨hunit, n, hours, hn, hzero, hhours, rfl⟩
    rw [if_neg (by rwa [List.isEmpty_iff]), hn]
    change (if n = 0 then _ else _) = _
    rw [if_neg hzero, hhours]
    rfl

lemma toNat_seconds (n : UInt64) (u : RetentionUnit) :
    (n * .ofNat u.hours * 3600).toNat = n.toNat * u.seconds % 2 ^ 64 := by
  have hhours : (UInt64.ofNat u.hours).toNat = u.hours := by
    cases u <;> rfl
  rw [UInt64.toNat_mul, UInt64.toNat_mul, hhours, show (3600 : UInt64).toNat = 3600 from rfl, Nat.mod_mul_mod,
    Nat.mul_assoc]
  rfl

/-- The retentions that are accepted, and the seconds they are read as. -/
theorem parseRetention_eq_ok {seconds : UInt64} :
    parseRetention tables toLowercase raw = .ok seconds ↔ ∃ n u, Writes (retentionText toLowercase raw) n u ∧
      0 < n ∧ n < 2 ^ 64 ∧ seconds.toNat = n * u.seconds % 2 ^ 64 := by
  rw [parseRetention_steps]
  constructor
  · rintro ⟨-, n, hours, hn, hpos, hhours, rfl⟩
    obtain ⟨hne, hvalue⟩ := parseU64_eq_ok.mp hn
    obtain ⟨u, hname, rfl⟩ := retentionHours_eq_ok.mp hhours
    have hnonzero : n.toNat ≠ 0 := fun hzero => hpos (UInt64.toNat_inj.mp hzero)
    exact ⟨n.toNat, u, writes_iff.mpr ⟨hne, hvalue, hname⟩, Nat.pos_of_ne_zero hnonzero, n.toNat_lt,
      toNat_seconds n u⟩
  · rintro ⟨n, u, hwrites, hpos, hlt, hseconds⟩
    obtain ⟨hne, hvalue, hname⟩ := writes_iff.mp hwrites
    have hn : (UInt64.ofNat n).toNat = n := UInt64.toNat_ofNat_of_lt' hlt
    refine ⟨?_, .ofNat n, .ofNat n * .ofNat u.hours, parseU64_eq_ok.mpr ⟨hne, by rw [hn, hvalue]⟩, ?_,
      retentionHours_eq_ok.mpr ⟨u, hname, rfl⟩, ?_⟩
    · intro hnil
      obtain ⟨⟨c, rest, hfirst, -⟩, -⟩ := RetentionUnit.name_spec hname
      rw [hnil] at hfirst
      cases hfirst
    · intro hzero
      rw [hzero] at hn
      have hzero' : (0 : UInt64).toNat = 0 := rfl
      omega
    · rw [← UInt64.toNat_inj, toNat_seconds, hn, hseconds]

end Parse

/-! ### Times of stored rows -/

section Times

variable {env : Externals}

/-- No row was stored with a time before the epoch. -/
def afterEpoch : RowProperty where
  span r := 0 ≤ r.startTime
  log r := 0 ≤ r.time
  point r := 0 ≤ r.time

lemma afterEpoch_ofItems : afterEpoch.OfItems env where
  span := by
    intro x row _ h
    change 0 ≤ row.startTime
    rw [(spanItemRow_eq_ok env h).2.2.1]
    exact Int.natCast_nonneg _
  log := by
    intro x row h
    obtain ⟨time, htime, h⟩ := bind_eq_ok.mp h
    obtain ⟨observed, -, h⟩ := bind_eq_ok.mp h
    obtain rfl := Except.ok.inj h
    change 0 ≤ time
    rw [(u64ToI64_eq_ok htime).1]
    exact Int.natCast_nonneg _
  point := by
    intro data x _ row h
    obtain ⟨time, htime, h⟩ := bind_eq_ok.mp h
    obtain ⟨count, -, h⟩ := bind_eq_ok.mp h
    split at h
    · obtain rfl := Except.ok.inj h
      change 0 ≤ time
      rw [(u64ToI64_eq_ok htime).1]
      exact Int.natCast_nonneg _
    · cases h

end Times

/-- An accepted retention is the duration it says, and not zero. -/
def ReadsAsWritten (tables : CharTables) (toLowercase : List Char → List Char) (raw : String) : Prop :=
  ∀ seconds, parseRetention tables toLowercase raw = .ok seconds →
    ∃ n u, Writes (retentionText toLowercase raw) n u ∧ seconds.toNat = n * u.seconds ∧ seconds ≠ 0

/-- The rows of the given time and later are still there. -/
structure Store.Keeps (bound : Int) (s s' : Store) : Prop where
  spans : ∀ r ∈ s.spans.rows, bound ≤ r.startTime → r ∈ s'.spans.rows
  logs : ∀ r ∈ s.logs.rows, bound ≤ r.row.time → r ∈ s'.logs.rows
  metricPoints : ∀ r ∈ s.metricPoints.rows, bound ≤ r.row.time → r ∈ s'.metricPoints.rows

/-- No sweep with the retention deletes a row that is younger than the duration it says. -/
def KeepsYounger (env : Externals) (toLowercase : List Char → List Char) (raw : String) : Prop :=
  ∀ seconds n u, parseRetention env.charTables toLowercase raw = .ok seconds →
    Writes (retentionText toLowercase raw) n u → ∀ s : Store, s.Reachable env →
    ∀ (run : SweepRun) (now : ℕ) (res : Except Error (ℕ × ℕ × ℕ)) (s' : Store),
      sweepExpired { run with nowNanos := some now } (asNanos seconds) s = some (res, s') →
        s.Keeps ((now : Int) - (n * u.seconds * 10 ^ 9 : ℕ)) s'

/-- A number that is read writes a duration whose seconds fit in 64 bits. -/
def FitsSeconds (toLowercase : List Char → List Char) (raw : String) : Prop :=
  ∀ n u, Writes (retentionText toLowercase raw) n u → n < 2 ^ 64 → n * u.seconds < 2 ^ 64

section Reading

variable {env : Externals} {tables : CharTables} {toLowercase : List Char → List Char} {raw : String}

lemma RetentionUnit.seconds_pos (u : RetentionUnit) : 0 < u.seconds := by
  cases u <;> decide

lemma readsAsWritten_iff : ReadsAsWritten tables toLowercase raw ↔ FitsSeconds toLowercase raw := by
  constructor
  · intro hreads n u hwrites hlt
    obtain hzero | hpos := Nat.eq_zero_or_pos n
    · rw [hzero, Nat.zero_mul]
      decide
    · have hseconds : (UInt64.ofNat (n * u.seconds)).toNat = n * u.seconds % 2 ^ 64 := UInt64.toNat_ofNat'
      obtain ⟨m, v, hwrites', hexact, -⟩ :=
        hreads _ (parseRetention_eq_ok.mpr ⟨n, u, hwrites, hpos, hlt, hseconds⟩)
      obtain ⟨rfl, rfl⟩ := hwrites.unique hwrites'
      rw [← hexact]
      exact UInt64.toNat_lt _
  · intro hfits seconds hok
    obtain ⟨n, u, hwrites, hpos, hlt, hseconds⟩ := parseRetention_eq_ok.mp hok
    rw [Nat.mod_eq_of_lt (hfits n u hwrites hlt)] at hseconds
    refine ⟨n, u, hwrites, hseconds, fun hzero => ?_⟩
    have hproduct := Nat.mul_pos hpos u.seconds_pos
    rw [← hseconds, hzero] at hproduct
    exact absurd hproduct (by decide)

/-- A sweep keeps what is younger than the retention it is given. -/
lemma keeps_of_sweepExpired {s s' : Store} (hs : s.Reachable env) {run : SweepRun} {now retention : ℕ}
    {res : Except Error (ℕ × ℕ × ℕ)} (h : sweepExpired { run with nowNanos := some now } retention s = some (res, s')) :
    s.Keeps ((now : Int) - retention) s' := by
  obtain ⟨hnone, -⟩ | ⟨now', hnow, hswept, -⟩ := sweepExpired_cases h
  · cases hnone
  · obtain rfl := Option.some.inj hnow
    have hepoch := afterEpoch_ofItems.ofStore hs
    rw [sweepCutoff_eq] at hswept
    refine ⟨fun r hr hyoung => ?_, fun r hr hyoung => ?_, fun r hr hyoung => ?_⟩
    · have hnonneg : 0 ≤ r.startTime := hepoch.spans r hr
      exact hswept.spans.live r hr (by omega)
    · have hnonneg : 0 ≤ r.row.time := hepoch.logs r hr
      exact hswept.logs.live r hr (by omega)
    · have hnonneg : 0 ≤ r.row.time := hepoch.metricPoints r hr
      exact hswept.metricPoints.live r hr (by omega)

/-- A store with one log record, of the time of the epoch. -/
def epochLogged (env : Externals) : Store where
  logs := (writeLogs env {} { resourceLogs := [{ scopeLogs := [{ logRecords := [{}] }] }] } ∅).2

lemma reachable_epochLogged (env : Externals) : (epochLogged env).Reachable env :=
  .writeLogs {} { resourceLogs := [{ scopeLogs := [{ logRecords := [{}] }] }] } .empty

lemma times_epochLogged (env : Externals) : (epochLogged env).logs.rows.map (fun r => r.row.time) = [0] := rfl

/-- With a retention that is too short, a sweep deletes a row of the epoch before it has expired. -/
lemma not_keeps_of_short (env : Externals) {retention written : ℕ} (hshort : retention < written) :
    ∃ s' res, sweepExpired { nowNanos := some (retention + 1) } retention (epochLogged env) = some (res, s') ∧
      ¬ (epochLogged env).Keeps (((retention + 1 : ℕ) : Int) - written) s' := by
  obtain ⟨res, s', h⟩ := exists_sweepExpired { nowNanos := some (retention + 1) } retention (epochLogged env)
  refine ⟨s', res, h, fun hkeeps => ?_⟩
  obtain ⟨r, hr, hzero⟩ : ∃ r ∈ (epochLogged env).logs.rows, r.row.time = 0 := by
    rw [← List.mem_map, times_epochLogged]
    exact List.mem_cons_self
  have hkept := hkeeps.logs r hr (by omega)
  cases res with
  | error e => exact absurd h (sweepExpired_ne_error rfl rfl rfl rfl)
  | ok counts =>
    obtain ⟨hnone, -⟩ | ⟨now, hnow, -, hclean⟩ := sweepExpired_cases h
    · cases hnone
    · obtain rfl := Option.some.inj hnow
      rw [(hclean counts rfl).logs.rows_eq, List.mem_filter, decide_eq_true_eq, hzero, sweepCutoff_eq] at hkept
      unfold i64Max at hkept
      omega

lemma keepsYounger_iff : KeepsYounger env toLowercase raw ↔ FitsSeconds toLowercase raw := by
  constructor
  · intro hkeeps n u hwrites hlt
    by_contra hlarge
    have hpos : 0 < n := by
      rw [Nat.pos_iff_ne_zero]
      rintro rfl
      rw [Nat.zero_mul] at hlarge
      exact hlarge (by decide)
    have hseconds : (UInt64.ofNat (n * u.seconds)).toNat = n * u.seconds % 2 ^ 64 := UInt64.toNat_ofNat'
    have hok : parseRetention env.charTables toLowercase raw = .ok (.ofNat (n * u.seconds)) :=
      parseRetention_eq_ok.mpr ⟨n, u, hwrites, hpos, hlt, hseconds⟩
    have hshort : asNanos (.ofNat (n * u.seconds)) < n * u.seconds * 10 ^ 9 := by
      have hbound := UInt64.toNat_lt (.ofNat (n * u.seconds))
      unfold asNanos
      omega
    obtain ⟨s', res, hsweep, hnot⟩ := not_keeps_of_short env hshort
    exact hnot (hkeeps _ n u hok hwrites _ (reachable_epochLogged env) { nowNanos := none } _ res s' hsweep)
  · intro hfits seconds n u hok hwrites s hs run now res s' hsweep
    obtain ⟨m, v, hwrites', -, hlt, hseconds⟩ := parseRetention_eq_ok.mp hok
    obtain ⟨rfl, rfl⟩ := hwrites.unique hwrites'
    rw [Nat.mod_eq_of_lt (hfits n u hwrites hlt)] at hseconds
    have hkeeps := keeps_of_sweepExpired hs hsweep
    rwa [asNanos, hseconds] at hkeeps

end Reading

/-- A retention is read as the duration it says, and its sweeps keep what is younger, exactly where the
seconds of a number that is read fit in 64 bits. -/
theorem retention_read_iff (env : Externals) (toLowercase : List Char → List Char) (raw : String) :
    (ReadsAsWritten env.charTables toLowercase raw ↔ FitsSeconds toLowercase raw) ∧
    (KeepsYounger env toLowercase raw ↔ FitsSeconds toLowercase raw) :=
  ⟨readsAsWritten_iff, keepsYounger_iff⟩

/-- Read modulo `2 ^ 64`, this number of hours is a retention of zero. -/
theorem retention_wraps_to_zero :
    ¬ ((∀ raw, ReadsAsWritten Externals.inert.charTables (List.map Char.toLower) raw) ∧
      ∀ raw, KeepsYounger .inert (List.map Char.toLower) raw) ∧
    parseRetention Externals.inert.charTables (List.map Char.toLower) "1152921504606846976h" = .ok 0 ∧
    Writes (retentionText (List.map Char.toLower) "1152921504606846976h") (2 ^ 60) .hour := by
  have hparse : parseRetention Externals.inert.charTables (List.map Char.toLower) "1152921504606846976h" = .ok 0 := by
    decide
  refine ⟨?_, hparse, writes_iff.mpr (by decide)⟩
  rintro ⟨hreads, -⟩
  obtain ⟨n, u, -, -, hne⟩ := hreads _ 0 hparse
  exact hne rfl

/-- The loop is started with both settings as they are read, or not at all where there is no
retention. -/
theorem retentionSetup_eq_ok {tables : CharTables} {toLowercase : List Char → List Char} {retention : Option String}
    {sweepInterval : String} {started : Option (UInt64 × UInt64)}
    (h : retentionSetup tables toLowercase retention sweepInterval = .ok started) :
    (started = none ∧ ∀ raw ∈ retention, (trim raw.toList).isEmpty) ∨
    ∃ raw seconds every, retention = some raw ∧ started = some (seconds, every) ∧
      parseRetention tables toLowercase raw = .ok seconds ∧
      parseRetention tables toLowercase sweepInterval = .ok every := by
  unfold retentionSetup at h
  cases hfilter : retention.filter (fun raw => !(trim raw.toList).isEmpty) with
  | none =>
    rw [hfilter] at h
    cases h
    refine .inl ⟨rfl, fun raw hraw => ?_⟩
    have hblank := Option.filter_eq_none_iff.mp hfilter raw hraw
    simpa using hblank
  | some raw =>
    rw [hfilter] at h
    obtain ⟨seconds, hseconds, h⟩ := bind_eq_ok.mp h
    obtain ⟨every, hevery, h⟩ := bind_eq_ok.mp h
    cases h
    exact .inr ⟨raw, seconds, every, (Option.filter_eq_some_iff.mp hfilter).1, rfl, mapError_eq_ok.mp hseconds,
      mapError_eq_ok.mp hevery⟩

end OtelviewPostgres
