import OtelviewPostgres.Model.Rust

/-!
# Timestamps as nanoseconds

`timestamp_to_nanos` checks the seconds in nanoseconds before it adds the nanoseconds, and
`nanos_to_timestamp` rounds the seconds down. A time whose whole seconds lie below the `i64` range
is therefore refused although it is itself in range, and so the least values do not come back.
-/

namespace OtelviewPostgres

def FitsI64 (v : Int) : Prop := i64Min ≤ v ∧ v ≤ i64Max

instance FitsI64.decidable (v : Int) : Decidable (FitsI64 v) :=
  inferInstanceAs (Decidable (i64Min ≤ v ∧ v ≤ i64Max))

/-- The time a timestamp names, as an unbounded integer. -/
def Timestamp.exactNanos (ts : Timestamp) : Int := ts.seconds.toInt * 10 ^ 9 + ts.nanos.toInt

/-- The conversion succeeds exactly in range, and then with the time itself. -/
def Timestamp.ReadsExactly (ts : Timestamp) : Prop :=
  ∀ n, timestampToNanos ts = .ok n ↔ n = ts.exactNanos ∧ FitsI64 ts.exactNanos

/-- A stored time comes back through a well-formed timestamp. -/
def NanosRoundTrip (v : Int64) : Prop :=
  0 ≤ (nanosToTimestamp v.toInt).nanos.toInt ∧ (nanosToTimestamp v.toInt).nanos.toInt < 10 ^ 9 ∧
    timestampToNanos (nanosToTimestamp v.toInt) = .ok v.toInt

section Conversion

lemma checkedI64_eq_some {v n : Int} : checkedI64 v = some n ↔ n = v ∧ FitsI64 v := by
  unfold checkedI64 FitsI64
  split
  next h => simp [h, eq_comm]
  next h => simp [h]

lemma checkedNanos_eq_some {seconds : Int64} {nanos : Int32} {n : Int} :
    checkedNanos seconds nanos = some n ↔
      FitsI64 (seconds.toInt * 10 ^ 9) ∧ n = seconds.toInt * 10 ^ 9 + nanos.toInt ∧ FitsI64 n := by
  unfold checkedNanos
  rw [Option.bind_eq_some_iff]
  constructor
  · rintro ⟨v, hv, hn⟩
    obtain ⟨rfl, hmul⟩ := checkedI64_eq_some.mp hv
    obtain ⟨rfl, hsum⟩ := checkedI64_eq_some.mp hn
    exact ⟨hmul, rfl, hsum⟩
  · rintro ⟨hmul, rfl, hsum⟩
    exact ⟨_, checkedI64_eq_some.mpr ⟨rfl, hmul⟩, checkedI64_eq_some.mpr ⟨rfl, hsum⟩⟩

lemma timestampToNanos_eq_ok {ts : Timestamp} {n : Int} :
    timestampToNanos ts = .ok n ↔ checkedNanos ts.seconds ts.nanos = some n := by
  unfold timestampToNanos
  split
  next v hv => simp [hv]
  next hv => simp [hv]

/-- The product stays in range for the seconds of the years 1677 to 2262. -/
lemma fitsI64_mul {s : Int} : FitsI64 (s * 10 ^ 9) ↔ -9223372036 ≤ s ∧ s ≤ 9223372036 := by
  unfold FitsI64 i64Min i64Max
  omega

lemma readsExactly_iff (ts : Timestamp) :
    ts.ReadsExactly ↔
      (FitsI64 ts.exactNanos → -9223372036 ≤ ts.seconds.toInt ∧ ts.seconds.toInt ≤ 9223372036) := by
  rw [← fitsI64_mul]
  constructor
  · intro h hfits
    have hok : timestampToNanos ts = .ok ts.exactNanos := (h _).mpr ⟨rfl, hfits⟩
    exact (checkedNanos_eq_some.mp (timestampToNanos_eq_ok.mp hok)).1
  · intro h n
    rw [timestampToNanos_eq_ok, checkedNanos_eq_some]
    constructor
    · rintro ⟨-, rfl, hfits⟩
      exact ⟨rfl, hfits⟩
    · rintro ⟨rfl, hfits⟩
      exact ⟨h hfits, rfl, hfits⟩

end Conversion

section RoundTrip

variable (v : Int64)

lemma nanos_nanosToTimestamp : (nanosToTimestamp v.toInt).nanos.toInt = v.toInt % 10 ^ 9 := by
  have hpos : 0 ≤ v.toInt % 1000000000 := Int.emod_nonneg _ (by decide)
  have hlt : v.toInt % 1000000000 < 1000000000 := Int.emod_lt_of_pos _ (by decide)
  unfold nanosToTimestamp
  rw [Int32.toInt_ofInt_of_le (by omega) (by omega)]
  rfl

lemma seconds_nanosToTimestamp : (nanosToTimestamp v.toInt).seconds.toInt = v.toInt / 10 ^ 9 := by
  have hlow := v.le_toInt
  have hhigh := v.toInt_lt
  unfold nanosToTimestamp
  rw [Int64.toInt_ofInt_of_le (by omega) (by omega)]
  rfl

/-- Rounding the seconds down loses nothing. -/
lemma exactNanos_nanosToTimestamp : (nanosToTimestamp v.toInt).exactNanos = v.toInt := by
  unfold Timestamp.exactNanos
  rw [nanos_nanosToTimestamp, seconds_nanosToTimestamp]
  exact Int.ediv_mul_add_emod v.toInt (10 ^ 9)

lemma fitsI64_toInt : FitsI64 v.toInt := by
  have hlow := v.le_toInt
  have hhigh := v.toInt_lt
  unfold FitsI64 i64Min i64Max
  omega

lemma nanosRoundTrip_iff : NanosRoundTrip v ↔ -9223372036 * 10 ^ 9 ≤ v.toInt := by
  have hnanos := nanos_nanosToTimestamp v
  have hpos : 0 ≤ v.toInt % 10 ^ 9 := Int.emod_nonneg _ (by decide)
  have hlt : v.toInt % 10 ^ 9 < 10 ^ 9 := Int.emod_lt_of_pos _ (by decide)
  have hexact := exactNanos_nanosToTimestamp v
  unfold Timestamp.exactNanos at hexact
  have hhigh := v.toInt_lt
  unfold NanosRoundTrip
  rw [timestampToNanos_eq_ok, checkedNanos_eq_some, fitsI64_mul, hexact, seconds_nanosToTimestamp, hnanos]
  constructor
  · rintro ⟨-, -, ⟨hseconds, -⟩, -⟩
    omega
  · intro hv
    exact ⟨hpos, hlt, ⟨by omega, by omega⟩, rfl, fitsI64_toInt v⟩

end RoundTrip

/-- Conversions are exact but at the ends of the range: where the seconds alone leave it and the
nanoseconds bring the time back, and below the least whole second. -/
theorem timestamps_exact_iff (ts : Timestamp) (v : Int64) :
    (ts.ReadsExactly ↔
      (FitsI64 ts.exactNanos → -9223372036 ≤ ts.seconds.toInt ∧ ts.seconds.toInt ≤ 9223372036)) ∧
    (NanosRoundTrip v ↔ -9223372036 * 10 ^ 9 ≤ v.toInt) :=
  ⟨readsExactly_iff ts, nanosRoundTrip_iff v⟩

/-- The least time: its timestamp is `-9223372037` seconds and `145224192` nanoseconds, which
names the time exactly and is refused. -/
theorem least_time_refused :
    ¬ ((∀ ts : Timestamp, ts.ReadsExactly) ∧ ∀ v : Int64, NanosRoundTrip v) ∧
    nanosToTimestamp i64Min = ⟨-9223372037, 145224192⟩ ∧
    (nanosToTimestamp i64Min).exactNanos = i64Min ∧
    timestampToNanos (nanosToTimestamp i64Min) = .error (.message "timestamp is outside nanosecond range") := by
  have hrefused : timestampToNanos (nanosToTimestamp i64Min) =
      .error (.message "timestamp is outside nanosecond range") := by decide
  refine ⟨?_, by decide, by decide, hrefused⟩
  rintro ⟨-, h⟩
  have hback := (h Int64.minValue).2.2
  rw [show Int64.minValue.toInt = i64Min from by decide] at hback
  rw [hback] at hrefused
  cases hrefused

end OtelviewPostgres
