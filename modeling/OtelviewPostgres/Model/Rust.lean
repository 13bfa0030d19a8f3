import Mathlib

/-!
# Numbers, bytes and errors

The fixed-width arithmetic, the text rendering and the error values the storage code
takes from Rust and from its error library. A `BIGINT` or `i64` value is an `Int`
whose range the conversions enforce.
-/

namespace OtelviewPostgres

abbrev Bytes := List UInt8

def i64Min : Int := -2 ^ 63

def i64Max : Int := 2 ^ 63 - 1

/-- An `f64`, by its bits. -/
structure F64 where
  bits : UInt64
deriving DecidableEq

namespace F64

/-- Neither an infinity nor a NaN: the exponent bits are not all ones. -/
def isFinite (f : F64) : Bool := (f.bits >>> 52) &&& 0x7ff != 0x7ff

def zero : F64 := ⟨0⟩

/-- The 53-bit significand and the exponent of the double nearest to `n`, ties to even. -/
def roundNat (n : ℕ) : ℕ × ℕ :=
  let e := n.log2
  if e ≤ 52 then (n <<< (52 - e), e)
  else
    let shift := e - 52
    let m := n >>> shift
    let rest := n - (m <<< shift)
    let half := 1 <<< (shift - 1)
    let m' := if half < rest ∨ (half = rest ∧ m % 2 = 1) then m + 1 else m
    if m' = 2 ^ 53 then (2 ^ 52, e + 1) else (m', e)

/-- `i as f64`. -/
def ofInt64 (i : Int64) : F64 :=
  let n := i.toInt.natAbs
  if n = 0 then zero
  else
    let (m, e) := roundNat n
    let sign := if i.toInt < 0 then 2 ^ 63 else 0
    ⟨.ofNat (sign + (1023 + e) * 2 ^ 52 + (m - 2 ^ 52))⟩

end F64

inductive Error where
  /-- An error the storage code raises itself. -/
  | message (text : String)
  /-- An error raised by the database driver, with the driver's own text. -/
  | database (text : String)
  /-- An error wrapped in a context. -/
  | context (text : String) (cause : Error)
deriving DecidableEq

/-- The outermost text of an error chain. -/
def Error.display : Error → String
  | message text => text
  | database text => text
  | context text _ => text

inductive Panic where
  /-- A slice of text that splits a character or goes beyond the end. -/
  | charBoundary
deriving DecidableEq

/-- How a call ends that does not return a value. -/
inductive Failure (ε : Type) where
  | error (e : ε)
  | panic (p : Panic)
deriving DecidableEq

def Failure.map {ε ε' : Type} (f : ε → ε') : Failure ε → Failure ε'
  | error e => error (f e)
  | panic p => panic p

def saturatingSub (a b : Int) : Int := max i64Min (min i64Max (a - b))

def checkedI64 (v : Int) : Option Int := if i64Min ≤ v ∧ v ≤ i64Max then some v else none

def u64ToI64 (value : UInt64) (name : String) : Except Error Int :=
  if (value.toNat : Int) ≤ i64Max then .ok value.toNat
  else .error (.message (name ++ " exceeds PostgreSQL BIGINT"))

lemma u64ToI64_of_lt {value : UInt64} (name : String) (h : value.toNat < 2 ^ 63) :
    u64ToI64 value name = .ok value.toNat := by
  have hle : (value.toNat : Int) ≤ i64Max := by
    unfold i64Max
    omega
  rw [u64ToI64, if_pos hle]

lemma u64ToI64_eq_ok {value : UInt64} {name : String} {n : Int} (h : u64ToI64 value name = .ok n) :
    n = value.toNat ∧ value.toNat < 2 ^ 63 := by
  unfold u64ToI64 i64Max at h
  split at h
  · injection h with h
    omega
  · cases h

lemma saturatingSub_eq {a b : Int} (h1 : i64Min ≤ a - b) (h2 : a - b ≤ i64Max) :
    saturatingSub a b = a - b := by
  unfold saturatingSub
  omega

def hexByte (b : UInt8) : String :=
  String.ofList [Nat.digitChar (b.toNat / 16), Nat.digitChar (b.toNat % 16)]

def hex (bytes : Bytes) : String := String.join (bytes.map hexByte)

/-- A statement on the characters below a bound is checked on their numbers. -/
lemma forall_char_lt {P : Char → Prop} (bound : ℕ) (h : ∀ n < bound, P (Char.ofNat n)) (c : Char)
    (hc : c.toNat < bound) : P c := by
  have hP := h c.toNat hc
  rwa [Char.ofNat_toNat] at hP

/-- Only ASCII letters have a lower case here. -/
lemma toLower_of_not_ascii {c : Char} (h : ¬ c.toNat < 128) : c.toLower = c := by
  unfold Char.toLower
  split
  next hupper =>
    have hle := UInt32.le_iff_toNat_le.mp hupper.2
    exact absurd (Nat.lt_of_le_of_lt hle (by decide)) h
  next => rfl

/-- What the Unicode tables of the standard library say of the characters above ASCII. -/
structure CharTables where
  isGraphemeExtended : Char → Bool
  isPrintable : Char → Bool

/-- `\u{..}` with the code point in hexadecimal digits. -/
def unicodeEscape (c : Char) : List Char := ['\\', 'u', '\x7b'] ++ Nat.toDigits 16 c.toNat ++ ['\x7d']

/-- One character of a `{:?}` rendering. -/
def debugChar (tables : CharTables) (c : Char) : List Char :=
  if c = '\\' then ['\\', '\\']
  else if c = '"' then ['\\', '"']
  else if c = '\t' then ['\\', 't']
  else if c = '\r' then ['\\', 'r']
  else if c = '\n' then ['\\', 'n']
  else if c.toNat = 0 then ['\\', '0']
  else if c.toNat < 128 then
    if c.toNat < 32 ∨ c.toNat = 127 then unicodeEscape c else [c]
  else if tables.isGraphemeExtended c || !tables.isPrintable c then unicodeEscape c
  else [c]

def debugString (tables : CharTables) (s : String) : String :=
  String.ofList (['"'] ++ s.toList.flatMap (debugChar tables) ++ ['"'])

/-- Drop `n` bytes of UTF-8, unless that splits a character. -/
def dropBytes : ℕ → List Char → Option (List Char)
  | 0, s => some s
  | _ + 1, [] => none
  | n + 1, c :: s => if c.utf8Size ≤ n + 1 then dropBytes (n + 1 - c.utf8Size) s else none

/-- Take `n` bytes of UTF-8, unless that splits a character. -/
def takeBytes : ℕ → List Char → Option (List Char)
  | 0, _ => some []
  | _ + 1, [] => none
  | n + 1, c :: s => if c.utf8Size ≤ n + 1 then (takeBytes (n + 1 - c.utf8Size) s).map (c :: ·) else none

/-- `&s[i..j]` -/
def strSlice (s : String) (i j : ℕ) : Except Panic (List Char) :=
  match (dropBytes i s.toList).bind (takeBytes (j - i)) with
  | some slice => .ok slice
  | none => .error .charBoundary

/-- `to_digit(16)` -/
def hexDigitValue (c : Char) : Option ℕ :=
  if '0' ≤ c ∧ c ≤ '9' then some (c.toNat - '0'.toNat)
  else if 'a' ≤ c ∧ c ≤ 'f' then some (c.toNat - 'a'.toNat + 10)
  else if 'A' ≤ c ∧ c ≤ 'F' then some (c.toNat - 'A'.toNat + 10)
  else none

/-- `u8::from_str_radix(s, 16)`, which allows a plus sign. -/
def parseHexU8 (s : List Char) : Option UInt8 :=
  let digits := match s with
    | '+' :: rest => rest
    | _ => s
  if digits.isEmpty then none
  else (digits.foldlM (fun value c => do
    let digit ← hexDigitValue c
    if value * 16 + digit < 256 then some (value * 16 + digit) else none) 0).map UInt8.ofNat

def hexDecode (hex : String) : Except Panic (Option Bytes) :=
  if hex.utf8ByteSize % 2 ≠ 0 then .ok none
  else
    OptionT.run ((List.range (hex.utf8ByteSize / 2)).mapM fun i =>
      OptionT.mk (do return parseHexU8 (← strSlice hex (2 * i) (2 * i + 2))))

structure Timestamp where
  seconds : Int64
  nanos : Int32
deriving DecidableEq

structure Duration where
  seconds : Int64
  nanos : Int32
deriving DecidableEq

/-- `seconds * 10^9 + nanos` with a check after each operation. -/
def checkedNanos (seconds : Int64) (nanos : Int32) : Option Int :=
  (checkedI64 (seconds.toInt * 1000000000)).bind fun v => checkedI64 (v + nanos.toInt)

def timestampToNanos (ts : Timestamp) : Except Error Int :=
  match checkedNanos ts.seconds ts.nanos with
  | some v => .ok v
  | none => .error (.message "timestamp is outside nanosecond range")

def durationToNanos (d : Duration) : Except Error Int :=
  match checkedNanos d.seconds d.nanos with
  | some v => .ok v
  | none => .error (.message "duration is outside nanosecond range")

/-- A present but zero duration bound means that there is none. -/
def durationBound (d : Option Duration) : Except Error (Option Int) :=
  match d with
  | none => .ok none
  | some d => do
    let nanos ← durationToNanos d
    return if nanos = 0 then none else some nanos

def nanosToTimestamp (value : Int) : Timestamp where
  seconds := .ofInt (value / 1000000000)
  nanos := .ofInt (value % 1000000000)

end OtelviewPostgres
