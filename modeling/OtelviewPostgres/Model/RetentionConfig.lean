import OtelviewPostgres.Model.Retention

/-!
# Reading a retention

`parse_retention` and what `main` makes of the two settings that are read by it. A duration is a
number of whole seconds, and the arithmetic on it is that of a release build. The lower case of a
text and the tables that its `{:?}` rendering goes by are parameters.
-/

namespace OtelviewPostgres

/-- The Unicode property `White_Space`. -/
def isWhitespace (c : Char) : Bool :=
  (9 ≤ c.toNat && c.toNat ≤ 13) || c.toNat == 0x20 || c.toNat == 0x85 || c.toNat == 0xa0 || c.toNat == 0x1680 ||
    (0x2000 ≤ c.toNat && c.toNat ≤ 0x200a) || c.toNat == 0x2028 || c.toNat == 0x2029 || c.toNat == 0x202f ||
    c.toNat == 0x205f || c.toNat == 0x3000

/-- `str::trim` -/
def trim (s : List Char) : List Char := (s.dropWhile isWhitespace).rdropWhile isWhitespace

/-- `str::trim_end_matches` of one character. -/
def trimEndMatches (c : Char) (s : List Char) : List Char := s.rdropWhile fun d => d = c

/-- `str::parse::<u64>` of ASCII digits. -/
def parseU64 (digits : List Char) : Except String UInt64 :=
  if digits.isEmpty then .error "cannot parse integer from empty string"
  else
    match digits.foldlM (fun value c =>
      if value * 10 + (c.toNat - '0'.toNat) < 2 ^ 64 then some (value * 10 + (c.toNat - '0'.toNat)) else none) 0 with
    | some n => .ok (.ofNat n)
    | none => .error "number too large to fit in target type"

/-- The hours of a number of units. -/
def retentionHours (tables : CharTables) (n : UInt64) (unit : String) : Except Error UInt64 :=
  if unit = "h" ∨ unit = "hour" then .ok n
  else if unit = "d" ∨ unit = "day" then .ok (n * 24)
  else if unit = "w" ∨ unit = "week" then .ok (n * 24 * 7)
  else if unit = "m" ∨ unit = "mo" ∨ unit = "month" then .ok (n * 24 * 30)
  else .error (.message ("retention unit " ++ debugString tables unit ++ " not understood (h, d, w, m/mo)"))

section Parse

variable (tables : CharTables) (toLowercase : List Char → List Char)

/-- The text that is read: trimmed, in lower case and without spaces. -/
def retentionText (raw : String) : List Char := (toLowercase (trim raw.toList)).filter fun c => c ≠ ' '

/-- The seconds a retention stands for. -/
def parseRetention (raw : String) : Except Error UInt64 := do
  let s := retentionText toLowercase raw
  let digits := s.takeWhile Char.isDigit
  let unit := s.dropWhile Char.isDigit
  if unit.isEmpty then
    throw (.message ("retention " ++ debugString tables raw ++ " has no unit (try 7d, 2w, 1mo)"))
  let n ← (parseU64 digits).mapError fun cause =>
    .context ("retention " ++ debugString tables raw ++ " has no number (try 7d, 2w, 1mo)") (.message cause)
  if n = 0 then
    throw (.message ("retention " ++ debugString tables raw ++ " is zero, which would delete everything on arrival"))
  let hours ← retentionHours tables n (.ofList (trimEndMatches 's' unit))
  return hours * 3600

/-- What the retention loop is started with, where it is. -/
def retentionSetup (retention : Option String) (sweepInterval : String) : Except Error (Option (UInt64 × UInt64)) :=
  match retention.filter fun raw => !(trim raw.toList).isEmpty with
  | none => .ok none
  | some raw => do
    let retention ← (parseRetention tables toLowercase raw).mapError (.context "parse RETENTION")
    let every ← (parseRetention tables toLowercase sweepInterval).mapError (.context "parse RETENTION_SWEEP_INTERVAL")
    return some (retention, every)

end Parse

/-- `Duration::as_nanos` -/
def asNanos (seconds : UInt64) : ℕ := seconds.toNat * 1000000000

end OtelviewPostgres
