import AdPipeline.Platform.Text

/-!
# Instants as `java.time` sees them

An `Instant` is a number of nanoseconds since the epoch. The two text formats the services read,
`OffsetDateTime.parse` and `Instant.parse`, are transcribed with the strictness each has on the
JVM, and `Instant.toString` and the `yyyyMMdd-HH` pattern are what they print.
-/

namespace AdPipeline

/-- `java.time.Instant`. -/
structure Instant where
  nanos : ℤ
deriving DecidableEq, Repr

namespace Instant

/-- `Instant.ofEpochMilli`. -/
def ofEpochMilli (ms : ℤ) : Instant := ⟨ms * 1000000⟩

/-- Whole milliseconds since the epoch, rounded towards the past. -/
def toEpochMilli (t : Instant) : ℤ := t.nanos / 1000000

/-- `epochSecond`. -/
def epochSecond (t : Instant) : ℤ := t.nanos / 1000000000

/-- `truncatedTo(ChronoUnit.MILLIS)`. -/
def truncatedToMillis (t : Instant) : Instant := ofEpochMilli t.toEpochMilli

/-- `plusSeconds`. -/
def plusSeconds (t : Instant) (n : ℤ) : Instant := ⟨t.nanos + n * 1000000000⟩

/-- `isAfter`. -/
def isAfter (t u : Instant) : Bool := u.nanos < t.nanos

@[simp] theorem toEpochMilli_ofEpochMilli (ms : ℤ) : (ofEpochMilli ms).toEpochMilli = ms := by
  unfold ofEpochMilli toEpochMilli
  simp only
  omega

theorem toEpochMilli_mono {t u : Instant} (h : t.nanos ≤ u.nanos) :
    t.toEpochMilli ≤ u.toEpochMilli := by
  unfold toEpochMilli
  omega

theorem toEpochMilli_plusSeconds (t : Instant) (n : ℤ) :
    (t.plusSeconds n).toEpochMilli = t.toEpochMilli + n * 1000 := by
  unfold plusSeconds toEpochMilli
  simp only
  omega

end Instant

namespace Time

/-! ## The proleptic Gregorian calendar -/

/-- The day number of a date, counted from 1970-01-01. -/
def epochDay (y m d : ℤ) : ℤ :=
  let y' := if m ≤ 2 then y - 1 else y
  let era := y' / 400
  let yoe := y' - era * 400
  let doy := (153 * ((m + 9) % 12) + 2) / 5 + d - 1
  era * 146097 + (yoe * 365 + yoe / 4 - yoe / 100 + doy) - 719468

/-- The year, month and day of a day number. -/
def civil (day : ℤ) : ℤ × ℕ × ℕ :=
  let z := day + 719468
  let era := z / 146097
  let doe := z - era * 146097
  let yoe := (doe - doe / 1460 + doe / 36524 - doe / 146096) / 365
  let doy := doe - (365 * yoe + yoe / 4 - yoe / 100)
  let mp := (5 * doy + 2) / 153
  let m := if mp < 10 then mp + 3 else mp - 9
  (yoe + era * 400 + (if m ≤ 2 then 1 else 0), m.toNat, (doy - (153 * mp + 2) / 5 + 1).toNat)

def isLeapYear (y : ℤ) : Bool := y % 4 == 0 && (y % 100 != 0 || y % 400 == 0)

def lengthOfMonth (y : ℤ) (m : ℕ) : ℕ :=
  if m = 2 then (if isLeapYear y then 29 else 28)
  else if m = 4 ∨ m = 6 ∨ m = 9 ∨ m = 11 then 30 else 31

def validDate (y : ℤ) (m d : ℕ) : Bool := 1 ≤ m && m ≤ 12 && 1 ≤ d && d ≤ lengthOfMonth y m

/-! ## Reading -/

/-- A parser returns its value and the text behind it. -/
abbrev Parser (α : Type) := List Char → Option (α × List Char)

def isDigit (c : Char) : Bool := '0' ≤ c && c ≤ '9'

/-- At most `n` digits: their value, their number and the text behind them. -/
def takeDigits (n : ℕ) (acc k : ℕ) (cs : List Char) : ℕ × ℕ × List Char :=
  match n, cs with
  | n + 1, c :: cs' =>
    if isDigit c then takeDigits n (10 * acc + (c.toNat - 48)) (k + 1) cs' else (acc, k, cs)
  | _, _ => (acc, k, cs)

/-- Exactly two digits. -/
def twoDigits : Parser ℕ := fun cs =>
  match takeDigits 2 0 0 cs with
  | (v, 2, rest) => some (v, rest)
  | _ => none

/-- A character of a set. -/
def literal (accepted : List Char) : Parser Unit
  | c :: cs => if c ∈ accepted then some ((), cs) else none
  | [] => none

/-- `appendValue(YEAR, 4, 10, SignStyle.EXCEEDS_PAD)`, strict: a `+` exactly from five digits on,
no minus zero. -/
def year : Parser ℤ := fun cs =>
  match cs with
  | '-' :: cs =>
    let (v, k, rest) := takeDigits 10 0 0 cs
    if k < 4 ∨ v = 0 then none else some (-v, rest)
  | '+' :: cs =>
    let (v, k, rest) := takeDigits 10 0 0 cs
    if k ≤ 4 then none else some (v, rest)
  | cs =>
    let (v, k, rest) := takeDigits 10 0 0 cs
    if k ≠ 4 then none else some (v, rest)

/-- `ISO_LOCAL_DATE`, its fields not yet checked against the calendar. -/
def localDate : Parser (ℤ × ℕ × ℕ) := fun cs => do
  let (y, cs) ← year cs
  let (_, cs) ← literal ['-'] cs
  let (m, cs) ← twoDigits cs
  let (_, cs) ← literal ['-'] cs
  let (d, cs) ← twoDigits cs
  return ((y, m, d), cs)

/-- `appendFraction(NANO_OF_SECOND, 0, 9, true)`. -/
def fraction : List Char → ℕ × List Char
  | '.' :: cs =>
    let (v, k, rest) := takeDigits 9 0 0 cs
    (v * 10 ^ (9 - k), rest)
  | cs => (0, cs)

/-- The optional seconds of `ISO_LOCAL_TIME`, with their optional fraction. -/
def optionalSeconds (cs : List Char) : (ℕ × ℕ) × List Char :=
  match (literal [':'] cs).bind fun x => twoDigits x.2 with
  | some (s, rest) => ((s, (fraction rest).1), (fraction rest).2)
  | none => ((0, 0), cs)

/-- Two digits of an offset, behind a colon unless they are the hour. -/
def offsetDigits (colon : Bool) : Parser ℕ := fun cs => do
  let (_, cs) ← if colon then literal [':'] cs else some ((), cs)
  let (v, cs) ← twoDigits cs
  if v ≤ 59 then some (v, cs) else none

/-- `appendOffsetId()`, in seconds. Only the strict form insists on the minutes. -/
def offsetId (strict : Bool) : Parser ℤ := fun cs =>
  match cs with
  | [] => none
  | c :: cs =>
    if c = 'Z' ∨ c = 'z' then some (0, cs)
    else if c = '+' ∨ c = '-' then do
      let (h, cs) ← offsetDigits false cs
      let ((m, s), cs) ←
        match offsetDigits true cs with
        | some (m, cs) =>
          match offsetDigits true cs with
          | some (s, cs) => some ((m, s), cs)
          | none => some ((m, 0), cs)
        | none => if strict then none else some ((0, 0), cs)
      let secs : ℤ := h * 3600 + m * 60 + s
      if h ≤ 23 ∧ secs ≤ 64800 then some (if c = '-' then -secs else secs, cs) else none
    else none

/-- The instant of a date, a time of day and an offset in seconds. -/
def instantOf (y : ℤ) (m d h mi s : ℕ) (nanos : ℕ) (offset : ℤ) : Instant :=
  ⟨(epochDay y m d * 86400 + h * 3600 + mi * 60 + s - offset) * 1000000000 + nanos⟩

/-- `OffsetDateTime.parse(raw).toInstant()`. -/
def parseOffsetDateTime (raw : String) : Option Instant := do
  let ((y, m, d), cs) ← localDate raw.toList
  let (_, cs) ← literal ['T', 't'] cs
  let (h, cs) ← twoDigits cs
  let (_, cs) ← literal [':'] cs
  let (mi, cs) ← twoDigits cs
  let ((s, nanos), cs) := optionalSeconds cs
  let (offset, cs) ← offsetId false cs
  if cs = [] ∧ validDate y m d = true ∧ y.natAbs ≤ 999999999 ∧ h ≤ 23 ∧ mi ≤ 59 ∧ s ≤ 59 then
    some (instantOf y m d h mi s nanos offset)
  else none

/-- The seconds an `Instant` can hold. -/
def inRange (t : Instant) : Bool :=
  -31557014167219200 ≤ t.epochSecond && t.epochSecond ≤ 31556889864403199

/-- `Instant.parse(raw)`: seconds and offset minutes are required, midnight may be written 24:00:00
and a leap second 23:59:60. -/
def parseInstant (raw : String) : Option Instant := do
  let ((y, m, d), cs) ← localDate raw.toList
  let (_, cs) ← literal ['T', 't'] cs
  let (h, cs) ← twoDigits cs
  let (_, cs) ← literal [':'] cs
  let (mi, cs) ← twoDigits cs
  let (_, cs) ← literal [':'] cs
  let (s, cs) ← twoDigits cs
  let (nanos, cs) := fraction cs
  let (offset, cs) ← offsetId true cs
  let midnight := h = 24 ∧ mi = 0 ∧ s = 0 ∧ nanos = 0
  let leapSecond := h = 23 ∧ mi = 59 ∧ s = 60
  if cs = [] ∧ validDate y m d = true ∧ mi ≤ 59 ∧ (h ≤ 23 ∨ midnight) ∧ (s ≤ 59 ∨ leapSecond) then
    let t := instantOf y m d h mi (min s 59) nanos offset
    if inRange t then some t else none
  else none

/-! ## Printing -/

/-- A number with leading zeros up to a width. -/
def pad (width n : ℕ) : String :=
  let ds := (Nat.toDigits 10 n)
  String.ofList (List.replicate (width - ds.length) '0' ++ ds)

/-- The date, hour, minute and second of an instant in UTC. -/
def utcFields (t : Instant) : (ℤ × ℕ × ℕ) × ℕ × ℕ × ℕ :=
  let sec := (t.epochSecond % 86400).toNat
  (civil (t.epochSecond / 86400), sec / 3600, sec / 60 % 60, sec % 60)

/-- The year of `ISO_LOCAL_DATE`. -/
def yearText (y : ℤ) : String :=
  if y < 0 then "-" ++ pad 4 y.natAbs
  else if 9999 < y then "+" ++ pad 4 y.natAbs
  else pad 4 y.natAbs

/-- The fraction of a second in as few groups of three digits as it needs. -/
def fractionText (nanos : ℕ) : String :=
  if nanos = 0 then ""
  else if nanos % 1000000 = 0 then "." ++ pad 3 (nanos / 1000000)
  else if nanos % 1000 = 0 then "." ++ pad 6 (nanos / 1000)
  else "." ++ pad 9 nanos

/-- `Instant.toString()`. -/
def toText (t : Instant) : String :=
  let ((y, m, d), h, mi, s) := utcFields t
  yearText y ++ "-" ++ pad 2 m ++ "-" ++ pad 2 d ++ "T" ++ pad 2 h ++ ":" ++ pad 2 mi ++ ":" ++
    pad 2 s ++ fractionText (t.nanos % 1000000000).toNat ++ "Z"

/-- The pattern `yyyyMMdd-HH` in UTC. -/
def hourText (t : Instant) : String :=
  let ((y, m, d), h, _, _) := utcFields t
  pad 4 y.natAbs ++ pad 2 m ++ pad 2 d ++ "-" ++ pad 2 h

end Time

end AdPipeline
