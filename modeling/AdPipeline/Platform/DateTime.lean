import AdPipeline.Platform.Time
import Mathlib.Data.Fin.Basic
import Mathlib.Data.Int.Order.Basic

/-!
# Dates and times of Python

`datetime.datetime`: a date, a time of day and the offset from UTC of an aware value. An operation
whose result would leave the years 1 to 9999 raises `OverflowError` and has no value here, as has
`fromisoformat` of a text that it does not read.
-/

namespace AdPipeline

/-- `datetime.datetime`. The date is a day number counted from 1970-01-01, within the years 1 to
9999, and the offset is in microseconds. -/
structure DateTime where
  day : ℤ
  hour : Fin 24
  minute : Fin 60
  second : Fin 60
  microsecond : Fin 1000000
  utcoffset : Option ℤ
  inRange : -719162 ≤ day ∧ day ≤ 2932896
deriving DecidableEq

namespace DateTime

/-- The microseconds of the date and time as they read, from 1970-01-01 00:00 on. -/
def wall (t : DateTime) : ℤ :=
  (((t.day * 24 + t.hour) * 60 + t.minute) * 60 + t.second) * 1000000 + t.microsecond

/-- The aware date and time in UTC that read so many microseconds. -/
def ofWall (n : ℤ) : Option DateTime :=
  if h : -719162 ≤ n / 86400000000 ∧ n / 86400000000 ≤ 2932896 then
    some
      { day := n / 86400000000
        hour := ⟨(n / 3600000000 % 24).toNat, by omega⟩
        minute := ⟨(n / 60000000 % 60).toNat, by omega⟩
        second := ⟨(n / 1000000 % 60).toNat, by omega⟩
        microsecond := ⟨(n % 1000000).toNat, by omega⟩
        utcoffset := some 0
        inRange := h }
  else none

/-- `astimezone(timezone.utc)` of an aware value, `replace(tzinfo=timezone.utc)` of a naive one. -/
def inUtc (t : DateTime) : Option DateTime :=
  match t.utcoffset with
  | none => some { t with utcoffset := some 0 }
  | some offset => ofWall (t.wall - offset)

/-- `replace(second=0, microsecond=0)`. -/
def cutToMinute (t : DateTime) : DateTime := { t with second := 0, microsecond := 0 }

/-- The microseconds of an aware value since the epoch. A naive value is taken as UTC. -/
def epochMicros (t : DateTime) : ℤ := t.wall - t.utcoffset.getD 0

/-- The milliseconds since the epoch. -/
def epochMillis (t : DateTime) : ℤ := t.epochMicros / 1000

theorem wall_ofWall {n : ℤ} {t : DateTime} (h : ofWall n = some t) :
    t.wall = n ∧ t.utcoffset = some 0 := by
  unfold ofWall at h
  split_ifs at h with hrange
  obtain rfl := Option.some.inj h
  refine ⟨?_, rfl⟩
  simp only [wall]
  omega

/-- The same instant, in UTC. -/
theorem inUtc_eq_some {t u : DateTime} (h : t.inUtc = some u) :
    u.wall = t.epochMicros ∧ u.utcoffset = some 0 := by
  unfold inUtc at h
  split at h
  · rename_i hnaive
    obtain rfl := Option.some.inj h
    rw [epochMicros, hnaive, Option.getD_none, Int.sub_zero]
    exact ⟨rfl, rfl⟩
  · rename_i offset haware
    obtain ⟨hwall, hutc⟩ := wall_ofWall h
    rw [epochMicros, haware, Option.getD_some]
    exact ⟨hwall, hutc⟩

/-- The instant is within the years 1 to 9999 in UTC too. -/
def InYears (t : DateTime) : Prop :=
  -719162 ≤ t.epochMicros / 86400000000 ∧ t.epochMicros / 86400000000 ≤ 2932896

instance (t : DateTime) : Decidable t.InYears := inferInstanceAs (Decidable (_ ∧ _))

/-- An aware value has a UTC value unless it overflows, a naive one always has. -/
theorem inUtc_isSome_iff (t : DateTime) : t.inUtc.isSome ↔ t.InYears := by
  unfold inUtc InYears epochMicros
  split
  · rename_i hnaive
    have hday := t.inRange
    have hhour := t.hour.isLt
    have hminute := t.minute.isLt
    have hsecond := t.second.isLt
    have hmicro := t.microsecond.isLt
    rw [hnaive, Option.getD_none]
    simp only [Option.isSome_some, true_iff, wall]
    omega
  · rename_i offset haware
    rw [haware, Option.getD_some, ofWall]
    split_ifs with hrange
    · exact iff_of_true rfl hrange
    · exact iff_of_false Bool.false_ne_true hrange

/-- Cutting to the minute takes off what has passed of it. -/
theorem wall_cutToMinute (t : DateTime) : t.cutToMinute.wall = t.wall - t.wall % 60000000 := by
  have hsecond := t.second.isLt
  have hmicro := t.microsecond.isLt
  simp only [cutToMinute, wall, Fin.val_zero]
  omega

/-! ## Reading -/

section Reading

open Time (Parser takeDigits twoDigits literal epochDay validDate)

/-- The date and time of its parts, where they are in range. -/
def ofParts (day : ℤ) (hour minute second microsecond : ℕ) (utcoffset : Option ℤ) :
    Option DateTime :=
  if h : (-719162 ≤ day ∧ day ≤ 2932896) ∧ hour < 24 ∧ minute < 60 ∧ second < 60 ∧
      microsecond < 1000000 then
    some ⟨day, ⟨hour, h.2.1⟩, ⟨minute, h.2.2.1⟩, ⟨second, h.2.2.2.1⟩, ⟨microsecond, h.2.2.2.2⟩,
      utcoffset, h.1⟩
  else none

/-- `YYYY-MM-DD`. -/
def isoDate : Parser ℤ := fun cs => do
  let (y, k, cs) := takeDigits 4 0 0 cs
  let (_, cs) ← literal ['-'] cs
  let (m, cs) ← twoDigits cs
  let (_, cs) ← literal ['-'] cs
  let (d, cs) ← twoDigits cs
  if k = 4 ∧ validDate y m d then some (epochDay y m d, cs) else none

/-- Two digits behind a colon. -/
def colonDigits : Parser ℕ := fun cs => do
  let (_, cs) ← literal [':'] cs
  twoDigits cs

/-- Three or six digits behind a point, in microseconds. -/
def isoFraction : Parser ℕ := fun cs => do
  let (_, cs) ← literal ['.'] cs
  match takeDigits 6 0 0 cs with
  | (v, 3, cs) => some (v * 1000, cs)
  | (v, 6, cs) => some (v, cs)
  | _ => none

/-- `HH[:MM[:SS[.fff[fff]]]]`. -/
def isoTime : Parser (ℕ × ℕ × ℕ × ℕ) := fun cs => do
  let (hour, cs) ← twoDigits cs
  match colonDigits cs with
  | none => some ((hour, 0, 0, 0), cs)
  | some (minute, cs) =>
    match colonDigits cs with
    | none => some ((hour, minute, 0, 0), cs)
    | some (second, cs) =>
      let (micros, cs) := (isoFraction cs).getD (0, cs)
      some ((hour, minute, second, micros), cs)

/-- `+HH:MM[:SS[.ffffff]]`, in microseconds and less than a day. -/
def isoOffset (cs : List Char) : Option ℤ := do
  let (_, digits) ← literal ['+', '-'] cs
  let ((hour, minute, second, micros), rest) ← isoTime digits
  let offset : ℤ := ((hour * 60 + minute) * 60 + second) * 1000000 + micros
  if rest ≠ [] ∨ digits.length ∉ [5, 8, 15] ∨ 86400000000 ≤ offset then none
  else some (if cs.head? = some '-' then -offset else offset)

/-- `fromisoformat`: what `isoformat` writes, with any character between date and time. -/
def fromisoformat (s : String) : Option DateTime := do
  let (day, cs) ← isoDate s.toList
  match cs with
  | [] => ofParts day 0 0 0 0 none
  | _ :: cs =>
    let ((hour, minute, second, micros), cs) ← isoTime cs
    if cs = [] then ofParts day hour minute second micros none
    else do
      let offset ← isoOffset cs
      ofParts day hour minute second micros (some offset)

end Reading

end DateTime

end AdPipeline
