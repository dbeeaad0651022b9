import AdPipeline.Platform.Time
import Mathlib.Tactic.IntervalCases

/-!
# Days and dates

`Time.civil` gives a valid date for every day number, and `Time.epochDay` gives the day number back
(`validDate_civil`, `epochDay_civil`). Years are counted from March, in eras of 400 years, so that
the leap day is the last day of its year.
-/

namespace AdPipeline.Time

/-! ## Years of an era -/

/-- The days of an era before one of its years. -/
def eraDays (y : ℕ) : ℕ := 365 * y + y / 4 - y / 100 + y / 400

/-- The year of a day of an era. -/
def yearOfEra (doe : ℕ) : ℕ := (doe - doe / 1460 + doe / 36524 - doe / 146096) / 365

theorem yearOfEra_first : ∀ y < 400, yearOfEra (eraDays y) = y := by decide +kernel

theorem yearOfEra_last : ∀ y < 400, yearOfEra (eraDays (y + 1) - 1) = y := by decide +kernel

theorem yearOfEra_succ {doe : ℕ} (h : doe < 146096) : yearOfEra doe ≤ yearOfEra (doe + 1) := by
  have hcentury : doe / 36524 ≤ (doe + 1) / 36524 := Nat.div_le_div_right (Nat.le_succ doe)
  have hfour : (doe + 1) / 1460 ≤ doe / 1460 + 1 := by omega
  unfold yearOfEra
  refine Nat.div_le_div_right ?_
  -- the last day of the era is the only one that counts in the last quotient
  by_cases hlast : doe + 1 = 146096
  · obtain rfl : doe = 146095 := by omega
    decide
  · have hzero : doe / 146096 = 0 := by omega
    have hzero' : (doe + 1) / 146096 = 0 := by omega
    omega

theorem yearOfEra_mono {doe doe' : ℕ} (h : doe ≤ doe') (h' : doe' < 146097) :
    yearOfEra doe ≤ yearOfEra doe' := by
  induction doe', h using Nat.le_induction with
  | base => exact le_refl _
  | succ n _ ih => exact (ih (by omega)).trans (yearOfEra_succ (by omega))

/-- The year of a day is the one whose days it is among. -/
theorem yearOfEra_spec {doe : ℕ} (h : doe < 146097) :
    yearOfEra doe < 400 ∧ eraDays (yearOfEra doe) ≤ doe ∧ doe < eraDays (yearOfEra doe + 1) := by
  have hlast : yearOfEra 146096 = 399 := by decide
  have hlt : yearOfEra doe < 400 := by
    have hle : yearOfEra doe ≤ yearOfEra 146096 := yearOfEra_mono (by omega) (by omega)
    omega
  refine ⟨hlt, ?_, ?_⟩
  · by_contra hbefore
    obtain ⟨y, hy⟩ : ∃ y, yearOfEra doe = y + 1 := by
      refine Nat.exists_eq_succ_of_ne_zero fun hzero => ?_
      rw [hzero] at hbefore
      simp [eraDays] at hbefore
    rw [hy] at hbefore hlt
    have hend := yearOfEra_last y (by omega)
    have hbound : eraDays (y + 1) - 1 < 146097 := by
      unfold eraDays
      omega
    have hle : yearOfEra doe ≤ yearOfEra (eraDays (y + 1) - 1) :=
      yearOfEra_mono (by omega) hbound
    omega
  · by_contra hafter
    rw [not_lt] at hafter
    by_cases hfinal : yearOfEra doe + 1 = 400
    · have hdays : eraDays 400 = 146097 := by decide
      rw [hfinal, hdays] at hafter
      omega
    · have hstart := yearOfEra_first (yearOfEra doe + 1) (by omega)
      have := yearOfEra_mono hafter h
      omega

/-! ## Dates -/

/-- A day as its era, its year in the era and its day in the year, all counted from March. -/
structure MarchDay (day era : ℤ) (yoe doy : ℕ) : Prop where
  yoe_lt : yoe < 400
  doy_lt : doy < 366
  leap : doy = 365 → isLeapYear (yoe + 1 + era * 400) = true
  day_eq : day + 719468 = era * 146097 + (365 * yoe + yoe / 4 - yoe / 100 : ℕ) + doy

/-- The date of a day counted from March. -/
def marchDate (era : ℤ) (yoe doy : ℕ) : ℤ × ℕ × ℕ :=
  let mp := (5 * doy + 2) / 153
  let m := if mp < 10 then mp + 3 else mp - 9
  (yoe + era * 400 + (if m ≤ 2 then 1 else 0), m, doy - (153 * mp + 2) / 5 + 1)

theorem isLeapYear_era (y : ℕ) (era : ℤ) :
    isLeapYear (y + era * 400) = true ↔ y % 4 = 0 ∧ (y % 100 ≠ 0 ∨ y % 400 = 0) := by
  simp only [isLeapYear, Bool.and_eq_true, Bool.or_eq_true, beq_iff_eq, bne_iff_ne]
  constructor
  · intro h
    omega
  · intro h
    omega

/-- Only a leap year has a last day of its own. -/
theorem eraDays_succ : ∀ y < 400, eraDays (y + 1) ≤ eraDays y + 366 ∧
    (eraDays (y + 1) = eraDays y + 366 →
      (y + 1) % 4 = 0 ∧ ((y + 1) % 100 ≠ 0 ∨ (y + 1) % 400 = 0)) := by
  decide +kernel

/-- The date as `civil` computes it, from the year and the day of the year. -/
theorem marchDate_eq (era : ℤ) (yoe doy : ℕ) :
    (let mp := (5 * (doy : ℤ) + 2) / 153
      let m := if mp < 10 then mp + 3 else mp - 9
      ((yoe : ℤ) + era * 400 + (if m ≤ 2 then 1 else 0), m.toNat,
        ((doy : ℤ) - (153 * mp + 2) / 5 + 1).toNat)) = marchDate era yoe doy := by
  have hmp : (5 * (doy : ℤ) + 2) / 153 = ((5 * doy + 2) / 153 : ℕ) := by omega
  have hle : (153 * ((5 * doy + 2) / 153) + 2) / 5 ≤ doy := by omega
  simp only [marchDate, hmp]
  generalize (5 * doy + 2) / 153 = mp at hle
  refine Prod.ext ?_ (Prod.ext ?_ ?_)
  · by_cases hten : mp < 10
    · simp only [Nat.cast_lt_ofNat, hten, if_true]
      split_ifs <;> omega
    · simp only [Nat.cast_lt_ofNat, hten, if_false]
      split_ifs <;> omega
  · by_cases hten : mp < 10
    · simp only [Nat.cast_lt_ofNat, hten, if_true]
      omega
    · simp only [Nat.cast_lt_ofNat, hten, if_false]
      omega
  · simp only
    omega

theorem exists_marchDay (day : ℤ) :
    ∃ era yoe doy, MarchDay day era yoe doy ∧ civil day = marchDate era yoe doy := by
  obtain ⟨doe, hdoe⟩ : ∃ doe : ℕ, day + 719468 - (day + 719468) / 146097 * 146097 = doe :=
    Int.eq_ofNat_of_zero_le (by omega)
  have hlt : doe < 146097 := by omega
  obtain ⟨hyoe, hfirst, hlast⟩ := yearOfEra_spec hlt
  have hyear : ((doe : ℤ) - doe / 1460 + doe / 36524 - doe / 146096) / 365 =
      (yearOfEra doe : ℤ) := by
    unfold yearOfEra
    omega
  generalize yearOfEra doe = yoe at hyoe hfirst hlast hyear
  obtain ⟨hshort, hleap⟩ := eraDays_succ yoe hyoe
  have hdays : eraDays yoe = 365 * yoe + yoe / 4 - yoe / 100 := by
    unfold eraDays
    omega
  obtain ⟨doy, hdoy⟩ : ∃ doy, doe = eraDays yoe + doy := Nat.exists_eq_add_of_le hfirst
  refine ⟨(day + 719468) / 146097, yoe, doy, ⟨hyoe, by omega, fun hend => ?_, by omega⟩, ?_⟩
  · have hnext : ((yoe : ℤ) + 1 + (day + 719468) / 146097 * 400) =
        ((yoe + 1 : ℕ) : ℤ) + (day + 719468) / 146097 * 400 := by
      push_cast
      rfl
    rw [hnext, isLeapYear_era]
    exact hleap (by omega)
  · have hdoy' : (doe : ℤ) - (365 * yoe + yoe / 4 - yoe / 100) = doy := by omega
    rw [← marchDate_eq, ← hdoy', ← hyear, ← hdoe]
    rfl

/-- Every day has a valid date. -/
theorem validDate_marchDate {day era : ℤ} {yoe doy : ℕ} (h : MarchDay day era yoe doy) :
    validDate (marchDate era yoe doy).1 (marchDate era yoe doy).2.1 (marchDate era yoe doy).2.2 =
      true := by
  have hdoy := h.doy_lt
  have hleap := h.leap
  rw [add_right_comm] at hleap
  obtain ⟨mp, hm⟩ : ∃ mp, (5 * doy + 2) / 153 = mp := ⟨_, rfl⟩
  have hmp : mp < 12 := by omega
  simp only [marchDate, hm]
  rw [validDate, Bool.and_eq_true, Bool.and_eq_true, Bool.and_eq_true]
  interval_cases mp <;> simp [lengthOfMonth] <;> try omega
  -- February
  split_ifs with hyear
  · omega
  · have hnot : doy ≠ 365 := fun hlast => hyear (hleap hlast)
    omega

/-- The day number of a date is the day it is the date of. -/
theorem epochDay_marchDate {day era : ℤ} {yoe doy : ℕ} (h : MarchDay day era yoe doy) :
    epochDay (marchDate era yoe doy).1 (marchDate era yoe doy).2.1 (marchDate era yoe doy).2.2 =
      day := by
  have hyoe := h.yoe_lt
  have hdoy := h.doy_lt
  have hday := h.day_eq
  have hmp : (5 * doy + 2) / 153 < 12 := by omega
  simp only [marchDate]
  generalize hm : (5 * doy + 2) / 153 = mp at hmp ⊢
  have hyear : (if ((if mp < 10 then mp + 3 else mp - 9 : ℕ) : ℤ) ≤ 2
        then (yoe : ℤ) + era * 400 + (if (if mp < 10 then mp + 3 else mp - 9) ≤ 2 then 1 else 0) - 1
        else yoe + era * 400 + (if (if mp < 10 then mp + 3 else mp - 9) ≤ 2 then 1 else 0)) =
      yoe + era * 400 := by
    split_ifs <;> omega
  have hmonth : (((if mp < 10 then mp + 3 else mp - 9 : ℕ) : ℤ) + 9) % 12 = mp := by
    split_ifs <;> omega
  have hera : ((yoe : ℤ) + era * 400) / 400 = era := by omega
  simp only [epochDay, hyear, hmonth, hera]
  push_cast
  omega

theorem validDate_civil (day : ℤ) :
    validDate (civil day).1 (civil day).2.1 (civil day).2.2 = true := by
  obtain ⟨era, yoe, doy, h, hcivil⟩ := exists_marchDay day
  rw [hcivil]
  exact validDate_marchDate h

theorem epochDay_civil (day : ℤ) :
    epochDay (civil day).1 (civil day).2.1 (civil day).2.2 = day := by
  obtain ⟨era, yoe, doy, h, hcivil⟩ := exists_marchDay day
  rw [hcivil]
  exact epochDay_marchDate h

end AdPipeline.Time
