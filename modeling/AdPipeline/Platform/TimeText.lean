import AdPipeline.Platform.Calendar
import Mathlib.Tactic.Ring

/-!
# Instants read back from their text

What `Time.toText` prints of an instant in range is read as that instant again: by
`parseOffsetDateTime` unless the year has ten digits (`parseOffsetDateTime_toText`), and by
`parseInstant` in any case (`parseInstant_toText`).
-/

namespace AdPipeline.Time

/-! ## Digits -/

theorem isDigit_of_mem_toDigits {c : Char} {n : ℕ} (h : c ∈ Nat.toDigits 10 n) :
    isDigit c = true := by
  have hdigit := Nat.isDigit_of_mem_toDigits (by decide) (by decide) h
  rw [Char.isDigit, Bool.and_eq_true] at hdigit
  rw [isDigit, Bool.and_eq_true]
  exact hdigit

/-- The characters of a padded number. -/
def padDigits (width n : ℕ) : List Char :=
  List.replicate (width - (Nat.toDigits 10 n).length) '0' ++ Nat.toDigits 10 n

theorem toList_pad (width n : ℕ) : (pad width n).toList = padDigits width n := by
  rw [pad, padDigits, String.toList_ofList]

theorem isDigit_padDigits {width n : ℕ} {c : Char} (h : c ∈ padDigits width n) :
    isDigit c = true := by
  rcases List.mem_append.1 h with hzero | hdigit
  · rw [List.eq_of_mem_replicate hzero]
    rfl
  · exact isDigit_of_mem_toDigits hdigit

theorem length_padDigits (width n : ℕ) :
    (padDigits width n).length = max width (Nat.toDigits 10 n).length := by
  rw [padDigits, List.length_append, List.length_replicate]
  omega

theorem length_padDigits_of_lt {width n : ℕ} (hwidth : 0 < width) (h : n < 10 ^ width) :
    (padDigits width n).length = width := by
  rw [length_padDigits, max_eq_left]
  exact (Nat.length_toDigits_le_iff (by decide) hwidth).2 h

theorem ofDigitChars_padDigits (width n : ℕ) : Nat.ofDigitChars 10 (padDigits width n) 0 = n := by
  rw [padDigits, Nat.ofDigitChars_append, Nat.ofDigitChars_replicate_zero, Nat.mul_zero,
    Nat.ofDigitChars_ten_toDigits]

/-- Digits are taken up to the limit or the first character that is none. -/
theorem takeDigits_append {n : ℕ} {ds rest : List Char} (hds : ∀ c ∈ ds, isDigit c = true)
    (hlen : ds.length ≤ n) (hrest : ds.length = n ∨ ∀ c ∈ rest.head?, isDigit c = false)
    (acc k : ℕ) :
    takeDigits n acc k (ds ++ rest) = (Nat.ofDigitChars 10 ds acc, k + ds.length, rest) := by
  induction ds generalizing n acc k with
  | nil =>
      rw [List.nil_append, Nat.ofDigitChars_nil, List.length_nil, Nat.add_zero]
      cases n with
      | zero => rw [takeDigits]; simp
      | succ n =>
          cases rest with
          | nil => rw [takeDigits]; simp
          | cons c cs =>
              have hc : isDigit c = false := by
                rcases hrest with hzero | hhead
                · cases hzero
                · exact hhead c rfl
              rw [takeDigits, if_neg (by simp [hc])]
  | cons d ds ih =>
      obtain ⟨n, rfl⟩ : ∃ m, n = m + 1 := Nat.exists_eq_succ_of_ne_zero (by
        rw [List.length_cons] at hlen
        omega)
      rw [List.cons_append, takeDigits, if_pos (hds d List.mem_cons_self), Nat.ofDigitChars_cons,
        ih (fun c hc => hds c (List.mem_cons_of_mem _ hc)) (by simpa using hlen)
          (hrest.imp_left (by simp))]
      rw [List.length_cons, Nat.add_assoc, Nat.add_comm 1]
      rfl

theorem twoDigits_pad {n : ℕ} (h : n < 100) (rest : List Char) :
    twoDigits (padDigits 2 n ++ rest) = some (n, rest) := by
  have hlen : (padDigits 2 n).length = 2 := length_padDigits_of_lt (by decide) h
  rw [twoDigits, takeDigits_append (fun c hc => isDigit_padDigits hc) hlen.le (.inl hlen),
    ofDigitChars_padDigits, hlen]
  rfl

/-! ## Fields -/

/-- A fraction of some digits. -/
theorem fraction_pad {width n : ℕ} (hwidth : 0 < width) (hnine : width ≤ 9) (h : n < 10 ^ width)
    (rest : List Char) :
    fraction ('.' :: (padDigits width n ++ 'Z' :: rest)) =
      (n * 10 ^ (9 - width), 'Z' :: rest) := by
  have hlen := length_padDigits_of_lt hwidth h
  have hZ : ∀ c ∈ ('Z' :: rest).head?, isDigit c = false := by
    intro c hc
    obtain rfl : 'Z' = c := Option.some.inj hc
    rfl
  rw [fraction,
    takeDigits_append (fun c hc => isDigit_padDigits hc) (hlen.le.trans hnine) (.inr hZ),
    ofDigitChars_padDigits, hlen, Nat.zero_add]

theorem fraction_fractionText {n : ℕ} (h : n < 1000000000) (rest : List Char) :
    fraction ((fractionText n).toList ++ 'Z' :: rest) = (n, 'Z' :: rest) := by
  have htext : ∀ width m, ("." ++ pad width m).toList ++ 'Z' :: rest =
      '.' :: (padDigits width m ++ 'Z' :: rest) := by
    intro width m
    rw [String.toList_append, toList_pad]
    rfl
  rw [fractionText]
  split_ifs with hzero hmillis hmicros
  · rw [hzero]
    rfl
  · rw [htext, fraction_pad (by decide) (by decide) (by omega)]
    refine Prod.ext ?_ rfl
    simp only
    omega
  · rw [htext, fraction_pad (by decide) (by decide) (by omega)]
    refine Prod.ext ?_ rfl
    simp only
    omega
  · rw [htext, fraction_pad (by decide) (by decide) (by omega)]
    refine Prod.ext ?_ rfl
    simp only
    omega

/-- Years of up to ten digits are read back. -/
theorem year_yearText {y : ℤ} (h : y.natAbs < 10000000000) (rest : List Char) :
    year ((yearText y).toList ++ '-' :: rest) = some (y, '-' :: rest) := by
  have hdash : ∀ c ∈ ('-' :: rest).head?, isDigit c = false := by
    intro c hc
    obtain rfl : '-' = c := Option.some.inj hc
    rfl
  have hten : (padDigits 4 y.natAbs).length ≤ 10 := by
    rw [length_padDigits]
    exact max_le (by decide) ((Nat.length_toDigits_le_iff (by decide) (by decide)).2 h)
  have hfour : 4 ≤ (padDigits 4 y.natAbs).length := by
    rw [length_padDigits]
    exact le_max_left _ _
  have htake : takeDigits 10 0 0 (padDigits 4 y.natAbs ++ '-' :: rest) =
      (y.natAbs, (padDigits 4 y.natAbs).length, '-' :: rest) := by
    rw [takeDigits_append (fun c hc => isDigit_padDigits hc) hten (.inr hdash),
      ofDigitChars_padDigits, Nat.zero_add]
  rw [yearText]
  split_ifs with hneg hlong
  · rw [String.toList_append, toList_pad]
    show year ('-' :: (padDigits 4 y.natAbs ++ '-' :: rest)) = _
    simp only [year, htake]
    rw [if_neg (by omega)]
    congr 2
    omega
  · have hfive : 4 < (padDigits 4 y.natAbs).length := by
      rw [length_padDigits, lt_max_iff, ← not_le, ← not_le,
        Nat.length_toDigits_le_iff (by decide) (by decide)]
      omega
    rw [String.toList_append, toList_pad]
    show year ('+' :: (padDigits 4 y.natAbs ++ '-' :: rest)) = _
    simp only [year, htake]
    rw [if_neg (by omega)]
    congr 2
    omega
  · have hlen : (padDigits 4 y.natAbs).length = 4 :=
      length_padDigits_of_lt (by decide) (by omega)
    rw [toList_pad]
    -- the first character is a digit, so the year has no sign
    have hdigit : ∀ c ∈ padDigits 4 y.natAbs, isDigit c = true := fun c hc => isDigit_padDigits hc
    generalize padDigits 4 y.natAbs = ds at htake hlen hdigit
    cases ds with
    | nil => cases hlen
    | cons c ds =>
        have hc := hdigit c List.mem_cons_self
        have hminus : c ≠ '-' := by
          rintro rfl
          cases hc
        have hplus : c ≠ '+' := by
          rintro rfl
          cases hc
        rw [List.cons_append] at htake ⊢
        rw [year]
        · simp only [htake, hlen]
          rw [if_neg (by simp)]
          congr 2
          omega
        · intro cs hcs
          exact hminus (List.cons.inj hcs).1
        · intro cs hcs
          exact hplus (List.cons.inj hcs).1

/-! ## Texts -/

theorem le_of_validDate {y : ℤ} {m d : ℕ} (h : validDate y m d = true) :
    (1 ≤ m ∧ m ≤ 12) ∧ 1 ≤ d ∧ d ≤ 31 := by
  simp only [validDate, Bool.and_eq_true, decide_eq_true_eq] at h
  have hmonth : lengthOfMonth y m ≤ 31 := by
    unfold lengthOfMonth
    split_ifs <;> decide
  omega

/-- The text of a date, a time and a fraction. -/
def textOf (y : ℤ) (m d h mi s nanos : ℕ) : String :=
  yearText y ++ "-" ++ pad 2 m ++ "-" ++ pad 2 d ++ "T" ++ pad 2 h ++ ":" ++ pad 2 mi ++ ":" ++
    pad 2 s ++ fractionText nanos ++ "Z"

/-- Its characters, field by field. -/
theorem toList_textOf (y : ℤ) (m d h mi s nanos : ℕ) :
    (textOf y m d h mi s nanos).toList =
      (yearText y).toList ++ '-' :: (padDigits 2 m ++ '-' :: (padDigits 2 d ++ 'T' ::
        (padDigits 2 h ++ ':' :: (padDigits 2 mi ++ ':' :: (padDigits 2 s ++
          ((fractionText nanos).toList ++ ['Z'])))))) := by
  simp only [textOf, String.toList_append, toList_pad, List.append_assoc]
  rfl

section

variable {y : ℤ} {m d h mi s nanos : ℕ}

theorem localDate_textOf (hy : y.natAbs < 10000000000) (hm : m < 100) (hd : d < 100)
    (rest : List Char) :
    localDate ((yearText y).toList ++ '-' :: (padDigits 2 m ++ '-' :: (padDigits 2 d ++ rest))) =
      some ((y, m, d), rest) := by
  have hliteral : ∀ cs, literal ['-'] ('-' :: cs) = some ((), cs) := fun _ => rfl
  simp [localDate, year_yearText hy, hliteral, twoDigits_pad hm, twoDigits_pad hd]

/-- The offset date time of a text, when its year has at most nine digits. -/
theorem parseOffsetDateTime_textOf (hy : y.natAbs < 10000000000) (hdate : validDate y m d = true)
    (hh : h < 24) (hmi : mi < 60) (hs : s < 60) (hnanos : nanos < 1000000000) :
    parseOffsetDateTime (textOf y m d h mi s nanos) =
      if y.natAbs ≤ 999999999 then some (instantOf y m d h mi s nanos 0) else none := by
  obtain ⟨⟨-, hm⟩, -, hd⟩ := le_of_validDate hdate
  have hT : ∀ cs, literal ['T', 't'] ('T' :: cs) = some ((), cs) := fun _ => rfl
  have hcolon : ∀ cs, literal [':'] (':' :: cs) = some ((), cs) := fun _ => rfl
  have hZ : offsetId false ['Z'] = some (0, []) := rfl
  have hseconds : optionalSeconds (':' :: (padDigits 2 s ++ ((fractionText nanos).toList ++ ['Z'])))
      = ((s, nanos), ['Z']) := by
    simp [optionalSeconds, hcolon, twoDigits_pad (show s < 100 by omega),
      fraction_fractionText hnanos]
  rw [parseOffsetDateTime, toList_textOf]
  simp only [localDate_textOf hy (show m < 100 by omega) (show d < 100 by omega), hT, hcolon,
    twoDigits_pad (show h < 100 by omega),
    twoDigits_pad (show mi < 100 by omega), hseconds, hZ, Option.bind_eq_bind, Option.bind_some]
  by_cases hnine : y.natAbs ≤ 999999999
  · rw [if_pos ⟨trivial, hdate, hnine, by omega, by omega, by omega⟩, if_pos hnine]
  · rw [if_neg fun hall => hnine hall.2.2.1, if_neg hnine]

/-- The instant of a text. -/
theorem parseInstant_textOf (hy : y.natAbs < 10000000000) (hdate : validDate y m d = true)
    (hh : h < 24) (hmi : mi < 60) (hs : s < 60) (hnanos : nanos < 1000000000)
    (hrange : inRange (instantOf y m d h mi s nanos 0) = true) :
    parseInstant (textOf y m d h mi s nanos) = some (instantOf y m d h mi s nanos 0) := by
  obtain ⟨⟨-, hm⟩, -, hd⟩ := le_of_validDate hdate
  have hT : ∀ cs, literal ['T', 't'] ('T' :: cs) = some ((), cs) := fun _ => rfl
  have hcolon : ∀ cs, literal [':'] (':' :: cs) = some ((), cs) := fun _ => rfl
  have hZ : offsetId true ['Z'] = some (0, []) := rfl
  have hmin : min s 59 = s := min_eq_left (by omega)
  rw [parseInstant, toList_textOf]
  simp only [localDate_textOf hy (show m < 100 by omega) (show d < 100 by omega), hT, hcolon,
    twoDigits_pad (show h < 100 by omega),
    twoDigits_pad (show mi < 100 by omega), twoDigits_pad (show s < 100 by omega),
    fraction_fractionText hnanos, hZ, Option.bind_eq_bind, Option.bind_some]
  rw [if_pos ⟨trivial, hdate, by omega, .inl (by omega), .inl (by omega)⟩, hmin, if_pos hrange]

end

/-! ## Instants -/

/-- The text of an instant is that of its date and time in UTC. -/
theorem toText_eq (t : Instant) :
    toText t = textOf (civil (t.epochSecond / 86400)).1 (civil (t.epochSecond / 86400)).2.1
      (civil (t.epochSecond / 86400)).2.2 ((t.epochSecond % 86400).toNat / 3600)
      ((t.epochSecond % 86400).toNat / 60 % 60) ((t.epochSecond % 86400).toNat % 60)
      (t.nanos % 1000000000).toNat :=
  rfl

/-- The date and time in UTC are those of the instant. -/
theorem instantOf_civil (t : Instant) :
    instantOf (civil (t.epochSecond / 86400)).1 (civil (t.epochSecond / 86400)).2.1
      (civil (t.epochSecond / 86400)).2.2 ((t.epochSecond % 86400).toNat / 3600)
      ((t.epochSecond % 86400).toNat / 60 % 60) ((t.epochSecond % 86400).toNat % 60)
      (t.nanos % 1000000000).toNat 0 = t := by
  have hday := epochDay_civil (t.epochSecond / 86400)
  obtain ⟨sec, hsec⟩ : ∃ sec : ℕ, t.epochSecond % 86400 = sec :=
    Int.eq_ofNat_of_zero_le (by omega)
  have hsecond : (sec : ℤ) = t.epochSecond - t.epochSecond / 86400 * 86400 := by omega
  rw [instantOf, hday, hsec, Int.toNat_natCast]
  unfold Instant.epochSecond at hsecond ⊢
  cases t with
  | mk nanos =>
      simp only at hsecond ⊢
      congr 1
      omega

/-- An instant in range has a year of at most ten digits. -/
theorem natAbs_year_lt {t : Instant} (h : inRange t = true) :
    (civil (t.epochSecond / 86400)).1.natAbs < 10000000000 := by
  rw [inRange, Bool.and_eq_true, decide_eq_true_eq, decide_eq_true_eq] at h
  obtain ⟨era, yoe, doy, hmarch, hcivil⟩ := exists_marchDay (t.epochSecond / 86400)
  have hday := hmarch.day_eq
  have hyoe := hmarch.yoe_lt
  have hdoy := hmarch.doy_lt
  rw [hcivil, marchDate]
  simp only
  split_ifs <;> omega

/-- The text of an instant in range is read as that instant by `Instant.parse`. -/
theorem parseInstant_toText {t : Instant} (h : inRange t = true) :
    parseInstant (toText t) = some t := by
  have hyear := natAbs_year_lt h
  have hdate := validDate_civil (t.epochSecond / 86400)
  have hhour : (t.epochSecond % 86400).toNat / 3600 < 24 := by omega
  have hminute : (t.epochSecond % 86400).toNat / 60 % 60 < 60 := by omega
  have hsecond : (t.epochSecond % 86400).toNat % 60 < 60 := by omega
  have hnanos : (t.nanos % 1000000000).toNat < 1000000000 := by omega
  have hinstant := parseInstant_textOf hyear hdate hhour hminute hsecond hnanos
    (by rw [instantOf_civil]; exact h)
  rwa [← toText_eq, instantOf_civil] at hinstant

/-- It is read so by `OffsetDateTime.parse` too, where that does not refuse the year. -/
theorem parseOffsetDateTime_toText {t : Instant} (h : inRange t = true) :
    parseOffsetDateTime (toText t) = some t ∨ parseOffsetDateTime (toText t) = none := by
  have hyear := natAbs_year_lt h
  have hdate := validDate_civil (t.epochSecond / 86400)
  have hhour : (t.epochSecond % 86400).toNat / 3600 < 24 := by omega
  have hminute : (t.epochSecond % 86400).toNat / 60 % 60 < 60 := by omega
  have hsecond : (t.epochSecond % 86400).toNat % 60 < 60 := by omega
  have hnanos : (t.nanos % 1000000000).toNat < 1000000000 := by omega
  have hoffset := parseOffsetDateTime_textOf hyear hdate hhour hminute hsecond hnanos
  rw [← toText_eq, instantOf_civil] at hoffset
  rw [hoffset]
  split_ifs
  · exact .inl rfl
  · exact .inr rfl

/-! ## The range of what is read -/

/-- Digits taken have a value below the power of ten of their number. -/
theorem takeDigits_lt {n acc k v k' : ℕ} {cs rest : List Char}
    (h : takeDigits n acc k cs = (v, k', rest)) :
    k ≤ k' ∧ k' ≤ k + n ∧ v < (acc + 1) * 10 ^ (k' - k) := by
  have hstop : ∀ {cs' : List Char}, (acc, k, cs') = (v, k', rest) →
      k ≤ k' ∧ k' ≤ k + n ∧ v < (acc + 1) * 10 ^ (k' - k) := by
    intro cs' heq
    simp only [Prod.mk.injEq] at heq
    obtain ⟨rfl, rfl, -⟩ := heq
    simp
  induction n generalizing acc k cs with
  | zero => exact hstop (by simpa [takeDigits] using h)
  | succ n ih =>
      cases cs with
      | nil =>
          simp only [takeDigits] at h
          exact hstop h
      | cons c cs =>
          rw [takeDigits] at h
          by_cases hc : isDigit c = true
          · rw [if_pos hc] at h
            obtain ⟨hk, hk', hv⟩ := ih h (by
              intro cs' heq
              simp only [Prod.mk.injEq] at heq
              obtain ⟨rfl, rfl, -⟩ := heq
              simp)
            have hdigit : c.toNat - 48 ≤ 9 := by
              rw [isDigit, Bool.and_eq_true, decide_eq_true_eq, decide_eq_true_eq] at hc
              have hle : c.toNat ≤ 57 := hc.2
              omega
            refine ⟨by omega, by omega, ?_⟩
            obtain ⟨j, rfl⟩ : ∃ j, k' = k + 1 + j := Nat.exists_eq_add_of_le hk
            have hj : k + 1 + j - k = j + 1 := by omega
            calc
              v < (10 * acc + (c.toNat - 48) + 1) * 10 ^ (k + 1 + j - (k + 1)) := hv
              _ ≤ (10 * (acc + 1)) * 10 ^ j := by
                rw [Nat.add_sub_cancel_left]
                exact Nat.mul_le_mul_right _ (by omega)
              _ = (acc + 1) * 10 ^ (k + 1 + j - k) := by
                rw [hj]
                ring
          · rw [if_neg hc] at h
            exact hstop h

theorem fraction_lt (cs : List Char) : (fraction cs).1 < 1000000000 := by
  unfold fraction
  split
  · rename_i rest
    simp only
    obtain ⟨v, k, rest', h⟩ : ∃ v k rest', takeDigits 9 0 0 rest = (v, k, rest') := ⟨_, _, _, rfl⟩
    obtain ⟨-, hk, hv⟩ := takeDigits_lt h
    rw [h]
    rw [Nat.zero_add, Nat.one_mul, Nat.sub_zero] at hv
    rw [Nat.zero_add] at hk
    calc
      v * 10 ^ (9 - k) < 10 ^ k * 10 ^ (9 - k) := Nat.mul_lt_mul_of_pos_right hv (by positivity)
      _ = 10 ^ 9 := by rw [← pow_add, Nat.add_sub_cancel' hk]
  · exact Nat.zero_lt_succ _

theorem optionalSeconds_lt (cs : List Char) : (optionalSeconds cs).1.2 < 1000000000 := by
  unfold optionalSeconds
  split
  · exact fraction_lt _
  · exact Nat.zero_lt_succ _

/-- An offset is at most eighteen hours. -/
theorem offsetId_le {strict : Bool} {cs rest : List Char} {offset : ℤ}
    (h : offsetId strict cs = some (offset, rest)) : -64800 ≤ offset ∧ offset ≤ 64800 := by
  have hfinal : ∀ {a b c : ℕ} {minus : Prop} [Decidable minus] {cs' : List Char},
      (if a ≤ 23 ∧ (a * 3600 + b * 60 + c : ℤ) ≤ 64800 then
        some (if minus then -(a * 3600 + b * 60 + c : ℤ) else a * 3600 + b * 60 + c, cs')
      else none) = some (offset, rest) → -64800 ≤ offset ∧ offset ≤ 64800 := by
    intro a b c minus _ cs' hif
    rw [Option.ite_none_right_eq_some, Option.some.injEq, Prod.mk.injEq] at hif
    obtain ⟨⟨-, hle⟩, heq, -⟩ := hif
    split_ifs at heq <;> omega
  cases cs with
  | nil => cases h
  | cons c cs =>
      simp only [offsetId] at h
      by_cases hZ : c = 'Z' ∨ c = 'z'
      · rw [if_pos hZ, Option.some.injEq, Prod.mk.injEq] at h
        omega
      · rw [if_neg hZ, Option.ite_none_right_eq_some, Option.bind_eq_bind] at h
        obtain ⟨-, h⟩ := h
        obtain ⟨⟨a, cs'⟩, -, h⟩ := Option.bind_eq_some_iff.1 h
        simp only at h
        split at h
        · split at h
          · exact hfinal h
          · exact hfinal h
        · cases strict with
          | true => cases h
          | false => exact hfinal h

/-- The day number of a date of at most nine digits. -/
theorem epochDay_bounds {y : ℤ} {m d : ℕ} (h : validDate y m d = true)
    (hy : y.natAbs ≤ 999999999) :
    -365243219500 ≤ epochDay y m d ∧ epochDay y m d ≤ 365241780700 := by
  obtain ⟨-, hd⟩ := le_of_validDate h
  have hdoy : 0 ≤ (153 * (((m : ℤ) + 9) % 12) + 2) / 5 ∧
      (153 * (((m : ℤ) + 9) % 12) + 2) / 5 ≤ 337 := by omega
  unfold epochDay
  simp only
  generalize (153 * (((m : ℤ) + 9) % 12) + 2) / 5 = doy at hdoy ⊢
  split_ifs <;> omega

/-- What `OffsetDateTime.parse` reads is in the range of an `Instant`. -/
theorem inRange_of_parseOffsetDateTime {raw : String} {t : Instant}
    (h : parseOffsetDateTime raw = some t) : inRange t = true := by
  unfold parseOffsetDateTime at h
  simp only [Option.bind_eq_bind, Option.bind_eq_some_iff] at h
  obtain ⟨⟨⟨y, m, d⟩, cs₁⟩, -, ⟨_, cs₂⟩, -, ⟨h', cs₃⟩, -, ⟨_, cs₄⟩, -, ⟨mi, cs₅⟩, -,
    ⟨offset, cs₆⟩, hoffset, hif⟩ := h
  have hnanos := optionalSeconds_lt cs₅
  have hle := offsetId_le hoffset
  simp only at hif
  split_ifs at hif with hvalid
  obtain ⟨-, hdate, hy, hh, hmi, hs⟩ := hvalid
  obtain rfl := Option.some.inj hif
  have hday := epochDay_bounds hdate hy
  generalize (optionalSeconds cs₅).1.2 = nanos at hnanos ⊢
  generalize (optionalSeconds cs₅).1.1 = s at hs ⊢
  rw [inRange, Bool.and_eq_true, decide_eq_true_eq, decide_eq_true_eq, Instant.epochSecond,
    instantOf]
  simp only
  omega

/-- What `Instant.parse` reads is in range. -/
theorem inRange_of_parseInstant {raw : String} {t : Instant} (h : parseInstant raw = some t) :
    inRange t = true := by
  unfold parseInstant at h
  simp only [Option.bind_eq_bind, Option.bind_eq_some_iff] at h
  obtain ⟨⟨⟨y, m, d⟩, cs₁⟩, -, ⟨_, cs₂⟩, -, ⟨h', cs₃⟩, -, ⟨_, cs₄⟩, -, ⟨mi, cs₅⟩, -, ⟨_, cs₆⟩, -,
    ⟨s, cs₇⟩, -, ⟨offset, cs₈⟩, -, hif⟩ := h
  simp only at hif
  split_ifs at hif with hvalid hrange
  rw [← Option.some.inj hif]
  exact hrange

/-- Any number of milliseconds that fits a `Long` is in range. -/
theorem inRange_ofEpochMilli {ms : ℤ} (h : Text.longMin ≤ ms ∧ ms ≤ Text.longMax) :
    inRange (.ofEpochMilli ms) = true := by
  unfold Text.longMin Text.longMax at h
  rw [inRange, Bool.and_eq_true, decide_eq_true_eq, decide_eq_true_eq, Instant.epochSecond,
    Instant.ofEpochMilli]
  simp only
  omega

/-- The text has a letter. -/
theorem mem_toText (t : Instant) : 'T' ∈ (toText t).toList := by
  rw [toText_eq, toList_textOf]
  simp

end AdPipeline.Time
