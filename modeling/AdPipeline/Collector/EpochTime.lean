import AdPipeline.Collector.EventValidator
import AdPipeline.Platform.Decimal

/-!
# The times `parseInstant` reads

A time of occurrence is read from a number, from its decimal text or from what an instant prints.
The decimal text is refused when it does not fit a `Long`; of the number the low 64 bits are taken.
`sameResult_iff` says for which integers an event is judged alike in both forms.
-/

namespace AdPipeline.Collector

namespace EventValidator

/-! ## Printed instants -/

/-- What is read is in the range of an `Instant`. -/
theorem inRange_of_parseInstantText {raw : String} {t : Instant}
    (h : parseInstantText raw = some t) : Time.inRange t = true := by
  unfold parseInstantText at h
  split_ifs at h
  split at h
  · rename_i ms hms
    obtain rfl := Option.some.inj h
    exact Time.inRange_ofEpochMilli (Text.toLongOrNull_bounds hms)
  · split at h
    · rename_i u hu
      obtain rfl := Option.some.inj h
      exact Time.inRange_of_parseOffsetDateTime hu
    · exact Time.inRange_of_parseInstant h

/-- A text with a character that is no digit is no number. -/
theorem toLongOrNull_eq_none {s : String} {c : Char} (hc : c ∈ s.toList)
    (hdigit : Text.digit c = none) (hsign : ¬ c < '0') : Text.toLongOrNull s = none := by
  have hdigits : ∀ cs acc, c ∈ cs → Text.digitsToNat acc cs = none := by
    intro cs
    induction cs with
    | nil =>
        intro acc hmem
        cases hmem
    | cons d cs ih =>
        intro acc hmem
        rw [Text.digitsToNat]
        rcases List.mem_cons.1 hmem with rfl | hmem
        · rw [hdigit]
          rfl
        · cases Text.digit d with
          | none => rfl
          | some v => exact ih _ hmem
  unfold Text.toLongOrNull
  split
  · rfl
  · rename_i d cs hlist
    rw [hlist] at hc
    have htail : d < '0' → c ∈ cs := by
      intro hd
      rcases List.mem_cons.1 hc with rfl | hmem
      · exact absurd hd hsign
      · exact hmem
    split_ifs with hd
    · rfl
    · rw [hdigits cs 0 (htail hd)]
      rfl
    · rw [hdigits cs 0 (htail hd)]
      rfl
    · rfl
    · rw [hdigits (d :: cs) 0 hc]
      rfl

/-- A text with a character that is no white space is not blank. -/
theorem isBlank_eq_false {s : String} {c : Char} (hc : c ∈ s.toList)
    (hspace : Text.isWhitespace c = false) : Text.isBlank s = false := by
  rw [Text.isBlank, List.all_eq_false]
  exact ⟨c, hc, by simp [hspace]⟩

theorem isBlank_toText (t : Instant) : Text.isBlank (Time.toText t) = false :=
  isBlank_eq_false (Time.mem_toText t) rfl

/-- What an instant prints is read as that instant. -/
theorem parseInstantText_toText {t : Instant} (h : Time.inRange t = true) :
    parseInstantText (Time.toText t) = some t := by
  have hlong : Text.toLongOrNull (Time.toText t) = none :=
    toLongOrNull_eq_none (Time.mem_toText t) (by decide) (by decide)
  rw [parseInstantText, isBlank_toText, if_neg Bool.false_ne_true, hlong]
  rcases Time.parseOffsetDateTime_toText h with hoffset | hoffset
  · rw [hoffset]
  · rw [hoffset]
    exact Time.parseInstant_toText h

/-! ## Numbers and decimal texts -/

/-- A decimal text is not blank. -/
theorem isBlank_toString (n : ℤ) : Text.isBlank (toString n) = false := by
  obtain ⟨c, ds, hdigits, hc⟩ := Text.exists_toDigits_cons n.natAbs
  have hspace : Text.isWhitespace c = false := by
    rw [Time.isDigit, Bool.and_eq_true, decide_eq_true_eq, decide_eq_true_eq] at hc
    have hlow : 48 ≤ c.toNat := hc.1
    have hhigh : c.toNat ≤ 57 := hc.2
    simp only [Text.isWhitespace, Bool.or_eq_false_iff, Bool.and_eq_false_iff,
      decide_eq_false_iff_not, beq_eq_false_iff_ne]
    omega
  refine isBlank_eq_false (c := c) ?_ hspace
  rw [Text.toList_toString, hdigits]
  split_ifs <;> simp

/-- The decimal text of an integer is read as epoch milliseconds, if it fits a `Long`. -/
theorem parseInstantText_toString (n : ℤ) :
    parseInstantText (toString n) = (Text.inLong n).map .ofEpochMilli := by
  unfold parseInstantText
  rw [isBlank_toString, if_neg Bool.false_ne_true, Text.toLongOrNull_toString,
    Time.parseOffsetDateTime_toString, Time.parseInstant_toString]
  cases Text.inLong n <;> rfl

/-- A number is read as the epoch milliseconds of its low 64 bits. -/
theorem parseInstant_int (n : ℤ) :
    parseInstant (.int n) = some (.ofEpochMilli (Json.lowLong n)) := rfl

theorem parseInstant_toString (n : ℤ) :
    parseInstant (.str (toString n)) = (Text.inLong n).map .ofEpochMilli := by
  rw [parseInstant_str, parseInstantText_toString]

/-- What is read from a node is in the range of an `Instant`. -/
theorem inRange_of_parseInstant {v : Json} {t : Instant} (h : parseInstant v = some t) :
    Time.inRange t = true := by
  unfold parseInstant at h
  split_ifs at h with hnull hnumber htext
  · rw [← Option.some.inj h]
    exact Time.inRange_ofEpochMilli v.asLong_bounds
  · exact inRange_of_parseInstantText h

/-! ## Judging the two forms -/

/-- The event with the integer as its time of occurrence, as a number. -/
def withNumber (fields : Fields) (n : ℤ) : Json := .obj (fields.put "event_time" (.int n))

/-- The event with the integer as its time of occurrence, as a decimal text. -/
def withText (fields : Fields) (n : ℤ) : Json := .obj (fields.put "event_time" (.str (toString n)))

/-- Both results are rejections, or both are the instant. -/
def SameResult (et : Instant) (v v' : Validation) : Prop :=
  (∃ reason reason', v = .fail reason ∧ v' = .fail reason') ∨ v = .ok et ∧ v' = .ok et

/-- The other required fields are there, not null and not blank. -/
def OtherwiseComplete (fields : Fields) : Prop :=
  ∀ field ∈ required, field ≠ "event_time" → Present (.obj fields) field

variable {now et : Instant} {fields : Fields} {n : ℤ}

/-- An event with a time of occurrence put in is valid when its other fields are complete and the
time is read as one not too far ahead. -/
theorem valid_put_iff {v : Json} :
    Valid now (.obj (fields.put "event_time" v)) et ↔
      OtherwiseComplete fields ∧ parseInstant v = some et ∧ ¬ TooFarAhead now et := by
  have hget : (Json.obj (fields.put "event_time" v)).get "event_time" = some v :=
    Fields.get_put_self fields "event_time" v
  have hother : ∀ field, field ≠ "event_time" →
      (Present (.obj (fields.put "event_time" v)) field ↔ Present (.obj fields) field) := by
    intro field hne
    unfold Present
    rw [Json.get, Json.get, Fields.get_put_of_ne _ _ hne]
  constructor
  · intro h
    have hparses := h.parses
    rw [hget] at hparses
    exact ⟨fun field hf hne => (hother field hne).1 (h.present field hf), hparses,
      not_lt.2 h.notFuture⟩
  · rintro ⟨hcomplete, hparses, hahead⟩
    have htime : ((Json.obj (fields.put "event_time" v)).get "event_time").bind parseInstant =
        some et := by
      rw [hget]
      exact hparses
    refine ⟨fun field hf => ?_, htime, not_lt.1 hahead⟩
    by_cases hfield : field = "event_time"
    · rw [hfield]
      exact present_of_parses htime
    · exact (hother field hfield).2 (hcomplete field hf hfield)

/-- A validation fails when there is no instant the event is valid with. -/
theorem exists_fail_iff {node : Json} :
    (∃ reason, validate now node = .fail reason) ↔ ∀ et, ¬ Valid now node et := by
  constructor
  · rintro ⟨reason, hfail⟩ et h
    rw [validate_eq_ok.2 h] at hfail
    cases hfail
  · intro h
    cases hv : validate now node with
    | fail reason => exact ⟨reason, rfl⟩
    | ok et => exact absurd (validate_eq_ok.1 hv) (h et)

/-- When an event with a time of occurrence put in is rejected. -/
theorem exists_fail_put_iff {v : Json} :
    (∃ reason, validate now (.obj (fields.put "event_time" v)) = .fail reason) ↔
      (OtherwiseComplete fields → ∀ et, parseInstant v = some et → TooFarAhead now et) := by
  rw [exists_fail_iff]
  constructor
  · intro h hcomplete et hparses
    by_contra hahead
    exact h et (valid_put_iff.2 ⟨hcomplete, hparses, hahead⟩)
  · intro h et hvalid
    obtain ⟨hcomplete, hparses, hahead⟩ := valid_put_iff.1 hvalid
    exact hahead (h hcomplete et hparses)

/-- Two values that are read as one time are judged alike. -/
theorem sameResult_put {v v' : Json} (hv : parseInstant v = some et)
    (hv' : parseInstant v' = some et) :
    SameResult et (validate now (.obj (fields.put "event_time" v)))
      (validate now (.obj (fields.put "event_time" v'))) := by
  by_cases hsound : OtherwiseComplete fields ∧ ¬ TooFarAhead now et
  · exact .inr ⟨validate_eq_ok.2 (valid_put_iff.2 ⟨hsound.1, hv, hsound.2⟩),
      validate_eq_ok.2 (valid_put_iff.2 ⟨hsound.1, hv', hsound.2⟩)⟩
  · have hfail : ∀ w, parseInstant w = some et →
        ∃ reason, validate now (.obj (fields.put "event_time" w)) = .fail reason := by
      intro w hw
      refine exists_fail_put_iff.2 fun hcomplete et' het => ?_
      obtain rfl := Option.some.inj (hw.symm.trans het)
      exact not_not.1 fun hahead => hsound ⟨hcomplete, hahead⟩
    obtain ⟨reason, hreason⟩ := hfail v hv
    obtain ⟨reason', hreason'⟩ := hfail v' hv'
    exact .inl ⟨reason, reason', hreason, hreason'⟩

/-- A number is judged by its low 64 bits. -/
theorem withNumber_fails_iff :
    (∃ reason, validate now (withNumber fields n) = .fail reason) ↔
      (OtherwiseComplete fields → TooFarAhead now (.ofEpochMilli (Json.lowLong n))) := by
  rw [withNumber, exists_fail_put_iff, parseInstant_int]
  constructor
  · intro h hcomplete
    exact h hcomplete _ rfl
  · intro h hcomplete et het
    rw [← Option.some.inj het]
    exact h hcomplete

/-- A text that does not fit a `Long` is rejected. -/
theorem withText_fails (now : Instant) (fields : Fields)
    (h : ¬ (Text.longMin ≤ n ∧ n ≤ Text.longMax)) :
    ∃ reason, validate now (withText fields n) = .fail reason := by
  rw [withText, exists_fail_put_iff, parseInstant_toString, Text.inLong, if_neg h]
  intro _ et het
  cases het

/-- The same event with an integer time of occurrence, as a number and as a text, is rejected in
both forms or accepted in both with the instant that many milliseconds after the epoch, exactly
when the integer fits a `Long`, or the rest of the event is incomplete, or the low 64 bits of the
integer lie too far ahead of the clock. -/
theorem sameResult_iff (now : Instant) (fields : Fields) (n : ℤ) :
    SameResult (.ofEpochMilli n) (validate now (withNumber fields n))
        (validate now (withText fields n)) ↔
      (Text.longMin ≤ n ∧ n ≤ Text.longMax) ∨ ¬ OtherwiseComplete fields ∨
        TooFarAhead now (.ofEpochMilli (Json.lowLong n)) := by
  by_cases hlong : Text.longMin ≤ n ∧ n ≤ Text.longMax
  · -- both forms are read as `n`
    refine iff_of_true (sameResult_put ?_ ?_) (.inl hlong)
    · rw [parseInstant_int, Json.lowLong_of_bounds hlong]
    · rw [parseInstant_toString, Text.inLong, if_pos hlong]
      rfl
  · -- the text is refused, so the results agree exactly when the number is rejected too
    obtain ⟨reason', hreason'⟩ := withText_fails now fields hlong
    have hsame : SameResult (.ofEpochMilli n) (validate now (withNumber fields n))
        (validate now (withText fields n)) ↔
          ∃ reason, validate now (withNumber fields n) = .fail reason := by
      constructor
      · rintro (⟨reason, -, hreason, -⟩ | ⟨-, hok⟩)
        · exact ⟨reason, hreason⟩
        · rw [hreason'] at hok
          cases hok
      · rintro ⟨reason, hreason⟩
        exact .inl ⟨reason, reason', hreason, hreason'⟩
    rw [hsame, withNumber_fails_iff]
    constructor
    · intro h
      exact .inr (imp_iff_not_or.1 h)
    · rintro (h | h)
      · exact absurd h hlong
      · exact imp_iff_not_or.2 h

/-- An event that is complete but for its time of occurrence. -/
def timeless : Fields :=
  [("event_id", .str "e1"), ("event_type", .str "impression"), ("campaign_id", .str "c1")]

/-- A number beyond 64 bits is accepted as a present time, and refused as a text. -/
theorem sameResult_fails :
    ¬ SameResult (.ofEpochMilli 18446745863709551616)
      (validate (.ofEpochMilli 1790000000000) (withNumber timeless 18446745863709551616))
      (validate (.ofEpochMilli 1790000000000) (withText timeless 18446745863709551616)) := by
  have hnumber : validate (.ofEpochMilli 1790000000000) (withNumber timeless 18446745863709551616) =
      .ok (.ofEpochMilli 1790000000000) := by
    decide
  rintro (⟨reason, -, hfail, -⟩ | ⟨hok, -⟩)
  · rw [hnumber] at hfail
    cases hfail
  · rw [hnumber] at hok
    revert hok
    decide

end EventValidator

end AdPipeline.Collector
