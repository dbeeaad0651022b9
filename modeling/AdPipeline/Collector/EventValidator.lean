import AdPipeline.Platform.Json
import AdPipeline.Platform.Time

/-!
# Validation of events

`validate` is the check an event passes before it is routed. `Valid` says what the check is for,
and `validate_eq_ok` that it is exactly that.
-/

namespace AdPipeline.Collector

/-- The result of a validation. -/
inductive Validation where
  | ok (eventTime : Instant)
  | fail (reason : String)
deriving DecidableEq

namespace EventValidator

/-- The fields every event must carry. -/
def required : List String := ["event_id", "event_type", "campaign_id", "event_time"]

/-- A timestamp further ahead than this counts as a client clock error. -/
def maxFutureSkewSeconds : ℤ := 300

/-- `parseInstant(raw: String?)`: epoch milliseconds or ISO-8601. -/
def parseInstantText (raw : String) : Option Instant :=
  if Text.isBlank raw then none
  else
    match Text.toLongOrNull raw with
    | some ms => some (.ofEpochMilli ms)
    | none =>
      match Time.parseOffsetDateTime raw with
      | some t => some t
      | none => Time.parseInstant raw

/-- `parseInstant(node: JsonNode?)`. -/
def parseInstant (node : Json) : Option Instant :=
  if node.isNull then none
  else if node.isNumber then some (.ofEpochMilli node.asLong)
  else if node.isTextual then parseInstantText node.asText
  else none

/-- The check of one required field, with the reason it fails. -/
def checkField (node : Json) (field : String) : Option String :=
  match node.get field with
  | none => some ("missing_field:" ++ field)
  | some v =>
    if v.isNull then some ("missing_field:" ++ field)
    else if v.isTextual && Text.isBlank v.asText then some ("blank_field:" ++ field)
    else none

/-- `validate`, at the clock reading `now`. -/
def validate (now : Instant) (node : Json) : Validation :=
  if node.isObject then
    match required.findSome? (checkField node) with
    | some reason => .fail reason
    | none =>
      match (node.get "event_time").bind parseInstant with
      | none => .fail "bad_event_time"
      | some et =>
        if et.isAfter (now.plusSeconds maxFutureSkewSeconds) then .fail "event_time_in_future"
        else .ok et
  else .fail "not_an_object"

/-- The field is there, is not null and is not a blank text. -/
def Present (node : Json) (field : String) : Prop :=
  ∃ v, node.get field = some v ∧ v.isNull = false ∧ ¬ (v.isTextual ∧ Text.isBlank v.asText)

/-- What an event must be to be valid at the time `now`, `et` being its time of occurrence. -/
structure Valid (now : Instant) (node : Json) (et : Instant) : Prop where
  present : ∀ field ∈ required, Present node field
  parses : (node.get "event_time").bind parseInstant = some et
  notFuture : et.nanos ≤ (now.plusSeconds maxFutureSkewSeconds).nanos

/-- The instant is further ahead of the clock than is taken for a working client clock. -/
def TooFarAhead (now et : Instant) : Prop :=
  (now.plusSeconds maxFutureSkewSeconds).nanos < et.nanos

instance : DecidableRel TooFarAhead := fun now et =>
  inferInstanceAs (Decidable ((now.plusSeconds maxFutureSkewSeconds).nanos < et.nanos))

theorem checkField_eq_none {node : Json} {field : String} :
    checkField node field = none ↔ Present node field := by
  unfold checkField Present
  cases hget : node.get field with
  | none => simp
  | some v =>
      simp only [Option.some.injEq, exists_eq_left']
      split_ifs with hnull hblank
      · simp [hnull]
      · simp_all
      · simp_all

theorem isObject_of_present {node : Json} {field : String} (h : Present node field) :
    node.isObject = true := by
  obtain ⟨v, hv, -⟩ := h
  cases node <;> simp_all [Json.get, Json.isObject]

/-- The check accepts the valid events and no others. -/
theorem validate_eq_ok {now et : Instant} {node : Json} :
    validate now node = .ok et ↔ Valid now node et := by
  unfold validate
  constructor
  · intro h
    split_ifs at h with hobj
    split at h
    · cases h
    · rename_i hfields
      split at h
      · cases h
      · rename_i et' het
        split_ifs at h with hfuture
        obtain rfl : et' = et := by simpa using h
        refine ⟨fun field hf => ?_, het, ?_⟩
        · exact checkField_eq_none.1 (List.findSome?_eq_none_iff.1 hfields field hf)
        · simpa [Instant.isAfter] using hfuture
  · rintro ⟨hpresent, hparses, hfuture⟩
    have hobj := isObject_of_present (hpresent "event_id" (by simp [required]))
    have hfields : required.findSome? (checkField node) = none :=
      List.findSome?_eq_none_iff.2 fun field hf => checkField_eq_none.2 (hpresent field hf)
    have hskew : et.isAfter (now.plusSeconds maxFutureSkewSeconds) = false := by
      simpa [Instant.isAfter] using hfuture
    rw [if_pos hobj, hfields, hparses]
    simp [hskew]

/-! ## Fields that are present -/

/-- A field that is a text passes the check exactly when the text is not blank. -/
theorem present_str (node : Fields) (field s : String) (h : node.get field = some (.str s)) :
    Present (.obj node) field ↔ Text.isBlank s = false := by
  unfold Present
  simp [Json.get, h, Json.isNull, Json.isTextual, Json.asText]

theorem parseInstant_str (s : String) : parseInstant (.str s) = parseInstantText s := by
  simp [parseInstant, Json.isNull, Json.isNumber, Json.isTextual, Json.asText]

/-- What is read as a time is neither null nor blank. -/
theorem present_of_parses {node : Json} {field : String} {et : Instant}
    (h : (node.get field).bind parseInstant = some et) : Present node field := by
  obtain ⟨v, hv, hparses⟩ := Option.bind_eq_some_iff.1 h
  refine ⟨v, hv, ?_, ?_⟩
  · cases v <;> first | rfl | cases hparses
  · rintro ⟨htext, hblank⟩
    cases v with
    | str s =>
        replace hblank : Text.isBlank s = true := hblank
        rw [parseInstant_str, parseInstantText, if_pos hblank] at hparses
        cases hparses
    | _ => cases htext

end EventValidator

end AdPipeline.Collector
