import AdPipeline.Collector.EventIngestService
import AdPipeline.Lib.Transition

/-!
# `POST /v1/events`

A request is a transition system. Elements of the body are subscribed to in order, at most
`publishConcurrency` at a time; each makes its publish call at once and resolves later, in any
order, by an acknowledgement, by an error, or by a timeout after which the broker may still store
the record. A call that is not acknowledged is appended to the fallback file. The answer is given
when every element has resolved.

Records in Kafka and in the fallback file carry the index of the element they come from.
-/

namespace AdPipeline.Collector

/-- The settings of the collector the controller reads. -/
structure CollectorProperties where
  maxBatchSize : ℤ
  publishConcurrency : ℕ
  concurrency_pos : 0 < publishConcurrency

/-- The arguments of `kafka.send`, and what a line of the fallback file repeats. -/
structure Record where
  topic : Topic
  key : String
  payload : String
deriving DecidableEq

/-- The record of a call, its payload written by the mapper. -/
def PublishCall.record (call : PublishCall) : Record :=
  ⟨call.topic, call.key, Json.writeValueAsString (.obj call.node)⟩

/-- The counters of a response. -/
structure Counts where
  accepted : ℕ
  invalid : ℕ
  fallback : ℕ
deriving DecidableEq

namespace Counts

/-- `intArrayOf(0, 0, 0)`. -/
def zero : Counts := ⟨0, 0, 0⟩

/-- The reduction step. -/
def add (c : Counts) : Outcome → Counts
  | .accepted => { c with accepted := c.accepted + 1 }
  | .invalid => { c with invalid := c.invalid + 1 }
  | .fallback => { c with fallback := c.fallback + 1 }

def total (c : Counts) : ℕ := c.accepted + c.invalid + c.fallback

@[simp] theorem total_zero : zero.total = 0 := rfl

@[simp] theorem total_add (c : Counts) (o : Outcome) : (c.add o).total = c.total + 1 := by
  cases o <;> simp only [add, total] <;> omega

end Counts

/-- The response: its status, the number of events received, and the counters. -/
structure IngestResponse where
  status : ℕ
  received : ℕ
  counts : Counts
deriving DecidableEq

namespace EventController

/-- The events of a request body: an array, the `events` of an object, or the object itself. -/
def eventsOf : Json → List Json
  | .arr elements => elements
  | .obj fields =>
    match Fields.get fields "events" with
    | some (.arr elements) => elements
    | _ => [.obj fields]
  | _ => []

/-- A publish attempt made for the element at an index of the list. -/
structure Attempt where
  index : ℕ
  element : Json
  readings : Readings
  call : PublishCall

/-- An attempt in flight. Once its send has failed it is waiting to be appended to the file. -/
structure Flight where
  attempt : Attempt
  failed : Bool

/-- An attempt that has resolved, and how its publication went. -/
structure Resolved where
  attempt : Attempt
  published : Outcome

/-- The state of a request, with the broker's log and the fallback file as it fills them. -/
structure State where
  next : ℕ
  attempts : List Attempt
  flights : List Flight
  resolved : List Resolved
  counts : Counts
  response : Option IngestResponse
  kafka : List (ℕ × Record)
  /-- Timed-out sends whose record the broker may yet store. -/
  unsettled : List (ℕ × Record)
  fallback : List (ℕ × Record)

inductive Action where
  | subscribe (r : Readings)
  | ack (i : ℕ)
  | error (i : ℕ)
  | timeout (i : ℕ)
  | append (i : ℕ)
  | honour (i : ℕ)
  | respond

variable (props : CollectorProperties) (list : List Json)

/-- The state in which a request starts, already answered when the batch is too large. -/
def start : State where
  next := 0
  attempts := []
  flights := []
  resolved := []
  counts := .zero
  response :=
    if props.maxBatchSize < list.length then some ⟨413, list.length, ⟨0, list.length, 0⟩⟩ else none
  kafka := []
  unsettled := []
  fallback := []

/-- The attempt made for the next element. -/
def nextAttempt (s : State) (element : Json) (r : Readings) : Attempt :=
  ⟨s.next, element, r, EventIngestService.ingest r "v1_events" element⟩

/-- Which flight an action about an element is for. -/
def isFlight (i : ℕ) (failed : Bool) (f : Flight) : Bool :=
  f.attempt.index == i && f.failed == failed

/-- The flight leaves, its outcome counted. -/
def State.resolve (s : State) (i : ℕ) (f : Flight) (published : Outcome) : State :=
  { s with
    flights := s.flights.eraseP (isFlight i f.failed)
    resolved := s.resolved ++ [⟨f.attempt, published⟩]
    counts := s.counts.add (f.attempt.call.outcome published) }

/-- The flight's send has failed. -/
def State.giveUp (s : State) (i : ℕ) (f : Flight) : State :=
  { s with flights := ⟨f.attempt, true⟩ :: s.flights.eraseP (isFlight i false) }

def step (s : State) : Action → Option State
  | .subscribe r =>
    match list[s.next]? with
    | none => none
    | some element =>
      if s.flights.length < props.publishConcurrency ∧ s.response = none then
        some { s with
          next := s.next + 1
          attempts := s.attempts ++ [nextAttempt s element r]
          flights := ⟨nextAttempt s element r, false⟩ :: s.flights }
      else none
  | .ack i =>
    (s.flights.find? (isFlight i false)).map fun f =>
      { s.resolve i f .accepted with
        kafka := s.kafka ++ [(f.attempt.index, f.attempt.call.record)] }
  | .error i => (s.flights.find? (isFlight i false)).map fun f => s.giveUp i f
  | .timeout i =>
    (s.flights.find? (isFlight i false)).map fun f =>
      { s.giveUp i f with
        unsettled := (f.attempt.index, f.attempt.call.record) :: s.unsettled }
  | .append i =>
    (s.flights.find? (isFlight i true)).map fun f =>
      { s.resolve i f .fallback with
        fallback := s.fallback ++ [(f.attempt.index, f.attempt.call.record)] }
  | .honour i =>
    (s.unsettled.find? fun r => r.1 == i).map fun r =>
      { s with
        kafka := s.kafka ++ [r]
        unsettled := s.unsettled.eraseP fun r => r.1 == i }
  | .respond =>
    if s.next = list.length ∧ s.flights = [] ∧ s.response = none then
      some { s with response := some ⟨202, list.length, s.counts⟩ }
    else none

/-- The system of one request. -/
def request : Lib.System State Action := ⟨start props list, step props list⟩

/-! ## What a step does -/

/-- What each action does, and when it can. -/
inductive Steps (s : State) : Action → State → Prop
  | subscribe (r : Readings) {element : Json} (hel : list[s.next]? = some element)
      (hroom : s.flights.length < props.publishConcurrency) (hopen : s.response = none) :
      Steps s (.subscribe r) { s with
        next := s.next + 1
        attempts := s.attempts ++ [nextAttempt s element r]
        flights := ⟨nextAttempt s element r, false⟩ :: s.flights }
  | ack {i : ℕ} {f : Flight} (hf : s.flights.find? (isFlight i f.failed) = some f)
      (hfailed : f.failed = false) :
      Steps s (.ack i) { s.resolve i f .accepted with
        kafka := s.kafka ++ [(f.attempt.index, f.attempt.call.record)] }
  | error {i : ℕ} {f : Flight} (hf : s.flights.find? (isFlight i false) = some f)
      (hfailed : f.failed = false) : Steps s (.error i) (s.giveUp i f)
  | timeout {i : ℕ} {f : Flight} (hf : s.flights.find? (isFlight i false) = some f)
      (hfailed : f.failed = false) :
      Steps s (.timeout i) { s.giveUp i f with
        unsettled := (f.attempt.index, f.attempt.call.record) :: s.unsettled }
  | append {i : ℕ} {f : Flight} (hf : s.flights.find? (isFlight i f.failed) = some f)
      (hfailed : f.failed = true) :
      Steps s (.append i) { s.resolve i f .fallback with
        fallback := s.fallback ++ [(f.attempt.index, f.attempt.call.record)] }
  | honour {i : ℕ} {r : ℕ × Record} (hr : s.unsettled.find? (fun r => r.1 == i) = some r) :
      Steps s (.honour i) { s with
        kafka := s.kafka ++ [r]
        unsettled := s.unsettled.eraseP fun r => r.1 == i }
  | respond (hnext : s.next = list.length) (hflights : s.flights = []) (hopen : s.response = none) :
      Steps s .respond { s with response := some ⟨202, list.length, s.counts⟩ }

variable {props list}

/-- A flight that was found is of the element and in the state looked for. -/
theorem flight_of_find {flights : List Flight} {i : ℕ} {failed : Bool} {f : Flight}
    (h : flights.find? (isFlight i failed) = some f) :
    f.attempt.index = i ∧ f.failed = failed := by
  have hflight := List.find?_some h
  simp only [isFlight, Bool.and_eq_true, beq_iff_eq] at hflight
  exact hflight

/-- A step does what its action does. -/
theorem steps_of_step {s t : State} {a : Action} (h : step props list s a = some t) :
    Steps props list s a t := by
  cases a with
  | subscribe r =>
      simp only [step] at h
      split at h
      · cases h
      · rename_i element hel
        split_ifs at h with hguard
        obtain rfl := Option.some.inj h
        exact .subscribe r hel hguard.1 hguard.2
  | ack i =>
      obtain ⟨f, hf, rfl⟩ := Option.map_eq_some_iff.1 h
      have hfailed := (flight_of_find hf).2
      exact .ack (hfailed ▸ hf) hfailed
  | error i =>
      obtain ⟨f, hf, rfl⟩ := Option.map_eq_some_iff.1 h
      exact .error hf (flight_of_find hf).2
  | timeout i =>
      obtain ⟨f, hf, rfl⟩ := Option.map_eq_some_iff.1 h
      exact .timeout hf (flight_of_find hf).2
  | append i =>
      obtain ⟨f, hf, rfl⟩ := Option.map_eq_some_iff.1 h
      have hfailed := (flight_of_find hf).2
      exact .append (hfailed ▸ hf) hfailed
  | honour i =>
      obtain ⟨r, hr, rfl⟩ := Option.map_eq_some_iff.1 h
      exact .honour hr
  | respond =>
      simp only [step] at h
      split_ifs at h with hguard
      obtain rfl := Option.some.inj h
      exact .respond hguard.1 hguard.2.1 hguard.2.2

/-! ## The invariant of a request -/

/-- What an attempt must be: the record the element calls for. A dead letter holds the element as
it was received. -/
inductive Attempt.Faithful (a : Attempt) : Prop
  | routed {fields : Fields} {et : Instant} {topic : Topic} :
      a.element = .obj fields →
      EventIngestService.Routed a.readings.validatedAt a.element et topic →
      a.call.record = ⟨topic, EventIngestService.partitionKey a.element, Json.writeValueAsString
        (.obj (EventIngestService.enrich a.readings "v1_events" et fields))⟩ →
      a.call.invalid = false → a.Faithful
  | deadLetter {letter : Fields} {reason : String} :
      (∀ et topic, ¬ EventIngestService.Routed a.readings.validatedAt a.element et topic) →
      letter = EventIngestService.deadLetter a.readings "v1_events" reason a.element →
      letter.get "raw" = some a.element →
      a.call.record = ⟨.dlq, EventIngestService.dlqKey a.readings a.element,
        Json.writeValueAsString (.obj letter)⟩ →
      a.call.invalid = true → a.Faithful

theorem faithful_ingest (i : ℕ) (element : Json) (r : Readings) :
    Attempt.Faithful ⟨i, element, r, EventIngestService.ingest r "v1_events" element⟩ := by
  by_cases h : ∃ et topic, EventIngestService.Routed r.validatedAt element et topic
  · obtain ⟨et, topic, hr⟩ := h
    obtain ⟨fields, rfl, hcall⟩ := EventIngestService.ingest_of_routed "v1_events" hr
    exact .routed rfl hr (by rw [hcall]; rfl) (by rw [hcall])
  · push Not at h
    obtain ⟨reason, hcall⟩ := EventIngestService.ingest_of_not_routed "v1_events" h
    exact .deadLetter h rfl rfl (by rw [hcall]; rfl) (by rw [hcall]; rfl)

variable (list) in
/-- What holds of every state of a request. -/
structure Inv (s : State) : Prop where
  /-- Attempts are made in order, one for each element passed. -/
  indices : s.attempts.map Attempt.index = List.range s.next
  elements : ∀ a ∈ s.attempts, list[a.index]? = some a.element
  faithful : ∀ a ∈ s.attempts, a.Faithful
  /-- Every attempt is in flight or resolved, once. -/
  split : (s.flights.map Flight.attempt ++ s.resolved.map Resolved.attempt).Perm s.attempts
  /-- A resolved attempt is in Kafka or in the fallback file. -/
  stored : ∀ x ∈ s.resolved,
    (x.attempt.index, x.attempt.call.record) ∈ s.kafka ∨
      (x.attempt.index, x.attempt.call.record) ∈ s.fallback
  /-- The counters count the resolved attempts. -/
  counted : s.counts =
    (s.resolved.map fun x => x.attempt.call.outcome x.published).foldl Counts.add .zero

theorem next_le {s : State} (h : Inv list s) : s.next ≤ list.length := by
  by_contra hlt
  have hmem : list.length ∈ s.attempts.map Attempt.index := by
    rw [h.indices, List.mem_range]
    omega
  obtain ⟨a, ha, hidx⟩ := List.mem_map.1 hmem
  have := h.elements a ha
  rw [hidx, List.getElem?_eq_none (le_refl _)] at this
  cases this

theorem Inv.start : Inv list (start props list) where
  indices := rfl
  elements := by simp [EventController.start]
  faithful := by simp [EventController.start]
  split := .refl _
  stored := by simp [EventController.start]
  counted := rfl

/-- Resolving a flight whose record has been stored keeps the invariant. -/
theorem Inv.resolve {s : State} (h : Inv list s) {i : ℕ} {f : Flight}
    {published : Outcome} {kafka fallback : List (ℕ × Record)}
    (hf : s.flights.find? (isFlight i f.failed) = some f)
    (hkafka : ∀ r ∈ s.kafka, r ∈ kafka) (hfallback : ∀ r ∈ s.fallback, r ∈ fallback)
    (hnew : (f.attempt.index, f.attempt.call.record) ∈ kafka ∨
      (f.attempt.index, f.attempt.call.record) ∈ fallback) :
    Inv list
      { s.resolve i f published with kafka := kafka, fallback := fallback } where
  indices := h.indices
  elements := h.elements
  faithful := h.faithful
  split := by
    refine List.Perm.trans ?_ h.split
    have hperm := (Lib.perm_cons_eraseP hf).map Flight.attempt
    simp only [State.resolve, List.map_append, List.map_cons, List.map_nil]
    rw [← List.append_assoc]
    exact (List.perm_append_singleton _ _).trans (hperm.append_right _).symm
  stored := by
    intro x hx
    rcases List.mem_append.1 hx with hx | hx
    · exact (h.stored x hx).imp (hkafka _) (hfallback _)
    · obtain rfl := List.mem_singleton.1 hx
      exact hnew
  counted := by
    simp only [State.resolve, List.map_append, List.foldl_append, h.counted]
    rfl

/-- A failed send leaves its attempt in flight. -/
theorem Inv.giveUp {s : State} (h : Inv list s) {i : ℕ} {f : Flight}
    {unsettled : List (ℕ × Record)} (hf : s.flights.find? (isFlight i false) = some f) :
    Inv list { s.giveUp i f with unsettled := unsettled } where
  indices := h.indices
  elements := h.elements
  faithful := h.faithful
  split := by
    refine List.Perm.trans ?_ h.split
    exact (((Lib.perm_cons_eraseP hf).map Flight.attempt).append_right _).symm
  stored := h.stored
  counted := h.counted

theorem Inv.step {s t : State} {a : Action} (h : Inv list s)
    (hst : step props list s a = some t) : Inv list t := by
  cases steps_of_step hst with
  | @subscribe r element hel hroom hopen =>
      exact
        { indices := by simp [h.indices, List.range_succ, nextAttempt]
          elements := by
            intro a ha
            rcases List.mem_append.1 ha with ha | ha
            · exact h.elements a ha
            · obtain rfl := List.mem_singleton.1 ha
              exact hel
          faithful := by
            intro a ha
            rcases List.mem_append.1 ha with ha | ha
            · exact h.faithful a ha
            · obtain rfl := List.mem_singleton.1 ha
              exact faithful_ingest _ _ _
          split := by
            simp only [List.map_cons, List.cons_append]
            exact (h.split.cons _).trans (List.perm_append_singleton _ _).symm
          stored := h.stored
          counted := h.counted }
  | ack hf hfailed => exact h.resolve hf (by simp +contextual) (fun _ hr => hr) (.inl (by simp))
  | error hf hfailed => exact h.giveUp hf
  | timeout hf hfailed => exact h.giveUp hf
  | append hf hfailed => exact h.resolve hf (fun _ hr => hr) (by simp +contextual) (.inr (by simp))
  | honour hr =>
      exact { h with
        stored := fun x hx => (h.stored x hx).imp (fun hx => List.mem_append_left _ hx) id }
  | respond hnext hflights hopen => exact { h with }

/-! ## Where the records are -/

/-- The elements whose record is in Kafka or may still get there. -/
def State.towardsKafka (s : State) : List ℕ :=
  s.kafka.map Prod.fst ++ s.unsettled.map Prod.fst ++
    (s.flights.filter fun f => !f.failed).map fun f => f.attempt.index

/-- Every record is one of an attempt. Each is on its way to Kafka at most once, and the file holds
those whose attempt resolved by being appended. -/
structure Placed (s : State) : Prop where
  origin : ∀ r ∈ s.kafka ++ s.unsettled, ∃ a ∈ s.attempts, r = (a.index, a.call.record)
  nodup : s.towardsKafka.Nodup
  fallback : s.fallback = (s.resolved.filter fun x => x.published = .fallback).map fun x =>
    (x.attempt.index, x.attempt.call.record)

theorem Inv.mem_attempts {s : State} (h : Inv list s) {f : Flight} (hf : f ∈ s.flights) :
    f.attempt ∈ s.attempts :=
  h.split.mem_iff.1 (List.mem_append_left _ (List.mem_map_of_mem hf))

theorem Inv.index_lt {s : State} (h : Inv list s) {a : Attempt} (ha : a ∈ s.attempts) :
    a.index < s.next := by
  have hidx := List.mem_map_of_mem (f := Attempt.index) ha
  rwa [h.indices, List.mem_range] at hidx

/-- No element has been passed to Kafka before its turn. -/
theorem Placed.lt_next {s : State} (h : Placed s) (hinv : Inv list s) {i : ℕ}
    (hi : i ∈ s.towardsKafka) : i < s.next := by
  rcases List.mem_append.1 hi with hi | hi
  · rw [← List.map_append] at hi
    obtain ⟨r, hr, rfl⟩ := List.mem_map.1 hi
    obtain ⟨a, ha, rfl⟩ := h.origin r hr
    exact hinv.index_lt ha
  · obtain ⟨f, hf, rfl⟩ := List.mem_map.1 hi
    exact hinv.index_lt (hinv.mem_attempts (List.mem_filter.1 hf).1)

/-- A flight that is not failed, taken out of the flights. -/
theorem filter_perm_of_open {flights : List Flight} {p : Flight → Bool} {f : Flight}
    (hf : flights.find? p = some f) (hfailed : f.failed = false) :
    (flights.filter fun f => !f.failed).Perm
      (f :: (flights.eraseP p).filter fun f => !f.failed) := by
  have hperm := (Lib.perm_cons_eraseP hf).filter fun f => !f.failed
  rwa [List.filter_cons_of_pos (by simp [hfailed])] at hperm

theorem filter_perm_of_failed {flights : List Flight} {p : Flight → Bool} {f : Flight}
    (hf : flights.find? p = some f) (hfailed : f.failed = true) :
    (flights.filter fun f => !f.failed).Perm ((flights.eraseP p).filter fun f => !f.failed) := by
  have hperm := (Lib.perm_cons_eraseP hf).filter fun f => !f.failed
  rwa [List.filter_cons_of_neg (by simp [hfailed])] at hperm

theorem Placed.start : Placed (start props list) where
  origin := by simp [EventController.start]
  nodup := List.nodup_nil
  fallback := rfl

/-- The places of a flight taken out: what it leaves behind, after its own element. -/
theorem towardsKafka_perm {s : State} {p : Flight → Bool} {f : Flight}
    (hf : s.flights.find? p = some f) (hfailed : f.failed = false) :
    s.towardsKafka.Perm
      (f.attempt.index :: State.towardsKafka { s with flights := s.flights.eraseP p }) := by
  have hflights := (filter_perm_of_open hf hfailed).map fun f => f.attempt.index
  exact (hflights.append_left _).trans List.perm_middle

/-- Records that were there, and that of a flight. -/
theorem Placed.origin_of_flight {s : State} (h : Placed s) (hinv : Inv list s) {f : Flight}
    (hf : f ∈ s.flights) {records : List (ℕ × Record)}
    (hrecords : ∀ r ∈ records,
      r ∈ s.kafka ++ s.unsettled ∨ r = (f.attempt.index, f.attempt.call.record)) :
    ∀ r ∈ records, ∃ a ∈ s.attempts, r = (a.index, a.call.record) := by
  intro r hr
  rcases hrecords r hr with hr | rfl
  · exact h.origin r hr
  · exact ⟨f.attempt, hinv.mem_attempts hf, rfl⟩

theorem Placed.step {s t : State} {a : Action} (h : Placed s) (hinv : Inv list s)
    (hst : step props list s a = some t) : Placed t := by
  cases steps_of_step hst with
  | @subscribe r element hel hroom hopen =>
      refine ⟨?_, ?_, h.fallback⟩
      · intro r hr
        obtain ⟨a, ha, hra⟩ := h.origin r hr
        exact ⟨a, List.mem_append_left _ ha, hra⟩
      · -- the next element joins as the first of the flights
        have hnext : (s.next :: s.towardsKafka).Nodup :=
          List.nodup_cons.2 ⟨fun hmem => lt_irrefl _ (h.lt_next hinv hmem), h.nodup⟩
        exact List.perm_middle.symm.nodup hnext
  | @ack i f hf hfailed =>
      refine ⟨h.origin_of_flight hinv (List.mem_of_find?_eq_some hf) ?_, ?_, ?_⟩
      · simp only [State.resolve, List.mem_append, List.mem_singleton]
        tauto
      · refine List.Perm.nodup (List.Perm.trans (towardsKafka_perm hf hfailed) ?_) h.nodup
        simp only [State.towardsKafka, State.resolve, List.map_append, List.map_cons, List.map_nil,
          List.append_assoc]
        exact List.perm_middle.symm
      · simp [State.resolve, h.fallback, List.filter_append]
  | error hf hfailed =>
      refine ⟨h.origin, ?_, h.fallback⟩
      have hnodup := (towardsKafka_perm hf hfailed).nodup h.nodup
      exact (List.nodup_cons.1 hnodup).2
  | @timeout i f hf hfailed =>
      refine ⟨h.origin_of_flight hinv (List.mem_of_find?_eq_some hf) ?_, ?_, h.fallback⟩
      · simp only [State.giveUp, List.mem_append, List.mem_cons]
        tauto
      · refine List.Perm.nodup (List.Perm.trans (towardsKafka_perm hf hfailed) ?_) h.nodup
        simp only [State.towardsKafka, State.giveUp, List.map_cons, List.append_assoc,
          List.cons_append]
        exact List.perm_middle.symm
  | @append i f hf hfailed =>
      refine ⟨h.origin, ?_, ?_⟩
      · refine List.Perm.nodup ?_ h.nodup
        exact ((filter_perm_of_failed hf hfailed).map _).append_left _
      · simp [State.resolve, h.fallback, List.filter_append]
  | @honour i r hr =>
      have hunsettled := Lib.perm_cons_eraseP hr
      refine ⟨?_, ?_, h.fallback⟩
      · intro r' hr'
        refine h.origin r' ?_
        rw [List.mem_append, hunsettled.mem_iff]
        simp only [List.mem_append, List.mem_cons] at hr' ⊢
        tauto
      · refine List.Perm.nodup ?_ h.nodup
        refine List.Perm.append_right _ ?_
        simp only [List.map_append, List.map_cons, List.map_nil, List.append_assoc]
        exact (hunsettled.map _).append_left _
  | respond hnext hflights hopen => exact ⟨h.origin, h.nodup, h.fallback⟩

/-- The elements whose attempt has resolved are distinct. -/
theorem Inv.nodup_resolved {s : State} (h : Inv list s) :
    (s.resolved.map fun x => x.attempt.index).Nodup := by
  have hattempts : (s.attempts.map Attempt.index).Nodup := by
    rw [h.indices]
    exact List.nodup_range
  have hsplit := (h.split.map Attempt.index).nodup_iff.2 hattempts
  rw [List.map_append, List.map_map, List.map_map] at hsplit
  exact (List.nodup_append.1 hsplit).2.1

/-- Why a record is in Kafka: its element was acknowledged, or the broker honoured it after a
timeout. -/
structure Arrived (actions : List Action) (s : State) : Prop where
  unsettled : ∀ r ∈ s.unsettled, .timeout r.1 ∈ actions
  kafka : ∀ r ∈ s.kafka,
    (∃ x ∈ s.resolved, x.published = .accepted ∧ x.attempt.index = r.1) ∨
      .timeout r.1 ∈ actions ∧ .honour r.1 ∈ actions

/-- More actions and more resolved attempts leave the reasons as they are. -/
theorem Arrived.mono {actions : List Action} {s t : State} (h : Arrived actions s) (a : Action)
    (hunsettled : ∀ r ∈ t.unsettled, r ∈ s.unsettled ∨ a = .timeout r.1)
    (hresolved : ∀ x ∈ s.resolved, x ∈ t.resolved)
    (hkafka : ∀ r ∈ t.kafka, r ∈ s.kafka ∨
      (∃ x ∈ t.resolved, x.published = .accepted ∧ x.attempt.index = r.1) ∨
      r ∈ s.unsettled ∧ a = .honour r.1) : Arrived (actions ++ [a]) t where
  unsettled := by
    intro r hr
    rcases hunsettled r hr with hr | rfl
    · exact List.mem_append_left _ (h.unsettled r hr)
    · simp
  kafka := by
    intro r hr
    rcases hkafka r hr with hr | hx | ⟨hr, rfl⟩
    · refine (h.kafka r hr).imp ?_ (And.imp (List.mem_append_left _) (List.mem_append_left _))
      exact fun ⟨x, hx, hpublished, hindex⟩ => ⟨x, hresolved x hx, hpublished, hindex⟩
    · exact .inl hx
    · exact .inr ⟨List.mem_append_left _ (h.unsettled r hr), by simp⟩

theorem Arrived.step {actions : List Action} {s t : State} {a : Action} (h : Arrived actions s)
    (hst : step props list s a = some t) : Arrived (actions ++ [a]) t := by
  cases steps_of_step hst with
  | subscribe r hel hroom hopen =>
      exact h.mono _ (fun _ hr => .inl hr) (fun _ hx => hx) fun _ hr => .inl hr
  | @ack i f hf hfailed =>
      refine h.mono _ (fun _ hr => .inl hr) (fun _ hx => List.mem_append_left _ hx) ?_
      intro r hr
      rcases List.mem_append.1 hr with hr | hr
      · exact .inl hr
      · obtain rfl := List.mem_singleton.1 hr
        exact .inr (.inl ⟨⟨f.attempt, .accepted⟩, by simp [State.resolve], rfl, rfl⟩)
  | error hf hfailed => exact h.mono _ (fun _ hr => .inl hr) (fun _ hx => hx) fun _ hr => .inl hr
  | @timeout i f hf hfailed =>
      refine h.mono _ ?_ (fun _ hx => hx) fun _ hr => .inl hr
      intro r hr
      rcases List.mem_cons.1 hr with rfl | hr
      · exact .inr (by rw [(flight_of_find hf).1])
      · exact .inl hr
  | append hf hfailed =>
      exact h.mono _ (fun _ hr => .inl hr) (fun _ hx => List.mem_append_left _ hx)
        fun _ hr => .inl hr
  | @honour i r hr =>
      have hindex : r.1 = i := by simpa using List.find?_some hr
      refine h.mono _ (fun _ hr => .inl (List.mem_of_mem_eraseP hr)) (fun _ hx => hx) ?_
      intro r' hr'
      rcases List.mem_append.1 hr' with hr' | hr'
      · exact .inl hr'
      · obtain rfl := List.mem_singleton.1 hr'
        exact .inr (.inr ⟨List.mem_of_find?_eq_some hr, by rw [hindex]⟩)
  | respond hnext hflights hopen =>
      exact h.mono _ (fun _ hr => .inl hr) (fun _ hx => hx) fun _ hr => .inl hr

/-- A record in Kafka whose element is in the file too got there after a timeout. -/
theorem Arrived.of_both {actions : List Action} {s : State} (h : Arrived actions s)
    (hinv : Inv list s) (hplaced : Placed s) {i : ℕ} (hkafka : i ∈ s.kafka.map Prod.fst)
    (hfallback : i ∈ s.fallback.map Prod.fst) : .timeout i ∈ actions ∧ .honour i ∈ actions := by
  obtain ⟨r, hr, rfl⟩ := List.mem_map.1 hkafka
  rcases h.kafka r hr with ⟨x, hx, haccepted, hindex⟩ | harrived
  · -- one attempt cannot have been acknowledged and appended
    rw [hplaced.fallback, List.map_map] at hfallback
    obtain ⟨y, hy, hyindex⟩ := List.mem_map.1 hfallback
    obtain ⟨hy, happended⟩ := List.mem_filter.1 hy
    obtain rfl := List.inj_on_of_nodup_map hinv.nodup_resolved hx hy (hindex.trans hyindex.symm)
    simp [haccepted] at happended
  · exact harrived

/-! ## The answer -/

/-- An accepted batch is answered once, after every element has resolved. -/
def Closed (list : List Json) (s : State) : Prop :=
  ∀ resp, s.response = some resp →
    resp = ⟨202, list.length, s.counts⟩ ∧ s.next = list.length ∧ s.flights = []

theorem Closed.step {s t : State} {a : Action} (h : Closed list s)
    (hst : step props list s a = some t) : Closed list t := by
  -- while there is a flight there is no answer
  have hflight : ∀ {i : ℕ} {b : Bool} {f : Flight}, s.flights.find? (isFlight i b) = some f →
      s.response = none := by
    intro i b f hf
    by_contra hresp
    obtain ⟨resp, hresp⟩ := Option.ne_none_iff_exists'.1 hresp
    rw [(h resp hresp).2.2] at hf
    cases hf
  have hunanswered : ∀ {u : State}, u.response = s.response → s.response = none →
      Closed list u := by
    intro u hu hnone resp hresp
    rw [hu, hnone] at hresp
    cases hresp
  cases steps_of_step hst with
  | subscribe r hel hroom hopen => exact hunanswered rfl hopen
  | ack hf hfailed => exact hunanswered rfl (hflight hf)
  | error hf hfailed => exact hunanswered rfl (hflight hf)
  | timeout hf hfailed => exact hunanswered rfl (hflight hf)
  | append hf hfailed => exact hunanswered rfl (hflight hf)
  | honour hr => exact h
  | respond hnext hflights hopen =>
      intro resp hresp
      obtain rfl := Option.some.inj hresp
      exact ⟨rfl, hnext, hflights⟩

/-- A batch that is too large stays as it starts. -/
theorem eq_start_of_tooLarge (h : props.maxBatchSize < list.length) {s : State}
    (hs : (request props list).Reachable s) : s = start props list := by
  refine hs.invariant (I := fun s => s = start props list) rfl ?_
  rintro s a t rfl hst
  have hanswered : (start props list).response ≠ none := by
    rw [start, if_pos h]
    exact Option.some_ne_none _
  cases steps_of_step hst with
  | subscribe r hel hroom hopen => exact absurd hopen hanswered
  | ack hf hfailed => cases hf
  | error hf hfailed => cases hf
  | timeout hf hfailed => cases hf
  | append hf hfailed => cases hf
  | honour hr => cases hr
  | respond hnext hflights hopen => exact absurd hopen hanswered

/-! ## Every request is answered -/

/-- How much a flight still has to do. -/
def Flight.weight (f : Flight) : ℕ := if f.failed then 1 else 3

/-- A bound on the steps still to come. -/
def remaining (list : List Json) (s : State) : ℕ :=
  4 * (list.length - s.next) + (s.flights.map Flight.weight).sum + s.unsettled.length +
    if s.response.isNone then 1 else 0

/-- The weights with one flight taken out. -/
theorem sum_weight_eraseP {flights : List Flight} {p : Flight → Bool} {f : Flight}
    (h : flights.find? p = some f) :
    (flights.map Flight.weight).sum = f.weight + ((flights.eraseP p).map Flight.weight).sum := by
  have := ((Lib.perm_cons_eraseP h).map Flight.weight).sum_eq
  simpa using this

theorem remaining_step {s t : State} {a : Action}
    (hst : step props list s a = some t) :
    remaining list t < remaining list s := by
  cases steps_of_step hst with
  | @subscribe r element hel hroom hopen =>
      have hlt := (List.getElem?_eq_some_iff.1 hel).1
      simp only [remaining, Flight.weight, List.map_cons, List.sum_cons, Bool.false_eq_true,
        if_false]
      omega
  | ack hf hfailed =>
      have hsum := sum_weight_eraseP hf
      simp only [Flight.weight, hfailed] at hsum
      simp only [remaining, State.resolve, hfailed]
      simp at hsum ⊢
      omega
  | error hf hfailed =>
      have hsum := sum_weight_eraseP hf
      simp only [Flight.weight, hfailed] at hsum
      simp only [remaining, State.giveUp, Flight.weight, List.map_cons, List.sum_cons]
      simp at hsum ⊢
      omega
  | timeout hf hfailed =>
      have hsum := sum_weight_eraseP hf
      simp only [Flight.weight, hfailed] at hsum
      simp only [remaining, State.giveUp, Flight.weight, List.map_cons, List.sum_cons,
        List.length_cons]
      simp at hsum ⊢
      omega
  | append hf hfailed =>
      have hsum := sum_weight_eraseP hf
      simp only [Flight.weight, hfailed] at hsum
      simp only [remaining, State.resolve, hfailed]
      simp at hsum ⊢
      omega
  | honour hr =>
      have hlen := (Lib.perm_cons_eraseP hr).length_eq
      simp only [remaining]
      simp only [List.length_cons] at hlen
      omega
  | respond hnext hflights hopen => simp [remaining, hopen]

/-- An unanswered request can take a step, without waiting for a timed-out record. -/
theorem exists_step_of_unanswered {s : State} (h : Inv list s) (hopen : s.response = none) :
    ∃ a, (∀ i, a ≠ .honour i) ∧ (step props list s a).isSome := by
  cases hflights : s.flights with
  | cons f flights =>
      have hfind : s.flights.find? (isFlight f.attempt.index f.failed) = some f := by
        rw [hflights, List.find?_cons_of_pos (by simp [isFlight])]
      cases hfailed : f.failed with
      | false =>
          rw [hfailed] at hfind
          exact ⟨.ack f.attempt.index, by simp, by simp [step, hfind]⟩
      | true =>
          rw [hfailed] at hfind
          exact ⟨.append f.attempt.index, by simp, by simp [step, hfind]⟩
  | nil =>
      rcases Nat.lt_or_eq_of_le (next_le h) with hlt | heq
      · have hel := List.getElem?_eq_getElem hlt
        have hroom : s.flights.length < props.publishConcurrency := by
          rw [hflights]
          exact props.concurrency_pos
        exact ⟨.subscribe ⟨⟨0⟩, ⟨0⟩, ""⟩, by simp, by simp only [step, hel, hroom, hopen]; simp⟩
      · exact ⟨.respond, by simp, by simp [step, heq, hflights, hopen]⟩

theorem inv_placed {s : State} (hs : (request props list).Reachable s) : Inv list s ∧ Placed s :=
  hs.invariant (I := fun s => Inv list s ∧ Placed s) ⟨.start, .start⟩
    fun _ _ _ h hst => ⟨h.1.step hst, h.2.step h.1 hst⟩

theorem arrived_of_run {actions : List Action} {s : State}
    (h : (request props list).run (start props list) actions = some s) : Arrived actions s :=
  Lib.System.run_invariant (I := Arrived) ⟨by simp [start], by simp [start]⟩
    (fun _ _ _ _ _ harrived hst => harrived.step hst) h

/-- The elements of the attempts made are the elements of the list, in order. -/
theorem elements_of_complete {s : State} (h : Inv list s) (hnext : s.next = list.length) :
    s.attempts.map Attempt.element = list := by
  have hlen : s.attempts.length = list.length := by
    rw [← hnext, ← List.length_map Attempt.index, h.indices, List.length_range]
  refine List.ext_getElem (by simpa using hlen) fun i hi hi' => ?_
  have hia : i < s.attempts.length := by simpa using hi
  have hidx : s.attempts[i].index = i := by
    have hi' : i < s.next := by rwa [hnext, ← hlen]
    have := congrArg (fun l : List ℕ => l[i]?) h.indices
    simpa [hia, hi'] using this
  have hel := h.elements _ (List.getElem_mem hia)
  rw [hidx, List.getElem?_eq_getElem hi', Option.some.injEq] at hel
  simpa using hel.symm

theorem total_foldl_add (outcomes : List Outcome) (c : Counts) :
    (outcomes.foldl Counts.add c).total = c.total + outcomes.length := by
  induction outcomes generalizing c with
  | nil => rfl
  | cons o outcomes ih =>
      rw [List.foldl_cons, ih, Counts.total_add, List.length_cons]
      omega

/-- Each attempt is in flight, in Kafka or in the file. -/
theorem Inv.placed {s : State} (h : Inv list s) {a : Attempt} (ha : a ∈ s.attempts) :
    a ∈ s.flights.map Flight.attempt ∨
      (a.index, a.call.record) ∈ s.kafka ∨ (a.index, a.call.record) ∈ s.fallback := by
  rcases List.mem_append.1 (h.split.mem_iff.2 ha) with hfl | hres
  · exact .inl hfl
  · obtain ⟨x, hx, rfl⟩ := List.mem_map.1 hres
    exact .inr (h.stored x hx)

theorem Placed.stored {s : State} (h : Placed s) (hinv : Inv list s) :
    ∀ r ∈ s.kafka ++ s.fallback, ∃ a ∈ s.attempts, r = (a.index, a.call.record) := by
  intro r hr
  rcases List.mem_append.1 hr with hr | hr
  · exact h.origin r (List.mem_append_left _ hr)
  · rw [h.fallback] at hr
    obtain ⟨x, hx, rfl⟩ := List.mem_map.1 hr
    have hattempt := List.mem_map_of_mem (f := Resolved.attempt) (List.mem_filter.1 hx).1
    exact ⟨x.attempt, hinv.split.mem_iff.1 (List.mem_append_right _ hattempt), rfl⟩

/-- An element is in Kafka at most once. -/
theorem Placed.nodup_kafka {s : State} (h : Placed s) : (s.kafka.map Prod.fst).Nodup := by
  have hnodup := h.nodup
  rw [State.towardsKafka, List.append_assoc] at hnodup
  exact (List.nodup_append.1 hnodup).1

/-- An element is in the file at most once. -/
theorem Placed.nodup_fallback {s : State} (h : Placed s) (hinv : Inv list s) :
    (s.fallback.map Prod.fst).Nodup := by
  rw [h.fallback, List.map_map]
  exact hinv.nodup_resolved.sublist (List.filter_sublist.map _)

/-- The answer counts every element. -/
theorem total_counts {s : State} (h : Inv list s) (hnext : s.next = list.length)
    (hflights : s.flights = []) : list.length = s.counts.total := by
  have hattempts : s.attempts.length = list.length := by
    rw [← hnext, ← List.length_map Attempt.index, h.indices, List.length_range]
  have hlen := h.split.length_eq
  rw [hflights, List.map_nil, List.nil_append, List.length_map] at hlen
  rw [h.counted, total_foldl_add, Counts.total_zero, List.length_map]
  omega

/-- What a request owes to the events it was sent. -/
structure AccountedOnce (props : CollectorProperties) (list : List Json) (s : State) : Prop where
  /-- Each element so far has given rise to one attempt. -/
  once : s.attempts.map Attempt.index = List.range s.next
  elements : ∀ a ∈ s.attempts, list[a.index]? = some a.element
  /-- Each attempt is the one the element calls for. -/
  faithful : ∀ a ∈ s.attempts, a.Faithful
  /-- Each attempt is in flight, in Kafka or in the fallback file. -/
  neverLost : ∀ a ∈ s.attempts, a ∈ s.flights.map Flight.attempt ∨
    (a.index, a.call.record) ∈ s.kafka ∨ (a.index, a.call.record) ∈ s.fallback
  /-- Nothing else is stored, and no attempt twice in one place. -/
  stored : ∀ r ∈ s.kafka ++ s.fallback, ∃ a ∈ s.attempts, r = (a.index, a.call.record)
  inKafkaOnce : (s.kafka.map Prod.fst).Nodup
  inFileOnce : (s.fallback.map Prod.fst).Nodup
  /-- It is in both only when the broker honoured it after its timeout. -/
  inBoth : ∀ actions, (request props list).run (start props list) actions = some s →
    ∀ i ∈ s.kafka.map Prod.fst, i ∈ s.fallback.map Prod.fst →
      .timeout i ∈ actions ∧ .honour i ∈ actions
  /-- The answer comes when every element has been attempted and stored, and counts them all. -/
  answered : ∀ resp, s.response = some resp → resp.status = 202 ∧
    s.attempts.map Attempt.element = list ∧ s.flights = [] ∧
    resp.received = list.length ∧ resp.received = resp.counts.total
  /-- Some step is enabled until the answer is given, and no run is longer than the bound. -/
  progress : s.response = none → ∃ a, (∀ i, a ≠ .honour i) ∧ (step props list s a).isSome
  bounded : ∀ actions t, (request props list).run s actions = some t →
    actions.length ≤ 4 * list.length + 1

end EventController

end AdPipeline.Collector
