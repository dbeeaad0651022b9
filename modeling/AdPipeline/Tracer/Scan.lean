import AdPipeline.Lib.Cursor
import AdPipeline.Lib.Keyed
import AdPipeline.Tracer.Send

/-!
# Following a trace in Kafka

Before it sends the events of a trace, the tracer asks for the end of every partition it watches.
Each time the trace is looked at, `scan_kafka` reads on from there and keeps what mentions an id of
the trace. Requests for several traces share one consumer under a lock, records keep arriving, and
a scan stops at its deadline, or with an exception at a record it cannot handle.

`Inv` is that the list of a trace is nevertheless exact: what it shows of a partition is what there
is to find between the offset the trace began with and the one it has reached.
-/

namespace AdPipeline.Tracer

open Lib

/-- `WATCH_TOPICS`. -/
inductive WatchTopic where
  | impression
  | quartile
  | click
  | request
  | behavior
  | dlq
  | late
deriving DecidableEq

/-- A partition of a topic. -/
abbrev Partition := WatchTopic × ℕ

/-- Offsets by partition; not all of them are known. -/
abbrev Offsets := Partition → Option ℕ

/-! ## Records -/

/-- An entry of `ids`. -/
structure TracedId where
  eventId : String
  /-- `"match"`. -/
  matchField : Option String

/-- The `ids` that `send` returns. The call of the ad decision service may fail. -/
def ids (kind : TraceKind) (d : Draws) (answered : Bool) : List TracedId :=
  match kind with
  | .normal => [⟨d.eventId, none⟩]
  | .duplicate => [⟨d.eventId, none⟩]
  | .ssai => [⟨d.eventId, none⟩, ⟨d.twinId, none⟩]
  | .late => [⟨d.eventId, none⟩]
  | .badSchema => [⟨d.eventId, none⟩]
  | .forged => [⟨d.eventId, none⟩]
  | .adRequest => if answered then [⟨d.arid, some "ad_request_id"⟩] else []

/-- `match_field`. -/
def matchFieldOf (ids : List TracedId) : String :=
  (ids.head?.bind TracedId.matchField).getD "event_id"

/-- What is shown of a record besides where it is. -/
structure Details where
  reason : Option Json
  latenessMs : Option Json
  source : Option Json

/-- `cand`. A dead letter has the original under `raw`. -/
def candidates (matchField : String) (d : Fields) : List (Option Json) :=
  let raw :=
    match d.get "raw" with
    | some (.obj raw) =>
      [Fields.get raw "event_id", Fields.get raw "eid", Fields.get raw "ad_request_id"]
    | _ => []
  [d.get matchField, d.get "event_id", d.get "ad_request_id"] ++ raw

/-- What the body of the loop does with a record. -/
inductive Look where
  /-- An exception ends the scan. -/
  | raised
  | skipped
  | sighted (details : Details)

def Look.details? : Look → Option Details
  | sighted details => some details
  | _ => none

def Look.isRaised : Look → Bool
  | raised => true
  | _ => false

/-- The value is the text of an id of the trace. -/
def isTarget (ids : List TracedId) : Option Json → Bool
  | some (.str s) => ids.any fun i => i.eventId = s
  | _ => false

/-- The body of the loop of `scan_kafka`, on what `json.loads` makes of the value of a record. What
is no object has no `get`, and a list or an object cannot be put into a set. -/
def look (ids : List TracedId) : Option Json → Look
  | none => .skipped
  | some (.obj d) =>
    let cand := candidates (matchFieldOf ids) d
    if cand.any (Option.any Json.isContainer) then .raised
    else if cand.any (isTarget ids) then
      .sighted ⟨Fields.get d "reason", Fields.get d "lateness_ms", Fields.get d "source"⟩
    else .skipped
  | some _ => .raised

/-! ## Traces and the lock -/

/-- A call of `api_send`, and what it keeps in `TRACES`. -/
structure Trace where
  /-- The trace is in `TRACES`, or was. -/
  registered : Bool
  ids : List TracedId
  /-- What `end_offsets` returned. The tracer does not keep it. -/
  opened : Offsets
  offsets : Offsets
  kafka : List (Partition × ℕ × Details)

namespace Trace

/-- The call has only begun. -/
def begun : Trace := ⟨false, [], fun _ => none, fun _ => none, []⟩

/-- The trace as a reader of the partitions. -/
def cursor (tr : Trace) : Cursor Partition Details := ⟨tr.opened, tr.offsets, tr.kafka⟩

/-- What the trace shows of a record. -/
def find (tr : Trace) (value : Option Json) : Option Details := (look tr.ids value).details?

/-- The high watermark of a partition is asked for. -/
def measure (tr : Trace) (p : Partition) (high : ℕ) : Trace :=
  { tr with
    opened := Function.update tr.opened p (some high)
    offsets := Function.update tr.offsets p (some high) }

/-- The record at offset `i` of a partition was polled. -/
def poll (tr : Trace) (p : Partition) (i : ℕ) (value : Option Json) : Trace :=
  { tr with
    offsets := Function.update tr.offsets p (some (i + 1))
    kafka := tr.kafka ++ ((tr.find value).map fun details => (p, i, details)).toList }

end Trace

/-- Who holds `_kafka_lock`. -/
inductive Holder where
  /-- `end_offsets`, for a call of `api_send`. -/
  | measuring (n : ℕ)
  /-- `scan_kafka`, with the positions of the consumer. -/
  | scanning (n : ℕ) (position : Offsets)

/-- The partitions and the tracer. The calls of `api_send` are numbered. -/
structure State where
  log : Partition → List (Option Json)
  traces : ℕ → Trace
  /-- `TRACES`, in the order of insertion. -/
  registry : List (String × ℕ)
  /-- The traces of the requests that have not got the lock yet. -/
  requests : List ℕ
  lock : Option Holder

inductive Action where
  /-- Anyone appends a record. -/
  | produce (p : Partition) (value : Option Json)
  /-- `end_offsets` begins. -/
  | measureBegin (n : ℕ)
  | measure (p : Partition)
  | measureEnd
  /-- `send` has returned, and the trace is put into `TRACES`. -/
  | register (n : ℕ) (traceId : String) (kind : TraceKind) (d : Draws) (answered : Bool)
  /-- `api_trace` has found its trace, which may be dropped from `TRACES` before it is scanned. -/
  | request (traceId : String)
  /-- `scan_kafka` begins for one of the requests; the metadata may lack a topic. -/
  | scanBegin (n : ℕ) (known : WatchTopic → Bool)
  | poll (p : Partition)
  /-- The deadline has passed. -/
  | scanEnd

/-- `TRACES[trace_id] = tr`, and then only the last twenty are kept. -/
def keep (traceId : String) (n : ℕ) (registry : List (String × ℕ)) : List (String × ℕ) :=
  let traces := upsert Prod.fst (traceId, n) registry
  traces.drop (traces.length - 20)

/-- The call is not over, and `end_offsets` is not running for it. -/
def State.mayRegister (s : State) (n : ℕ) : Bool :=
  !(s.traces n).registered &&
    match s.lock with
    | some (.measuring m) => m ≠ n
    | _ => true

def State.setTrace (s : State) (n : ℕ) (tr : Trace) : State :=
  { s with traces := Function.update s.traces n tr }

def step (s : State) : Action → Option State
  | .produce p value => some { s with log := Function.update s.log p (s.log p ++ [value]) }
  | .measureBegin n =>
    if s.lock.isNone && !(s.traces n).registered then
      some { s with lock := some (.measuring n) }
    else none
  | .measure p =>
    match s.lock with
    | some (.measuring n) =>
      some (s.setTrace n ((s.traces n).measure p (s.log p).length))
    | _ => none
  | .measureEnd =>
    match s.lock with
    | some (.measuring _) => some { s with lock := none }
    | _ => none
  | .register n traceId kind d answered =>
    if s.mayRegister n then
      some { s.setTrace n { s.traces n with registered := true, ids := ids kind d answered } with
        registry := keep traceId n s.registry }
    else none
  | .request traceId =>
    (entry traceId s.registry).map fun n => { s with requests := n :: s.requests }
  | .scanBegin n known =>
    if s.lock.isNone && n ∈ s.requests then
      some { s with
        requests := s.requests.erase n
        lock := some (.scanning n fun p => if known p.1 then (s.traces n).offsets p else none) }
    else none
  | .poll p =>
    match s.lock with
    | some (.scanning n position) =>
      (position p).bind fun i =>
        (s.log p)[i]?.map fun value =>
          { s.setTrace n ((s.traces n).poll p i value) with
            -- the exception leaves the `with` block before the consumer is unassigned
            lock := if (look (s.traces n).ids value).isRaised then none
              else some (.scanning n (Function.update position p (some (i + 1)))) }
    | _ => none
  | .scanEnd =>
    match s.lock with
    | some (.scanning _ _) => some { s with lock := none }
    | _ => none

/-- The tracer, on partitions that may hold records already. -/
def system (log : Partition → List (Option Json)) : System State Action where
  init := ⟨log, fun _ => .begun, [], [], none⟩
  step := step

/-! ## The invariant -/

variable {log : Partition → List (Option Json)} {s t : State} {tr : Trace} {n : ℕ}

/-- A trace shows what there is to show, and nothing before it is registered. -/
structure Trace.Sound (log : Partition → List (Option Json)) (tr : Trace) : Prop where
  exact : tr.cursor.Exact tr.find log
  unread : tr.registered = false → tr.cursor = Cursor.opened tr.opened

/-- What holds between any two steps. Only the holder of the lock moves the offsets of a trace, so
they are where its consumer is. -/
structure Inv (s : State) : Prop where
  sound : ∀ n, (s.traces n).Sound s.log
  measuring : ∀ n, s.lock = some (.measuring n) → (s.traces n).registered = false
  scanning : ∀ n position, s.lock = some (.scanning n position) →
    (s.traces n).registered = true ∧ ∀ p i, position p = some i → (s.traces n).offsets p = some i
  registered : ∀ x ∈ s.registry, (s.traces x.2).registered = true
  requested : ∀ n ∈ s.requests, (s.traces n).registered = true
  keys : (s.registry.map Prod.fst).Nodup
  recent : s.registry.length ≤ 20

@[simp] theorem setTrace_traces_self (s : State) (n : ℕ) (tr : Trace) :
    (s.setTrace n tr).traces n = tr := Function.update_self _ _ _

theorem setTrace_traces_of_ne (s : State) {n m : ℕ} (h : m ≠ n) (tr : Trace) :
    (s.setTrace n tr).traces m = s.traces m := Function.update_of_ne h _ _

/-- A property of all traces is kept when one of them is replaced by another that has it. -/
theorem forall_setTrace {P : Trace → Prop} (h : ∀ m, P (s.traces m)) (htr : P tr) (m : ℕ) :
    P ((s.setTrace n tr).traces m) := by
  by_cases hm : m = n
  · subst hm
    rwa [setTrace_traces_self]
  · rw [setTrace_traces_of_ne s hm]
    exact h m

theorem registered_setTrace (h : tr.registered = (s.traces n).registered) (m : ℕ) :
    ((s.setTrace n tr).traces m).registered = (s.traces m).registered := by
  by_cases hm : m = n
  · subst hm
    rwa [setTrace_traces_self]
  · rw [setTrace_traces_of_ne s hm]

theorem inv_init : Inv (system log).init where
  sound _ := ⟨Cursor.exact_opened (fun _ _ h => by cases h), fun _ => rfl⟩
  measuring _ h := by cases h
  scanning _ _ h := by cases h
  registered _ hx := absurd hx List.not_mem_nil
  requested _ hx := absurd hx List.not_mem_nil
  keys := List.nodup_nil
  recent := Nat.zero_le _

theorem prefix_update_append (log : Partition → List (Option Json)) (p : Partition)
    (value : Option Json) (q : Partition) :
    log q <+: Function.update log p (log p ++ [value]) q := by
  by_cases hq : q = p
  · subst hq
    rw [Function.update_self]
    exact List.prefix_append _ _
  · rw [Function.update_of_ne hq]

theorem Inv.produce (h : Inv s) (p : Partition) (value : Option Json) :
    Inv { s with log := Function.update s.log p (s.log p ++ [value]) } where
  sound n := ⟨(h.sound n).exact.grow (prefix_update_append s.log p value), (h.sound n).unread⟩
  measuring := h.measuring
  scanning := h.scanning
  registered := h.registered
  requested := h.requested
  keys := h.keys
  recent := h.recent

theorem Inv.release (h : Inv s) : Inv { s with lock := none } where
  sound := h.sound
  measuring _ hlock := by cases hlock
  scanning _ _ hlock := by cases hlock
  registered := h.registered
  requested := h.requested
  keys := h.keys
  recent := h.recent

theorem Inv.measureBegin (h : Inv s) (hn : (s.traces n).registered = false) :
    Inv { s with lock := some (.measuring n) } where
  sound := h.sound
  measuring m hlock := by
    obtain rfl : n = m := by simpa using hlock
    exact hn
  scanning _ _ hlock := by cases hlock
  registered := h.registered
  requested := h.requested
  keys := h.keys
  recent := h.recent

theorem sound_measure (h : tr.Sound s.log) (hcall : tr.registered = false) (p : Partition) :
    (tr.measure p (s.log p).length).Sound s.log := by
  have hunread := h.unread hcall
  have hcursor : (tr.measure p (s.log p).length).cursor =
      Cursor.opened (Function.update tr.opened p (some (s.log p).length)) := by
    have hoffsets : tr.offsets = tr.opened := congrArg Cursor.next hunread
    have hkafka : tr.kafka = [] := congrArg Cursor.found hunread
    rw [Trace.cursor, Trace.measure, Cursor.opened, hoffsets, hkafka]
  refine ⟨?_, fun _ => hcursor⟩
  rw [hcursor]
  refine Cursor.exact_opened fun q a hq => ?_
  by_cases hqp : q = p
  · subst hqp
    rw [Function.update_self] at hq
    exact (Option.some.inj hq).ge
  · rw [Function.update_of_ne hqp] at hq
    obtain ⟨b, -, hab, hb, -⟩ := h.exact.present q a hq
    exact hab.trans hb

theorem Inv.measure (h : Inv s) (hlock : s.lock = some (.measuring n)) (p : Partition) :
    Inv (s.setTrace n ((s.traces n).measure p (s.log p).length)) := by
  have hkept : ∀ m, ((s.setTrace n ((s.traces n).measure p (s.log p).length)).traces m).registered =
      (s.traces m).registered := registered_setTrace rfl
  exact {
    sound := forall_setTrace h.sound (sound_measure (h.sound n) (h.measuring n hlock) p)
    measuring := fun m hm => (hkept m).trans (h.measuring m hm)
    scanning := fun m position hm => by
      have hm' : s.lock = some (.scanning m position) := hm
      rw [hlock] at hm'
      cases hm'
    registered := fun x hx => (hkept x.2).trans (h.registered x hx)
    requested := fun m hm => (hkept m).trans (h.requested m hm)
    keys := h.keys
    recent := h.recent }

theorem mem_keep {traceId : String} {registry : List (String × ℕ)} {x : String × ℕ}
    (hkeys : (registry.map Prod.fst).Nodup) (h : x ∈ keep traceId n registry) :
    x.2 = n ∨ x ∈ registry := by
  rcases (mem_upsert hkeys).1 (List.mem_of_mem_drop h) with rfl | ⟨hx, -⟩
  · exact .inl rfl
  · exact .inr hx

theorem nodup_keys_keep (traceId : String) (n : ℕ) {registry : List (String × ℕ)}
    (h : (registry.map Prod.fst).Nodup) : ((keep traceId n registry).map Prod.fst).Nodup := by
  rw [keep, List.map_drop]
  exact (nodup_keys_upsert h).sublist (List.drop_sublist _ _)

theorem length_keep_le (traceId : String) (n : ℕ) (registry : List (String × ℕ)) :
    (keep traceId n registry).length ≤ 20 := by
  rw [keep, List.length_drop]
  omega

theorem ne_of_mayRegister (h : s.mayRegister n = true) :
    (s.traces n).registered = false ∧ s.lock ≠ some (.measuring n) := by
  rw [State.mayRegister, Bool.and_eq_true, Bool.not_eq_true'] at h
  refine ⟨h.1, fun hlock => ?_⟩
  rw [hlock] at h
  simp at h

/-- Other ids look for other records, but nothing is read yet. -/
theorem sound_register (h : tr.Sound s.log) (hcall : tr.registered = false)
    (newIds : List TracedId) :
    ({ tr with registered := true, ids := newIds } : Trace).Sound s.log := by
  refine ⟨?_, fun hno => by cases hno⟩
  have hcursor : ({ tr with registered := true, ids := newIds } : Trace).cursor =
      Cursor.opened tr.opened := h.unread hcall
  rw [hcursor]
  refine Cursor.exact_opened fun p a hp => ?_
  obtain ⟨b, -, hab, hb, -⟩ := h.exact.present p a hp
  exact hab.trans hb

theorem Inv.register (h : Inv s) (hn : s.mayRegister n = true) (traceId : String)
    (newIds : List TracedId) :
    Inv { s.setTrace n { s.traces n with registered := true, ids := newIds } with
      registry := keep traceId n s.registry } := by
  obtain ⟨hcall, hfree⟩ := ne_of_mayRegister hn
  have hother : ∀ m, m ≠ n → (s.setTrace n { s.traces n with
      registered := true, ids := newIds }).traces m = s.traces m :=
    fun m hm => setTrace_traces_of_ne s hm _
  exact {
    sound := forall_setTrace h.sound (sound_register (h.sound n) hcall newIds)
    measuring := fun m hm => by
      have hne : m ≠ n := by
        rintro rfl
        exact hfree hm
      have hm' := h.measuring m hm
      rwa [← hother m hne] at hm'
    scanning := fun m position hm => by
      have hne : m ≠ n := by
        rintro rfl
        rw [(h.scanning _ _ hm).1] at hcall
        cases hcall
      have hm' := h.scanning m position hm
      rwa [← hother m hne] at hm'
    registered := fun x hx => by
      by_cases hxn : x.2 = n
      · simp [hxn]
      · rcases mem_keep h.keys hx with hxn' | hmem
        · exact absurd hxn' hxn
        · exact (congrArg Trace.registered (hother x.2 hxn)).trans (h.registered x hmem)
    requested := fun m hm => by
      by_cases hmn : m = n
      · simp [hmn]
      · exact (congrArg Trace.registered (hother m hmn)).trans (h.requested m hm)
    keys := nodup_keys_keep traceId n h.keys
    recent := length_keep_le traceId n s.registry }

theorem Inv.request (h : Inv s) {traceId : String} (hn : entry traceId s.registry = some n) :
    Inv { s with requests := n :: s.requests } where
  sound := h.sound
  measuring := h.measuring
  scanning := h.scanning
  registered := h.registered
  requested m hm := by
    rcases List.mem_cons.1 hm with rfl | hm
    · exact h.registered _ (mem_of_entry hn)
    · exact h.requested m hm
  keys := h.keys
  recent := h.recent

theorem Inv.scanBegin (h : Inv s) (hn : n ∈ s.requests) (known : WatchTopic → Bool) :
    Inv { s with
      requests := s.requests.erase n
      lock := some (.scanning n fun p => if known p.1 then (s.traces n).offsets p else none) } where
  sound := h.sound
  measuring _ hlock := by cases hlock
  scanning m position hlock := by
    cases hlock
    refine ⟨h.requested n hn, fun p i hp => ?_⟩
    dsimp only at hp
    split_ifs at hp with hknown
    exact hp
  registered := h.registered
  requested m hm := h.requested m (List.mem_of_mem_erase hm)
  keys := h.keys
  recent := h.recent

theorem cursor_poll (tr : Trace) (p : Partition) (i : ℕ) (value : Option Json) :
    (tr.poll p i value).cursor = tr.cursor.read p i (tr.find value) := rfl

theorem sound_poll (h : tr.Sound s.log) (hreg : tr.registered = true) {p : Partition} {i : ℕ}
    {value : Option Json} (hi : tr.offsets p = some i) (hvalue : (s.log p)[i]? = some value) :
    (tr.poll p i value).Sound s.log where
  exact := by
    rw [cursor_poll]
    exact h.exact.read hi hvalue
  unread hno := by
    have hreg' : (tr.poll p i value).registered = true := hreg
    rw [hreg'] at hno
    cases hno

theorem Inv.poll (h : Inv s) {position : Offsets}
    (hlock : s.lock = some (.scanning n position)) {p : Partition} {i : ℕ} {value : Option Json}
    (hi : position p = some i) (hvalue : (s.log p)[i]? = some value) :
    Inv { s.setTrace n ((s.traces n).poll p i value) with
      lock := some (.scanning n (Function.update position p (some (i + 1)))) } := by
  obtain ⟨hreg, hposition⟩ := h.scanning n position hlock
  have hkept : ∀ m, ((s.setTrace n ((s.traces n).poll p i value)).traces m).registered =
      (s.traces m).registered := registered_setTrace rfl
  exact {
    sound := forall_setTrace h.sound (sound_poll (h.sound n) hreg (hposition p i hi) hvalue)
    measuring := fun m hm => by cases hm
    scanning := fun m position' hm => by
      cases hm
      refine ⟨(hkept n).trans hreg, fun q j hq => ?_⟩
      have htraces : (s.setTrace n ((s.traces n).poll p i value)).traces n =
          (s.traces n).poll p i value := setTrace_traces_self s n _
      have hoffsets : ((s.traces n).poll p i value).offsets =
          Function.update (s.traces n).offsets p (some (i + 1)) := rfl
      refine (congrArg (fun tr : Trace => tr.offsets q) htraces).trans ?_
      rw [hoffsets]
      by_cases hqp : q = p
      · subst hqp
        rwa [Function.update_self] at hq ⊢
      · rw [Function.update_of_ne hqp] at hq ⊢
        exact hposition q j hq
    registered := fun x hx => (hkept x.2).trans (h.registered x hx)
    requested := fun m hm => (hkept m).trans (h.requested m hm)
    keys := h.keys
    recent := h.recent }

/-- Every action keeps the invariant. -/
theorem inv_step (h : Inv s) {a : Action} (hstep : step s a = some t) : Inv t := by
  cases a with
  | produce p value =>
      obtain rfl := Option.some.inj hstep
      exact h.produce p value
  | measureBegin n =>
      simp only [step] at hstep
      split_ifs at hstep with hguard
      obtain rfl := Option.some.inj hstep
      rw [Bool.and_eq_true, Bool.not_eq_true'] at hguard
      exact h.measureBegin hguard.2
  | measure p =>
      simp only [step] at hstep
      split at hstep
      · rename_i n hlock
        obtain rfl := Option.some.inj hstep
        exact h.measure hlock p
      · cases hstep
  | measureEnd =>
      simp only [step] at hstep
      split at hstep
      · obtain rfl := Option.some.inj hstep
        exact h.release
      · cases hstep
  | register n traceId kind d answered =>
      simp only [step] at hstep
      split_ifs at hstep with hguard
      obtain rfl := Option.some.inj hstep
      exact h.register hguard traceId _
  | request traceId =>
      obtain ⟨n, hentry, rfl⟩ := Option.map_eq_some_iff.1 hstep
      exact h.request hentry
  | scanBegin n known =>
      simp only [step] at hstep
      split_ifs at hstep with hguard
      obtain rfl := Option.some.inj hstep
      rw [Bool.and_eq_true, decide_eq_true_eq] at hguard
      exact h.scanBegin hguard.2 known
  | poll p =>
      simp only [step] at hstep
      split at hstep
      · rename_i n position hlock
        obtain ⟨i, hi, hstep⟩ := Option.bind_eq_some_iff.1 hstep
        obtain ⟨value, hvalue, rfl⟩ := Option.map_eq_some_iff.1 hstep
        have hpolled := h.poll hlock hi hvalue
        by_cases hraised : (look (s.traces n).ids value).isRaised = true
        · rw [if_pos hraised]
          exact hpolled.release
        · rw [if_neg hraised]
          exact hpolled
      · cases hstep
  | scanEnd =>
      simp only [step] at hstep
      split at hstep
      · obtain rfl := Option.some.inj hstep
        exact h.release
      · cases hstep

theorem inv_of_reachable (h : (system log).Reachable s) : Inv s :=
  h.invariant inv_init fun _ _ _ hs hstep => inv_step hs hstep

/-! ## Scans get to the end -/

/-- The actions of requests for a trace. -/
inductive ScanOf (traceId : String) (n : ℕ) : Action → Prop
  | requests : ScanOf traceId n (.request traceId)
  | begins (known : WatchTopic → Bool) : ScanOf traceId n (.scanBegin n known)
  | polls (p : Partition) : ScanOf traceId n (.poll p)
  | ends : ScanOf traceId n .scanEnd

/-- The records of some partitions that a trace has not read. -/
def Trace.unread (log : Partition → List (Option Json)) (ps : Finset Partition) (tr : Trace) : ℕ :=
  ∑ p ∈ ps, ((log p).length - (tr.offsets p).getD 0)

theorem unread_poll_lt {ps : Finset Partition} {p : Partition} (hp : p ∈ ps) {i : ℕ}
    {value : Option Json} (hi : tr.offsets p = some i) (hvalue : (log p)[i]? = some value) :
    (tr.poll p i value).unread log ps < tr.unread log ps := by
  obtain ⟨hlt, _⟩ := List.getElem?_eq_some_iff.1 hvalue
  have hself : (tr.poll p i value).offsets p = some (i + 1) := Function.update_self _ _ _
  refine Finset.sum_lt_sum (fun q _ => ?_) ⟨p, hp, ?_⟩
  · by_cases hqp : q = p
    · subst hqp
      rw [hself, hi, Option.getD_some, Option.getD_some]
      omega
    · have hother : (tr.poll p i value).offsets q = tr.offsets q := Function.update_of_ne hqp _ _
      rw [hother]
  · rw [hself, hi, Option.getD_some, Option.getD_some]
    omega

/-- The trace can be scanned, or is being scanned in all its partitions; `s` is what it began
with. -/
structure Scannable (traceId : String) (n : ℕ) (s t : State) : Prop where
  inv : Inv t
  log : t.log = s.log
  entry : entry traceId t.registry = some n
  opened : (t.traces n).opened = (s.traces n).opened
  ids : (t.traces n).ids = (s.traces n).ids
  lock : t.lock = none ∨ t.lock = some (.scanning n (t.traces n).offsets)

/-- Scans have read the partitions to their ends. -/
def AtEnd (n : ℕ) (ps : Finset Partition) (t : State) : Prop :=
  ∀ p ∈ ps, ∀ b, (t.traces n).offsets p = some b → b = (t.log p).length

theorem step_poll {position : Offsets} (hlock : s.lock = some (.scanning n position))
    {p : Partition} {i : ℕ} {value : Option Json} (hi : position p = some i)
    (hvalue : (s.log p)[i]? = some value) :
    step s (.poll p) = some { s.setTrace n ((s.traces n).poll p i value) with
      lock := if (look (s.traces n).ids value).isRaised then none
        else some (.scanning n (Function.update position p (some (i + 1)))) } := by
  simp only [step, hlock, hi, Option.bind_some, hvalue, Option.map_some]

/-- What scans of a trace still have to do: records to read, and a request and the lock to get. -/
def ahead (n : ℕ) (ps : Finset Partition) (t : State) : ℕ :=
  3 * (t.traces n).unread t.log ps +
    if t.lock.isNone then (if n ∈ t.requests then 1 else 2) else 0

/-- A scan that has not come to the end of a partition can go on. -/
theorem Scannable.exists_step {traceId : String} {ps : Finset Partition}
    (h : Scannable traceId n s t) (hend : ¬ AtEnd n ps t) :
    ∃ a u, ScanOf traceId n a ∧ step t a = some u ∧ Scannable traceId n s u ∧
      ahead n ps u < ahead n ps t := by
  rcases h.lock with hfree | hlock
  · by_cases hrequested : n ∈ t.requests
    · have hstep : step t (.scanBegin n fun _ => true) =
          some { t with
            requests := t.requests.erase n
            lock := some (.scanning n (t.traces n).offsets) } := by
        simp [step, hfree, hrequested]
      refine ⟨_, _, .begins _, hstep,
        ⟨inv_step h.inv hstep, h.log, h.entry, h.opened, h.ids, .inr rfl⟩, ?_⟩
      simp [ahead, hfree, hrequested]
    · have hstep : step t (.request traceId) = some { t with requests := n :: t.requests } := by
        simp only [step, h.entry, Option.map_some]
      refine ⟨_, _, .requests, hstep,
        ⟨inv_step h.inv hstep, h.log, h.entry, h.opened, h.ids, .inl hfree⟩, ?_⟩
      simp [ahead, hfree, hrequested]
  · obtain ⟨p, hp, i, hi, hne⟩ : ∃ p ∈ ps, ∃ i, (t.traces n).offsets p = some i ∧
        i ≠ (t.log p).length := by simpa [AtEnd] using hend
    have hle : i ≤ (t.log p).length := by
      cases hopened : (t.traces n).opened p with
      | none =>
          have hnone : (t.traces n).offsets p = none :=
            ((h.inv.sound n).exact.absent p hopened).1
          rw [hnone] at hi
          cases hi
      | some a =>
          obtain ⟨b, hb, -, hlen, -⟩ := (h.inv.sound n).exact.present p a hopened
          obtain rfl : i = b := Option.some.inj (hi.symm.trans hb)
          exact hlen
    obtain ⟨value, hvalue⟩ : ∃ value, (t.log p)[i]? = some value :=
      ⟨_, List.getElem?_eq_getElem (lt_of_le_of_ne hle hne)⟩
    have hstep := step_poll hlock hi hvalue
    refine ⟨_, _, .polls p, hstep, ⟨inv_step h.inv hstep, h.log, h.entry, ?_, ?_, ?_⟩, ?_⟩
    · exact (congrArg Trace.opened (setTrace_traces_self t n _)).trans h.opened
    · exact (congrArg Trace.ids (setTrace_traces_self t n _)).trans h.ids
    · dsimp only
      rw [setTrace_traces_self]
      by_cases hraised : (look (t.traces n).ids value).isRaised = true
      · exact .inl (if_pos hraised)
      · exact .inr (if_neg hraised)
    · have hlt := unread_poll_lt hp hi hvalue
      have hlast : ∀ b c : Prop, [Decidable b] → [Decidable c] →
          (if b then (if c then 1 else 2) else 0) ≤ 2 := by
        intro b c _ _
        split_ifs <;> decide
      refine lt_of_le_of_lt (Nat.add_le_add_left (hlast _ _) _)
        (lt_of_lt_of_le ?_ (Nat.le_add_right _ _))
      dsimp only
      rw [setTrace_traces_self]
      change 3 * ((t.traces n).poll p i value).unread t.log ps + 2 < _
      omega

/-- What a trace shows of a partition that has been read to its end. -/
theorem mem_kafka_of_end (h : Inv s) {p : Partition}
    (hend : ∀ b, (s.traces n).offsets p = some b → b = (s.log p).length) {i : ℕ}
    {details : Details} :
    (p, i, details) ∈ (s.traces n).kafka ↔ ∃ a, (s.traces n).opened p = some a ∧ a ≤ i ∧
      (s.log p)[i]?.bind (s.traces n).find = some details := by
  refine (h.sound n).exact.mem_found.trans ⟨?_, ?_⟩
  · rintro ⟨a, b, ha, -, hai, -, hfound⟩
    exact ⟨a, ha, hai, hfound⟩
  · rintro ⟨a, ha, hai, hfound⟩
    obtain ⟨b, hb, -⟩ := (h.sound n).exact.present p a ha
    have hlt : i < (s.log p).length := by
      obtain ⟨value, hvalue, -⟩ := Option.bind_eq_some_iff.1 hfound
      exact (List.getElem?_eq_some_iff.1 hvalue).1
    exact ⟨a, b, ha, hb, hai, (hend b hb).symm ▸ hlt, hfound⟩

/-- In every state the tracer reaches, whatever requests and records have been interleaved, a trace
shows each record that mentions it between the offset the trace began with and the one it has
reached, and shows it once. Further requests for a trace that is still kept get to the end of the
partitions, and then all is shown that has been there since the trace began. -/
theorem kafka_stage {s : State} (h : (system log).Reachable s) (n : ℕ) :
    (∀ p i details, (p, i, details) ∈ (s.traces n).kafka ↔
      ∃ a b, (s.traces n).opened p = some a ∧ (s.traces n).offsets p = some b ∧ a ≤ i ∧ i < b ∧
        (s.log p)[i]?.bind (s.traces n).find = some details) ∧
    ((s.traces n).kafka.map fun x => (x.1, x.2.1)).Nodup ∧
    ∀ traceId, entry traceId s.registry = some n → s.lock = none → ∀ ps : Finset Partition,
      ∃ as t, (system log).run s as = some t ∧ (∀ a ∈ as, ScanOf traceId n a) ∧
        t.log = s.log ∧ ∀ p ∈ ps, ∀ i details, (p, i, details) ∈ (t.traces n).kafka ↔
          ∃ a, (s.traces n).opened p = some a ∧ a ≤ i ∧
            (s.log p)[i]?.bind (s.traces n).find = some details := by
  have hinv := inv_of_reachable h
  refine ⟨fun _ _ _ => (hinv.sound n).exact.mem_found, (hinv.sound n).exact.nodup, ?_⟩
  intro traceId hentry hfree ps
  have hbegun : Scannable traceId n s s := ⟨hinv, rfl, hentry, rfl, rfl, .inl hfree⟩
  obtain ⟨as, t, hrun, has, hscanned, hend⟩ := (system log).exists_run_until (ahead n ps)
    (fun t ht hend => by exact ht.exists_step hend) hbegun
  refine ⟨as, t, hrun, has, hscanned.log, fun p hp i details => ?_⟩
  have hfind : (t.traces n).find = (s.traces n).find := by
    funext value
    rw [Trace.find, hscanned.ids, ← Trace.find]
  rw [mem_kafka_of_end hscanned.inv (hend p hp), hscanned.opened, hscanned.log, hfind]

/-- A trace is opened, a record that is no object arrives and then the event, and a request for the
trace fails at the former. -/
def sampleActions : List Action :=
  [.measureBegin 0, .measure (.impression, 0), .measureEnd,
    .register 0 "t" .normal sampleDraws false,
    .produce (.impression, 0) (some (.arr [])),
    .produce (.impression, 0) (some (.obj [("event_id", .str sampleDraws.eventId)])),
    .request "t", .scanBegin 0 fun _ => true, .poll (.impression, 0)]

/-- The next requests show the event. -/
theorem kafka_stage_resumed : ∃ s as t, (system fun _ => []).run (system fun _ => []).init
      sampleActions = some s ∧ (s.traces 0).kafka = [] ∧ (system fun _ => []).run s as = some t ∧
    ((.impression, 0), 1, ⟨none, none, none⟩) ∈ (t.traces 0).kafka := by
  have hrun : (system fun _ => []).run (system fun _ => []).init sampleActions = some _ := rfl
  obtain ⟨-, -, hresumed⟩ := kafka_stage (System.reachable_of_run hrun) 0
  obtain ⟨as, t, hrest, -, -, hshown⟩ := hresumed "t" rfl rfl {(.impression, 0)}
  exact ⟨_, as, t, hrun, rfl, hrest,
    (hshown _ (Finset.mem_singleton_self _) 1 _).2 ⟨0, rfl, Nat.zero_le _, rfl⟩⟩

end AdPipeline.Tracer
