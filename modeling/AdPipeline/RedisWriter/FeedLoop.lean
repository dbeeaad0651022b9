import AdPipeline.RedisWriter.Consumer
import AdPipeline.RedisWriter.Feeds

/-!
# The consumer loop with late events and alerts

The loop of `Consumer`, where a message of `late.events` or `alert.anomaly` has its contents and
what its handler adds to Redis is kept. A run of it is a run of the loop (`reachable_loop`). What is
in Redis is what the executed pipelines have added (`Inv.feeds`): a message adds once, and once more
at most for each time that a restart has gone back behind it (`Inv.once`); and it has added when its
offset is committed, unless a commit has passed it in hand or swallowed (`committed_executed`).
-/

namespace AdPipeline.RedisWriter

open Lib

namespace FeedLoop

/-- What `json.loads` and the handler of the topic make of a message. -/
inductive Message where
  | aggMinute (d : AggMinute)
  /-- A message without an `event_time` is left at that. -/
  | lateEvent (eventTime : Option Instant)
  | alert (d : Json)
  /-- The handler raises before it reaches Redis. -/
  | malformed

/-- The message without the contents that the aggregates do not use. -/
def Message.payload : Message → Consumer.Payload
  | .aggMinute d => .aggMinute d
  | .lateEvent _ => .lateEvent
  | .alert _ => .alert
  | .malformed => .malformed

/-- What `handle_late` or `handle_alert` adds for the message. -/
def Message.entry : Message → Option FeedEntry
  | .lateEvent eventTime => eventTime.map .late
  | .alert d => some (.alert d)
  | _ => none

/-- How the handler fares: one that returns early has no pipeline that could fail. -/
def Message.outcome (reply : Consumer.Reply) : Message → Consumer.Reply
  | .lateEvent none => .executed
  | _ => reply

/-- The counters of `STATS` for the late events and the alerts. -/
structure FeedStats where
  late : ℕ
  alert : ℕ

def FeedStats.count (stats : FeedStats) : FeedEntry → FeedStats
  | .late _ => { stats with late := stats.late + 1 }
  | .alert _ => { stats with alert := stats.alert + 1 }

/-- A pipeline that Redis has executed. -/
structure Execution (P : Type) where
  message : P × ℕ
  now : Instant
  entry : FeedEntry

/-- The loop, the contents of the partitions, and the keys of the late events and alerts. The
executed pipelines, newest first, and how often restarts have gone back behind each message are kept
for reference. -/
structure State (P : Type) where
  loop : Consumer.State P
  messages : P → List Message
  feeds : Feeds
  stats : FeedStats
  executed : List (Execution P)
  rewinds : P × ℕ → ℕ

inductive Action (P : Type) where
  | produce (p : P) (message : Message)
  | poll (p : P)
  | pollError (partitionEof : Bool)
  | handle (reply : Consumer.Reply) (now : Instant)
  | commit (p : P) (offset : ℕ)
  | restart

variable {P : Type} {ttl : ℤ}

def start : State P where
  loop := Consumer.start
  messages := fun _ => []
  feeds := .empty
  stats := ⟨0, 0⟩
  executed := []
  rewinds := fun _ => 0

/-- What the handler of a message adds, if anything. -/
def State.entryAt (s : State P) (m : P × ℕ) : Option FeedEntry :=
  (s.messages m.1)[m.2]?.bind Message.entry

/-- Redis executes the pipeline of a message. -/
def State.execute (s : State P) (ttl : ℤ) (m : P × ℕ) (now : Instant) (e : FeedEntry) : State P :=
  { s with feeds := s.feeds.add ttl now e, executed := ⟨m, now, e⟩ :: s.executed }

/-- `handle_late` and `handle_alert`: the counter of `STATS` follows the pipeline. -/
def handle (s : State P) (ttl : ℤ) (m : P × ℕ) (reply : Consumer.Reply) (now : Instant)
    (message : Message) : State P :=
  match message.entry, reply with
  | none, _ => s
  | some _, .refused => s
  | some e, .lost => s.execute ttl m now e
  | some e, .executed => { s.execute ttl m now e with stats := s.stats.count e }

/-! ## What a handler does -/

/-- What a handler does: nothing, or it has Redis execute its pipeline. -/
theorem handle_cases (s : State P) (m : P × ℕ) (reply : Consumer.Reply) (now : Instant)
    (message : Message) :
    (handle s ttl m reply now message = s ∧ (message.entry = none ∨ reply = .refused)) ∨
      ∃ e stats, message.entry = some e ∧ (stats = s.stats ∨ stats = s.stats.count e) ∧
        handle s ttl m reply now message = { s.execute ttl m now e with stats := stats } := by
  cases hentry : message.entry with
  | none =>
      refine .inl ⟨?_, .inl rfl⟩
      simp only [handle, hentry]
  | some e =>
      cases reply with
      | refused =>
          refine .inl ⟨?_, .inr rfl⟩
          simp only [handle, hentry]
      | executed =>
          refine .inr ⟨e, s.stats.count e, rfl, .inr rfl, ?_⟩
          simp only [handle, hentry]
      | lost =>
          refine .inr ⟨e, s.stats, rfl, .inl rfl, ?_⟩
          simp only [handle, hentry]
          rfl

/-- A handler whose pipeline is refused raises. -/
theorem swallowed_of_refused {loop : Consumer.State P} {m : P × ℕ} {now : Instant}
    {message : Message} {e : FeedEntry} (hentry : message.entry = some e) :
    m ∈ (Consumer.handle loop ttl m (message.outcome .refused) now message.payload).swallowed := by
  cases message with
  | aggMinute d => cases hentry
  | lateEvent eventTime =>
      cases eventTime with
      | none => cases hentry
      | some t => exact List.mem_cons_self
  | alert d => exact List.mem_cons_self
  | malformed => cases hentry

/-! ## The loop -/

variable [DecidableEq P] (ttl)

def step (s : State P) : Action P → Option (State P)
  | .produce p message =>
    (Consumer.step ttl s.loop (.produce p message.payload)).map fun loop => { s with
      loop := loop
      messages := Function.update s.messages p (s.messages p ++ [message]) }
  | .poll p => (Consumer.step ttl s.loop (.poll p)).map fun loop => { s with loop := loop }
  | .pollError partitionEof =>
    (Consumer.step ttl s.loop (.pollError partitionEof)).map fun loop => { s with loop := loop }
  | .handle reply now =>
    s.loop.current.bind fun m => ((s.messages m.1)[m.2]?).map fun message =>
      { handle s ttl m reply now message with
        loop := (Consumer.handle s.loop ttl m (message.outcome reply) now message.payload).settle }
  | .commit p offset =>
    (Consumer.step ttl s.loop (.commit p offset)).map fun loop => { s with loop := loop }
  | .restart =>
    (Consumer.step ttl s.loop .restart).map fun loop => { s with
      loop := loop
      stats := ⟨0, 0⟩
      rewinds := fun m => s.rewinds m +
        if s.loop.committed m.1 ≤ m.2 ∧ m.2 < s.loop.position m.1 then 1 else 0 }

/-- The consumer of the partitions `P`, with the contents of the messages. -/
def feedLoop (P : Type) [DecidableEq P] (ttl : ℤ) : System (State P) (Action P) :=
  ⟨start, step ttl⟩

/-! ## What a step does -/

/-- What each action does, with the guards that matter below. -/
inductive Steps (s : State P) : Action P → State P → Prop
  | produce (p : P) (message : Message) :
      Steps s (.produce p message) { s with
        loop := { s.loop with
          log := Function.update s.loop.log p (s.loop.log p ++ [message.payload]) }
        messages := Function.update s.messages p (s.messages p ++ [message]) }
  | poll {p : P} (hidle : s.loop.current = none) :
      Steps s (.poll p) { s with
        loop := { s.loop with
          current := some (p, s.loop.position p)
          position := Function.update s.loop.position p (s.loop.position p + 1) } }
  | pollError (partitionEof : Bool) (stats : Consumer.Stats) :
      Steps s (.pollError partitionEof) { s with loop := { s.loop with stats := stats } }
  | handle {m : P × ℕ} {message : Message} (reply : Consumer.Reply) (now : Instant)
      (hm : s.loop.current = some m) (hmessage : (s.messages m.1)[m.2]? = some message) :
      Steps s (.handle reply now) { handle s ttl m reply now message with
        loop := (Consumer.handle s.loop ttl m (message.outcome reply) now message.payload).settle }
  | commit {p : P} {offset : ℕ} (hlow : s.loop.committed p ≤ offset)
      (hhigh : offset ≤ s.loop.position p) :
      Steps s (.commit p offset) { s with
        loop := { s.loop with committed := Function.update s.loop.committed p offset } }
  | restart :
      Steps s .restart { s with
        loop := s.loop.restarted
        stats := ⟨0, 0⟩
        rewinds := fun m => s.rewinds m +
          if s.loop.committed m.1 ≤ m.2 ∧ m.2 < s.loop.position m.1 then 1 else 0 }

variable {ttl}

theorem steps_of_step {s t : State P} {a : Action P} (h : step ttl s a = some t) :
    Steps ttl s a t := by
  cases a with
  | produce p message =>
      rw [step, Option.map_eq_some_iff] at h
      obtain ⟨loop, hloop, rfl⟩ := h
      cases Consumer.steps_of_step hloop
      exact .produce p message
  | poll p =>
      rw [step, Option.map_eq_some_iff] at h
      obtain ⟨loop, hloop, rfl⟩ := h
      cases Consumer.steps_of_step hloop with
      | poll hidle _ => exact .poll hidle
  | pollError partitionEof =>
      rw [step, Option.map_eq_some_iff] at h
      obtain ⟨loop, hloop, rfl⟩ := h
      cases Consumer.steps_of_step hloop with
      | pollError _ stats => exact .pollError partitionEof stats
  | handle reply now =>
      rw [step, Option.bind_eq_some_iff] at h
      obtain ⟨m, hm, hrest⟩ := h
      obtain ⟨message, hmessage, rfl⟩ := Option.map_eq_some_iff.1 hrest
      exact .handle reply now hm hmessage
  | commit p offset =>
      rw [step, Option.map_eq_some_iff] at h
      obtain ⟨loop, hloop, rfl⟩ := h
      cases Consumer.steps_of_step hloop with
      | commit hlow hhigh => exact .commit hlow hhigh
  | restart =>
      rw [step, Option.map_eq_some_iff] at h
      obtain ⟨loop, hloop, rfl⟩ := h
      cases Consumer.steps_of_step hloop
      exact .restart

/-! ## The loop below -/

/-- The loop has the messages without their contents. -/
def LogOf (s : State P) : Prop := ∀ p, s.loop.log p = (s.messages p).map Message.payload

/-- A step is a step of the loop. -/
theorem exists_loop_step {s t : State P} {a : Action P} (hlog : LogOf s)
    (h : step ttl s a = some t) : ∃ b, Consumer.step ttl s.loop b = some t.loop := by
  cases a with
  | produce p message =>
      rw [step, Option.map_eq_some_iff] at h
      obtain ⟨loop, hloop, rfl⟩ := h
      exact ⟨_, hloop⟩
  | poll p =>
      rw [step, Option.map_eq_some_iff] at h
      obtain ⟨loop, hloop, rfl⟩ := h
      exact ⟨_, hloop⟩
  | pollError partitionEof =>
      rw [step, Option.map_eq_some_iff] at h
      obtain ⟨loop, hloop, rfl⟩ := h
      exact ⟨_, hloop⟩
  | handle reply now =>
      rw [step, Option.bind_eq_some_iff] at h
      obtain ⟨m, hm, hrest⟩ := h
      obtain ⟨message, hmessage, rfl⟩ := Option.map_eq_some_iff.1 hrest
      refine ⟨.handle (message.outcome reply) now, ?_⟩
      have hpayload : (s.loop.log m.1)[m.2]? = some message.payload := by
        rw [hlog, List.getElem?_map, hmessage, Option.map_some]
      simp only [Consumer.step, hm, hpayload, Option.map_some]
  | commit p offset =>
      rw [step, Option.map_eq_some_iff] at h
      obtain ⟨loop, hloop, rfl⟩ := h
      exact ⟨_, hloop⟩
  | restart =>
      rw [step, Option.map_eq_some_iff] at h
      obtain ⟨loop, hloop, rfl⟩ := h
      exact ⟨_, hloop⟩

theorem logOf_step {s t : State P} {a : Action P} (hlog : LogOf s) (h : step ttl s a = some t) :
    LogOf t := by
  cases steps_of_step h with
  | produce p message =>
      intro q
      show Function.update s.loop.log p _ q = (Function.update s.messages p _ q).map _
      by_cases hq : q = p
      · subst hq
        rw [Function.update_self, Function.update_self, hlog, List.map_append, List.map_singleton]
      · rw [Function.update_of_ne hq, Function.update_of_ne hq, hlog]
  | poll hidle => exact hlog
  | pollError partitionEof stats => exact hlog
  | @handle m message reply now hm hmessage =>
      have hmessages : (handle s ttl m reply now message).messages = s.messages := by
        rcases handle_cases s m reply now message with ⟨hsame, -⟩ | ⟨e, stats, -, -, hexec⟩
        · rw [hsame]
        · rw [hexec]
          rfl
      intro q
      rw [Consumer.State.settle, Consumer.handle_log, hlog, hmessages]
  | commit hlow hhigh => exact hlog
  | restart => exact hlog

/-- A run is a run of the loop, so all that holds of the aggregates holds here. -/
theorem reachable_loop {ok : State P → Action P → Prop} {s : State P}
    (h : (feedLoop P ttl).Reaches ok s) :
    LogOf s ∧ (Consumer.consumer P ttl).Reachable s.loop := by
  refine h.invariant (I := fun s => LogOf s ∧ (Consumer.consumer P ttl).Reachable s.loop) ?_ ?_
  · exact ⟨fun _ => rfl, .init⟩
  · intro s a t _ hi _ hst
    obtain ⟨b, hb⟩ := exists_loop_step hi.1 hst
    exact ⟨logOf_step hi.1 hst, hi.2.step hb⟩

/-! ## What is executed -/

/-- The messages of the executed pipelines, newest first. -/
def State.sent (s : State P) : List (P × ℕ) := s.executed.map Execution.message

/-- What holds of every state: Redis has what the executed pipelines have added, each message is
executed once and once more for each time a restart has gone back behind it, and a message polled
but not committed is executed unless it is in hand or its handler has raised. -/
structure Inv (ttl : ℤ) (s : State P) : Prop where
  feeds : s.feeds = fed ttl (s.executed.map fun x => (x.now, x.entry))
  stats : s.stats.late ≤ s.feeds.lateTotal ∧ s.stats.alert ≤ s.feeds.alertsTotal
  logged : ∀ x ∈ s.executed, s.entryAt x.message = some x.entry
  polled : ∀ m, s.loop.current = some m → m.2 < s.loop.position m.1
  once : ∀ m, s.sent.count m ≤ s.rewinds m +
    if m.2 < s.loop.position m.1 ∧ s.loop.current ≠ some m then 1 else 0
  covered : ∀ m e, s.loop.committed m.1 ≤ m.2 → m.2 < s.loop.position m.1 →
    s.entryAt m = some e → m ∈ s.sent ∨ Consumer.Unsettled s.loop m

theorem Inv.start : Inv ttl (start : State P) where
  feeds := rfl
  stats := ⟨le_refl 0, le_refl 0⟩
  logged x hx := absurd hx List.not_mem_nil
  polled m hm := by cases hm
  once m := Nat.zero_le _
  covered m e _ hm := absurd hm (Nat.not_lt_zero _)

/-- A message of the log stays what it is when another is appended. -/
theorem entryAt_produce {s : State P} {loop : Consumer.State P} {p : P} {message : Message}
    {m : P × ℕ} (hm : m.2 < (s.messages m.1).length) :
    State.entryAt { s with
      loop := loop
      messages := Function.update s.messages p (s.messages p ++ [message]) } m = s.entryAt m := by
  unfold State.entryAt
  by_cases hp : m.1 = p
  · subst hp
    simp only [Function.update_self]
    rw [List.getElem?_append_left hm]
  · simp only [Function.update_of_ne hp]

omit [DecidableEq P] in
theorem lt_length_of_entryAt {s : State P} {m : P × ℕ} {e : FeedEntry}
    (h : s.entryAt m = some e) : m.2 < (s.messages m.1).length := by
  obtain ⟨message, hmessage, -⟩ := Option.bind_eq_some_iff.1 h
  exact (List.getElem?_eq_some_iff.1 hmessage).1

omit [DecidableEq P] in
/-- A message polled is in the log. -/
theorem lt_length_of_polled {s : State P} (hlog : LogOf s) (hloop : Consumer.Inv s.loop)
    {m : P × ℕ} (hm : m.2 < s.loop.position m.1) : m.2 < (s.messages m.1).length := by
  have hle := hloop.bounded m.1
  rw [hlog, List.length_map] at hle
  exact lt_of_lt_of_le hm hle

theorem Inv.produce {s : State P} (h : Inv ttl s) (hlog : LogOf s) (hloop : Consumer.Inv s.loop)
    (p : P) (message : Message) :
    Inv ttl { s with
      loop := { s.loop with
        log := Function.update s.loop.log p (s.loop.log p ++ [message.payload]) }
      messages := Function.update s.messages p (s.messages p ++ [message]) } where
  feeds := h.feeds
  stats := h.stats
  logged x hx := by
    rw [entryAt_produce (lt_length_of_entryAt (h.logged x hx))]
    exact h.logged x hx
  polled := h.polled
  once := h.once
  covered m e hlow hhigh hentry := by
    rw [entryAt_produce (lt_length_of_polled hlog hloop hhigh)] at hentry
    exact h.covered m e hlow hhigh hentry

theorem Inv.poll {s : State P} (h : Inv ttl s) {p : P} (hidle : s.loop.current = none) :
    Inv ttl { s with
      loop := { s.loop with
        current := some (p, s.loop.position p)
        position := Function.update s.loop.position p (s.loop.position p + 1) } } := by
  -- the message in hand is the only one polled since
  have hbefore : ∀ m : P × ℕ, (p, s.loop.position p) ≠ m →
      m.2 < Function.update s.loop.position p (s.loop.position p + 1) m.1 →
        m.2 < s.loop.position m.1 := by
    rintro ⟨q, o⟩ hne hlt
    by_cases hq : q = p
    · subst hq
      rw [Function.update_self] at hlt
      refine lt_of_le_of_ne (Nat.lt_succ_iff.1 hlt) fun heq => hne ?_
      exact congrArg (Prod.mk q) heq.symm
    · rwa [Function.update_of_ne hq] at hlt
  constructor
  case feeds => exact h.feeds
  case stats => exact h.stats
  case logged => exact h.logged
  case polled =>
    rintro m hm
    obtain rfl := Option.some.inj hm
    show s.loop.position p < Function.update s.loop.position p (s.loop.position p + 1) p
    rw [Function.update_self]
    exact Nat.lt_succ_self _
  case once =>
    intro m
    refine (h.once m).trans (Nat.add_le_add_left ?_ _)
    have hkept : m.2 < s.loop.position m.1 →
        m.2 < Function.update s.loop.position p (s.loop.position p + 1) m.1 ∧
          some (p, s.loop.position p) ≠ some m := by
      intro hm
      constructor
      · by_cases hq : m.1 = p
        · subst hq
          rw [Function.update_self]
          exact Nat.lt_succ_of_lt hm
        · rw [Function.update_of_ne hq]
          exact hm
      · intro heq
        obtain rfl := Option.some.inj heq
        exact lt_irrefl _ hm
    split_ifs with hold hnew hnew
    · exact le_refl 1
    · exact absurd (hkept hold.1) hnew
    · exact Nat.zero_le 1
    · exact le_refl 0
  case covered =>
    intro m e hlow hhigh hentry
    by_cases hm : (p, s.loop.position p) = m
    · exact .inr (.inl (congrArg some hm))
    · refine (h.covered m e hlow (hbefore m hm hhigh) hentry).imp_right fun hopen => ?_
      rcases hopen with hcurrent | hswallowed
      · rw [hidle] at hcurrent
        cases hcurrent
      · exact .inr hswallowed

/-- The counters of `STATS` stay behind Redis when a pipeline is executed. -/
theorem stats_add {stats stats' : FeedStats} {r : Feeds} {now : Instant} {e : FeedEntry}
    (h : stats.late ≤ r.lateTotal ∧ stats.alert ≤ r.alertsTotal)
    (hstats : stats' = stats ∨ stats' = stats.count e) :
    stats'.late ≤ (r.add ttl now e).lateTotal ∧ stats'.alert ≤ (r.add ttl now e).alertsTotal := by
  obtain ⟨hlate, halert⟩ := h
  cases e with
  | late eventTime =>
      rcases hstats with rfl | rfl
      · exact ⟨Nat.le_succ_of_le hlate, halert⟩
      · exact ⟨Nat.succ_le_succ hlate, halert⟩
  | alert d =>
      rcases hstats with rfl | rfl
      · exact ⟨hlate, Nat.le_succ_of_le halert⟩
      · exact ⟨hlate, Nat.succ_le_succ halert⟩

theorem Inv.handle {s : State P} (h : Inv ttl s) {m : P × ℕ} {message : Message}
    (reply : Consumer.Reply) (now : Instant) (hm : s.loop.current = some m)
    (hmessage : (s.messages m.1)[m.2]? = some message) :
    Inv ttl { handle s ttl m reply now message with
      loop := (Consumer.handle s.loop ttl m (message.outcome reply) now
        message.payload).settle } := by
  set loop := (Consumer.handle s.loop ttl m (message.outcome reply) now message.payload).settle
    with hloop
  have hcommitted : loop.committed = s.loop.committed := by
    simp [hloop, Consumer.State.settle]
  have hposition : loop.position = s.loop.position := by
    simp [hloop, Consumer.State.settle]
  have hcurrent : loop.current = none := rfl
  have hentry : s.entryAt m = message.entry := by
    rw [State.entryAt, hmessage, Option.bind_some]
  -- the message in hand has been executed no more often than it was rewound
  have honce : ∀ m', s.sent.count m' + (if m' = m then 1 else 0) ≤ s.rewinds m' +
      if m'.2 < loop.position m'.1 ∧ loop.current ≠ some m' then 1 else 0 := by
    intro m'
    have hle := h.once m'
    have hiff : (m'.2 < loop.position m'.1 ∧ loop.current ≠ some m') ↔
        m'.2 < s.loop.position m'.1 := by
      simp [hposition, hcurrent]
    simp only [hiff]
    by_cases hm' : m' = m
    · subst hm'
      rw [if_neg (fun hand => hand.2 hm)] at hle
      rw [if_pos rfl, if_pos (h.polled m' hm)]
      omega
    · rw [if_neg hm']
      refine hle.trans (Nat.add_le_add_left ?_ _)
      split_ifs with hold hnew hnew
      · exact le_refl 1
      · exact absurd hold.1 hnew
      · exact Nat.zero_le 1
      · exact le_refl 0
  have hopen : ∀ m' e, loop.committed m'.1 ≤ m'.2 → m'.2 < loop.position m'.1 →
      s.entryAt m' = some e → m' ∈ s.sent ∨ m' = m ∨ Consumer.Unsettled loop m' := by
    intro m' e hlow hhigh hentry'
    rw [hcommitted] at hlow
    rw [hposition] at hhigh
    rcases h.covered m' e hlow hhigh hentry' with hsent | hinHand | hswallowed
    · exact .inl hsent
    · exact .inr (.inl (Option.some.inj (hinHand.symm.trans hm)))
    · exact .inr (.inr (.inr (Consumer.swallowed_subset_handle _ _ _ _ _ _ hswallowed)))
  rcases handle_cases s m reply now message with ⟨hsame, hnothing⟩ | ⟨e, stats, he, hstats, hexec⟩
  · rw [hsame]
    constructor
    case feeds => exact h.feeds
    case stats => exact h.stats
    case logged => exact h.logged
    case polled =>
      intro m' hm'
      cases hcurrent.symm.trans hm'
    case once =>
      intro m'
      exact (Nat.le_add_right _ _).trans (honce m')
    case covered =>
      intro m' e hlow hhigh hentry'
      rcases hopen m' e hlow hhigh hentry' with hsent | rfl | hunsettled
      · exact .inl hsent
      · have he : message.entry = some e := hentry.symm.trans hentry'
        rcases hnothing with hnone | rfl
        · cases hnone.symm.trans he
        · exact .inr (.inr (swallowed_of_refused he))
      · exact .inr hunsettled
  · rw [hexec]
    constructor
    case feeds =>
      show s.feeds.add ttl now e = fed ttl ((now, e) :: s.executed.map fun x => (x.now, x.entry))
      rw [fed_cons, ← h.feeds]
    case stats => exact stats_add h.stats hstats
    case logged =>
      intro x hx
      rcases List.mem_cons.1 hx with rfl | hold
      · exact hentry.trans he
      · exact h.logged x hold
    case polled =>
      intro m' hm'
      cases hcurrent.symm.trans hm'
    case once =>
      intro m'
      have hcount : (m :: s.sent).count m' = s.sent.count m' + if m' = m then 1 else 0 := by
        rw [List.count_cons]
        by_cases hm' : m' = m
        · subst hm'
          rw [if_pos rfl, if_pos (beq_self_eq_true m')]
        · rw [if_neg hm', if_neg (by simpa using Ne.symm hm')]
      exact (le_of_eq hcount).trans (honce m')
    case covered =>
      intro m' e' hlow hhigh hentry'
      rcases hopen m' e' hlow hhigh hentry' with hsent | rfl | hunsettled
      · exact .inl (List.mem_cons_of_mem m hsent)
      · exact .inl List.mem_cons_self
      · exact .inr hunsettled

theorem Inv.commit {s : State P} (h : Inv ttl s) {p : P} {offset : ℕ}
    (hlow : s.loop.committed p ≤ offset) :
    Inv ttl { s with
      loop := { s.loop with committed := Function.update s.loop.committed p offset } } where
  feeds := h.feeds
  stats := h.stats
  logged := h.logged
  polled := h.polled
  once := h.once
  covered m e hm hhigh hentry := by
    refine h.covered m e (le_trans ?_ hm) hhigh hentry
    show s.loop.committed m.1 ≤ Function.update s.loop.committed p offset m.1
    by_cases hp : m.1 = p
    · rw [hp, Function.update_self]
      exact hlow
    · rw [Function.update_of_ne hp]

theorem Inv.restart {s : State P} (h : Inv ttl s) :
    Inv ttl { s with
      loop := s.loop.restarted
      stats := ⟨0, 0⟩
      rewinds := fun m => s.rewinds m +
        if s.loop.committed m.1 ≤ m.2 ∧ m.2 < s.loop.position m.1 then 1 else 0 } where
  feeds := h.feeds
  stats := ⟨Nat.zero_le _, Nat.zero_le _⟩
  logged := h.logged
  polled m hm := by cases hm
  once m := by
    refine (h.once m).trans ?_
    rw [Nat.add_assoc]
    refine Nat.add_le_add_left ?_ _
    show (if _ then 1 else 0) ≤ _ + if m.2 < s.loop.committed m.1 ∧ none ≠ some m then 1 else 0
    by_cases hm : m.2 < s.loop.committed m.1
    · rw [if_pos (show m.2 < s.loop.committed m.1 ∧ none ≠ some m from ⟨hm, nofun⟩)]
      split_ifs <;> omega
    · split_ifs with hpolled hrewound
      all_goals omega
  covered m e hlow hhigh _ := absurd hhigh (Nat.not_lt.2 hlow)

theorem Inv.step {s t : State P} {a : Action P} (h : Inv ttl s) (hlog : LogOf s)
    (hloop : Consumer.Inv s.loop) (hst : step ttl s a = some t) : Inv ttl t := by
  cases steps_of_step hst with
  | produce p message => exact h.produce hlog hloop p message
  | poll hidle => exact h.poll hidle
  | pollError partitionEof stats =>
      exact ⟨h.feeds, h.stats, h.logged, h.polled, h.once, h.covered⟩
  | handle reply now hm hmessage => exact h.handle reply now hm hmessage
  | commit hlow hhigh => exact h.commit hlow
  | restart => exact h.restart

/-- What holds of the loop below a reachable state. -/
theorem consumer_inv {ok : State P → Action P → Prop} {s : State P}
    (hs : (feedLoop P ttl).Reaches ok s) : Consumer.Inv s.loop :=
  (reachable_loop hs).2.invariant Consumer.Inv.start fun _ _ _ hi hst => hi.step hst

theorem inv_of_reaches {ok : State P → Action P → Prop} {s : State P}
    (hs : (feedLoop P ttl).Reaches ok s) : Inv ttl s :=
  hs.invariant .start fun _ _ _ hs' hi _ hst =>
    hi.step (reachable_loop hs').1 (consumer_inv hs') hst

/-! ## At least once -/

/-- Every late event and alert whose offset is committed has been executed. -/
def AtLeastOnce (s : State P) : Prop :=
  ∀ m e, m.2 < s.loop.committed m.1 → s.entryAt m = some e → m ∈ s.sent

/-- A commit does not pass a late event or alert that is in hand or was swallowed, unless it was
executed all the same. -/
def CommitSafe (s : State P) : Action P → Prop
  | .commit p offset =>
    ∀ o < offset, ∀ e, s.entryAt (p, o) = some e → Consumer.Unsettled s.loop (p, o) →
      (p, o) ∈ s.sent
  | _ => True

/-- Safe steps keep every committed late event and alert executed. -/
theorem atLeastOnce_step {s t : State P} {a : Action P} (h : Inv ttl s) (hlog : LogOf s)
    (hloop : Consumer.Inv s.loop) (ha : AtLeastOnce s) (hsafe : CommitSafe s a)
    (hst : FeedLoop.step ttl s a = some t) : AtLeastOnce t := by
  cases steps_of_step hst with
  | produce p message =>
      intro m e hm hentry
      have hpolled : m.2 < s.loop.position m.1 := lt_of_lt_of_le hm (hloop.ordered m.1)
      rw [entryAt_produce (lt_length_of_polled hlog hloop hpolled)] at hentry
      exact ha m e hm hentry
  | poll hidle => exact ha
  | pollError partitionEof stats => exact ha
  | @handle m' message reply now hm hmessage =>
      intro m e hcommitted hentry
      simp only [Consumer.State.settle, Consumer.handle_committed] at hcommitted
      rcases handle_cases s m' reply now message with ⟨hsame, -⟩ | ⟨e', stats, -, -, hexec⟩
      · rw [hsame] at hentry ⊢
        exact ha m e hcommitted hentry
      · rw [hexec] at hentry ⊢
        exact List.mem_cons_of_mem m' (ha m e hcommitted hentry)
  | @commit p offset hlow hhigh =>
      rintro ⟨q, o⟩ e hm hentry
      change o < Function.update s.loop.committed p offset q at hm
      by_cases hq : q = p
      · subst hq
        rw [Function.update_self] at hm
        by_cases hold : o < s.loop.committed q
        · exact ha (q, o) e hold hentry
        · -- polled since the last commit
          rcases h.covered (q, o) e (Nat.not_lt.1 hold) (lt_of_lt_of_le hm hhigh) hentry with
            hsent | hopen
          · exact hsent
          · exact hsafe o hm e hentry hopen
      · rw [Function.update_of_ne hq] at hm
        exact ha (q, o) e hm hentry
  | restart => exact ha

/-- In a run whose commits are safe no committed late event or alert is left out. -/
theorem committed_executed {ok : State P → Action P → Prop}
    (hok : ∀ s a, ok s a → CommitSafe s a) {s : State P} (hs : (feedLoop P ttl).Reaches ok s) :
    AtLeastOnce s := by
  refine hs.invariant ?_ fun s a t hs' ha hstep hst =>
    atLeastOnce_step (inv_of_reaches hs') (reachable_loop hs').1 (consumer_inv hs') ha
      (hok s a hstep) hst
  exact fun m e hm => absurd hm (Nat.not_lt_zero _)

/-! ## In time -/

/-- The clock does not go back, and a late event is handled after its minute has begun. -/
def InTime (s : State P) : Action P → Prop
  | .handle _ now => (∀ x ∈ s.executed, x.now.epochSecond ≤ now.epochSecond) ∧
    ∀ m t, s.loop.current = some m → s.entryAt m = some (.late t) →
      (minuteStart t).epochSecond ≤ now.epochSecond
  | _ => True

/-- The executed pipelines come in the order of the clock, and none of a late event before its
minute. -/
structure Timely (s : State P) : Prop where
  clock : s.executed.Pairwise fun x y => y.now.epochSecond ≤ x.now.epochSecond
  begun : ∀ x ∈ s.executed, ∀ t, x.entry = .late t →
    (minuteStart t).epochSecond ≤ x.now.epochSecond

theorem timely_of_inTime {ok : State P → Action P → Prop} (hok : ∀ s a, ok s a → InTime s a)
    {s : State P} (hs : (feedLoop P ttl).Reaches ok s) : Timely s := by
  refine hs.invariant ⟨List.Pairwise.nil, fun x hx => absurd hx List.not_mem_nil⟩ ?_
  intro s a t _ ht hstep hst
  have hin := hok s a hstep
  cases steps_of_step hst with
  | produce p message => exact ⟨ht.clock, ht.begun⟩
  | poll hidle => exact ⟨ht.clock, ht.begun⟩
  | pollError partitionEof stats => exact ⟨ht.clock, ht.begun⟩
  | @handle m message reply now hm hmessage =>
      rcases handle_cases s m reply now message with ⟨hsame, -⟩ | ⟨e, stats, he, -, hexec⟩
      · rw [hsame]
        exact ⟨ht.clock, ht.begun⟩
      · rw [hexec]
        refine ⟨List.pairwise_cons.2 ⟨hin.1, ht.clock⟩, fun x hx t hlate => ?_⟩
        rcases List.mem_cons.1 hx with rfl | hold
        · refine hin.2 m t hm ?_
          rw [State.entryAt, hmessage, Option.bind_some, he]
          exact congrArg some hlate
        · exact ht.begun x hold t hlate
  | commit hlow hhigh => exact ⟨ht.clock, ht.begun⟩
  | restart => exact ⟨ht.clock, ht.begun⟩

end FeedLoop

end AdPipeline.RedisWriter
