import AdPipeline.Lib.Transition
import AdPipeline.RedisWriter.Summary
import Mathlib.Logic.Function.Basic

/-!
# The consumer loop of the Redis writer

`main` polls a message, hands it to the handler of its topic and swallows whatever the handler
raises. The offsets of messages that poll has returned are committed in the background, at any time,
and a process that is killed starts again at the committed offsets.

A commit does not wait for a message in hand, nor does it notice a swallowed one. The aggregates are
kept as long as no commit passes such a message (`atLeastOnce_of_commitSafe`), which nothing in the
code makes sure of.
-/

namespace AdPipeline.RedisWriter

namespace Consumer

/-- What `json.loads` and the handler of the topic make of a message. The handlers of `late.events`
and `alert.anomaly` leave the aggregates alone. -/
inductive Payload where
  | aggMinute (d : AggMinute)
  | lateEvent
  | alert
  /-- The handler raises before it reaches Redis. -/
  | malformed

/-- How the pipeline of a handler went. -/
inductive Reply where
  | executed
  | refused
  /-- Redis has executed the pipeline, but the connection broke before it said so. -/
  | lost
deriving DecidableEq

/-- The counters of `STATS` that the loop keeps for the aggregates. -/
structure Stats where
  agg : ℕ
  err : ℕ

/-- The partitions of the topics, the offsets of the consumer, Redis and the message in hand. The
messages applied, and those of this process whose handler raised, are kept for reference. -/
structure State (P : Type) where
  log : P → List Payload
  committed : P → ℕ
  position : P → ℕ
  current : Option (P × ℕ)
  redis : Redis
  stats : Stats
  applied : List (P × ℕ)
  swallowed : List (P × ℕ)

inductive Action (P : Type) where
  | produce (p : P) (payload : Payload)
  | poll (p : P)
  /-- `poll` returns an error. -/
  | pollError (partitionEof : Bool)
  | handle (reply : Reply) (now : Instant)
  /-- The offset of a partition is committed, up to a message that poll has returned. -/
  | commit (p : P) (offset : ℕ)
  /-- The process is killed and started again. -/
  | restart

variable {P : Type}

def start : State P where
  log := fun _ => []
  committed := fun _ => 0
  position := fun _ => 0
  current := none
  redis := .empty
  stats := ⟨0, 0⟩
  applied := []
  swallowed := []

/-- The message in hand is done with. -/
def State.settle (s : State P) : State P := { s with current := none }

/-- A new process begins at the committed offsets, with `STATS` at zero. -/
def State.restarted (s : State P) : State P :=
  { s with position := s.committed, current := none, stats := ⟨0, 0⟩, swallowed := [] }

/-- The handler of `agg.minute` has written a window. -/
def State.write (s : State P) (ttl : ℤ) (now : Instant) (m : P × ℕ) (d : AggMinute) : State P :=
  { s with redis := handleAgg ttl now s.redis d, applied := m :: s.applied }

/-- `except Exception`: the error is counted. -/
def State.swallow (s : State P) (m : P × ℕ) : State P :=
  { s with stats := { s.stats with err := s.stats.err + 1 }, swallowed := m :: s.swallowed }

/-- `STATS["agg"] += 1`. -/
def State.countAgg (s : State P) : State P :=
  { s with stats := { s.stats with agg := s.stats.agg + 1 } }

/-- The `try` of the loop: the handler of the topic on the message in hand. -/
def handle (s : State P) (ttl : ℤ) (m : P × ℕ) (reply : Reply) (now : Instant) : Payload → State P
  | .aggMinute d =>
    match reply with
    | .executed => (s.write ttl now m d).countAgg
    | .refused => s.swallow m
    | .lost => (s.write ttl now m d).swallow m
  | .lateEvent => if reply = .executed then s else s.swallow m
  | .alert => if reply = .executed then s else s.swallow m
  | .malformed => s.swallow m

/-! ## What a handler changes -/

section Handle

variable (s : State P) (ttl : ℤ) (m : P × ℕ) (reply : Reply) (now : Instant) (payload : Payload)

@[simp] theorem handle_log : (handle s ttl m reply now payload).log = s.log := by
  cases payload <;> cases reply <;> rfl

@[simp] theorem handle_committed : (handle s ttl m reply now payload).committed = s.committed := by
  cases payload <;> cases reply <;> rfl

@[simp] theorem handle_position : (handle s ttl m reply now payload).position = s.position := by
  cases payload <;> cases reply <;> rfl

theorem applied_subset_handle : s.applied ⊆ (handle s ttl m reply now payload).applied := by
  cases payload <;> cases reply <;> simp [handle, State.write, State.countAgg, State.swallow]

theorem swallowed_subset_handle : s.swallowed ⊆ (handle s ttl m reply now payload).swallowed := by
  cases payload <;> cases reply <;> simp [handle, State.write, State.countAgg, State.swallow]

/-- The keys of the hashes stay. -/
theorem keys_subset_handle : s.redis.hashes.map Prod.fst ⊆
    (handle s ttl m reply now payload).redis.hashes.map Prod.fst := by
  intro key hkey
  cases payload with
  | aggMinute d =>
      cases reply with
      | executed => exact mem_keys_handleAgg.2 (.inr hkey)
      | refused => exact hkey
      | lost => exact mem_keys_handleAgg.2 (.inr hkey)
  | lateEvent => cases reply <;> exact hkey
  | alert => cases reply <;> exact hkey
  | malformed => exact hkey

/-- A message is applied by its handler, which then has written its window, or was so before. -/
theorem mem_applied_handle {m' : P × ℕ} (h : m' ∈ (handle s ttl m reply now payload).applied) :
    m' ∈ s.applied ∨ (m' = m ∧ ∃ d, payload = .aggMinute d ∧
      aggKey d ∈ (handle s ttl m reply now payload).redis.hashes.map Prod.fst) := by
  cases payload with
  | aggMinute d =>
      have hwritten : aggKey d ∈ (handleAgg ttl now s.redis d).hashes.map Prod.fst :=
        mem_keys_handleAgg.2 (.inl rfl)
      cases reply with
      | executed => exact (List.mem_cons.1 h).symm.imp_right fun hm => ⟨hm, d, rfl, hwritten⟩
      | refused => exact .inl h
      | lost => exact (List.mem_cons.1 h).symm.imp_right fun hm => ⟨hm, d, rfl, hwritten⟩
  | lateEvent => cases reply <;> exact .inl h
  | alert => cases reply <;> exact .inl h
  | malformed => exact .inl h

/-- A well-formed aggregate is applied or its handler raises. -/
theorem handle_aggMinute (d : AggMinute) :
    m ∈ (handle s ttl m reply now (.aggMinute d)).applied ∨
      m ∈ (handle s ttl m reply now (.aggMinute d)).swallowed := by
  cases reply with
  | executed => exact .inl List.mem_cons_self
  | refused => exact .inr List.mem_cons_self
  | lost => exact .inl List.mem_cons_self

end Handle

/-! ## The loop -/

variable [DecidableEq P] (ttl : ℤ)

def step (s : State P) : Action P → Option (State P)
  | .produce p payload =>
    some { s with log := Function.update s.log p (s.log p ++ [payload]) }
  | .poll p =>
    match s.current with
    | some _ => none
    | none =>
      if s.position p < (s.log p).length then
        some { s with
          current := some (p, s.position p)
          position := Function.update s.position p (s.position p + 1) }
      else none
  | .pollError partitionEof =>
    match s.current with
    | some _ => none
    | none =>
      if partitionEof then some s
      else some { s with stats := { s.stats with err := s.stats.err + 1 } }
  | .handle reply now =>
    match s.current with
    | none => none
    | some m => ((s.log m.1)[m.2]?).map fun payload => (handle s ttl m reply now payload).settle
  | .commit p offset =>
    if s.committed p ≤ offset ∧ offset ≤ s.position p then
      some { s with committed := Function.update s.committed p offset }
    else none
  | .restart => some s.restarted

/-- The consumer of the partitions `P`. -/
def consumer (P : Type) [DecidableEq P] (ttl : ℤ) : Lib.System (State P) (Action P) :=
  ⟨start, step ttl⟩

/-! ## What a step does -/

/-- What each action does, with the guards that matter below. -/
inductive Steps (s : State P) : Action P → State P → Prop
  | produce (p : P) (payload : Payload) :
      Steps s (.produce p payload) { s with log := Function.update s.log p (s.log p ++ [payload]) }
  | poll {p : P} (hidle : s.current = none) (hlog : s.position p < (s.log p).length) :
      Steps s (.poll p) { s with
        current := some (p, s.position p)
        position := Function.update s.position p (s.position p + 1) }
  | pollError (partitionEof : Bool) (stats : Stats) :
      Steps s (.pollError partitionEof) { s with stats := stats }
  | handle {m : P × ℕ} {payload : Payload} (reply : Reply) (now : Instant)
      (hm : s.current = some m) (hpayload : (s.log m.1)[m.2]? = some payload) :
      Steps s (.handle reply now) (handle s ttl m reply now payload).settle
  | commit {p : P} {offset : ℕ} (hlow : s.committed p ≤ offset) (hhigh : offset ≤ s.position p) :
      Steps s (.commit p offset) { s with committed := Function.update s.committed p offset }
  | restart : Steps s .restart s.restarted

variable {ttl}

/-- A step does what its action does. -/
theorem steps_of_step {s t : State P} {a : Action P} (h : step ttl s a = some t) :
    Steps ttl s a t := by
  cases a with
  | produce p payload =>
      obtain rfl := Option.some.inj h
      exact .produce p payload
  | poll p =>
      simp only [step] at h
      split at h
      · cases h
      · rename_i hidle
        split_ifs at h with hlog
        obtain rfl := Option.some.inj h
        exact .poll hidle hlog
  | pollError partitionEof =>
      simp only [step] at h
      split at h
      · cases h
      · split_ifs at h <;> obtain rfl := Option.some.inj h
        · exact .pollError partitionEof s.stats
        · exact .pollError partitionEof _
  | handle reply now =>
      simp only [step] at h
      split at h
      · cases h
      · rename_i m hm
        obtain ⟨payload, hpayload, rfl⟩ := Option.map_eq_some_iff.1 h
        exact .handle reply now hm hpayload
  | commit p offset =>
      simp only [step] at h
      split_ifs at h with hrange
      obtain rfl := Option.some.inj h
      exact .commit hrange.1 hrange.2
  | restart =>
      obtain rfl := Option.some.inj h
      exact .restart

/-! ## At least once -/

/-- The message is a well-formed one of `agg.minute`. -/
def IsAgg (s : State P) (m : P × ℕ) (d : AggMinute) : Prop :=
  (s.log m.1)[m.2]? = some (.aggMinute d)

/-- Every well-formed aggregate whose offset is committed has been applied. -/
def AtLeastOnce (s : State P) : Prop :=
  ∀ p offset d, offset < s.committed p → IsAgg s (p, offset) d → (p, offset) ∈ s.applied

/-- Every message applied has its hash, until that expires. -/
def Stored (s : State P) : Prop :=
  ∀ m ∈ s.applied, ∃ d, IsAgg s m d ∧ aggKey d ∈ s.redis.hashes.map Prod.fst

/-- The process has polled the message, and it is still in hand or its handler has raised. -/
def Unsettled (s : State P) (m : P × ℕ) : Prop := s.current = some m ∨ m ∈ s.swallowed

/-- A commit does not pass a well-formed aggregate that is in hand or was swallowed, unless it was
applied all the same. -/
def CommitSafe (s : State P) : Action P → Prop
  | .commit p offset =>
    ∀ o < offset, ∀ d, IsAgg s (p, o) d → Unsettled s (p, o) → (p, o) ∈ s.applied
  | _ => True

/-- What holds of every state of the consumer: of the messages polled and not committed, each
well-formed aggregate is applied or unsettled. -/
structure Inv (s : State P) : Prop where
  ordered : ∀ p, s.committed p ≤ s.position p
  bounded : ∀ p, s.position p ≤ (s.log p).length
  covered : ∀ p o d, s.committed p ≤ o → o < s.position p → IsAgg s (p, o) d →
    (p, o) ∈ s.applied ∨ Unsettled s (p, o)
  stored : Stored s

omit [DecidableEq P] in
theorem Inv.start : Inv (start : State P) where
  ordered _ := le_refl _
  bounded _ := le_refl _
  covered := by
    intro p o d _ ho
    exact absurd ho (Nat.not_lt_zero o)
  stored := by
    intro m hm
    cases hm

/-- A message that is in the log stays what it is when another is appended. -/
theorem isAgg_produce {s : State P} {p : P} {payload : Payload} {m : P × ℕ} {d : AggMinute}
    (hm : m.2 < (s.log m.1).length) :
    IsAgg { s with log := Function.update s.log p (s.log p ++ [payload]) } m d ↔ IsAgg s m d := by
  unfold IsAgg
  by_cases hp : m.1 = p
  · subst hp
    simp only [Function.update_self]
    rw [List.getElem?_append_left hm]
  · simp only [Function.update_of_ne hp]

omit [DecidableEq P] in
theorem IsAgg.lt_length {s : State P} {m : P × ℕ} {d : AggMinute} (h : IsAgg s m d) :
    m.2 < (s.log m.1).length := by
  obtain ⟨hlt, -⟩ := List.getElem?_eq_some_iff.1 h
  exact hlt

theorem length_log_produce (s : State P) (p q : P) (payload : Payload) :
    (s.log q).length ≤ (Function.update s.log p (s.log p ++ [payload]) q).length := by
  by_cases hq : q = p
  · subst hq
    rw [Function.update_self, List.length_append]
    omega
  · rw [Function.update_of_ne hq]

theorem Inv.produce {s : State P} (h : Inv s) (p : P) (payload : Payload) :
    Inv { s with log := Function.update s.log p (s.log p ++ [payload]) } where
  ordered := h.ordered
  bounded q := le_trans (h.bounded q) (length_log_produce s p q payload)
  covered := by
    intro q o d hlow hhigh hagg
    have hlt : o < (s.log q).length := lt_of_lt_of_le hhigh (h.bounded q)
    exact h.covered q o d hlow hhigh ((isAgg_produce hlt).1 hagg)
  stored := by
    intro m hm
    obtain ⟨d, hagg, hkey⟩ := h.stored m hm
    exact ⟨d, (isAgg_produce hagg.lt_length).2 hagg, hkey⟩

theorem Inv.poll {s : State P} (h : Inv s) {p : P} (hidle : s.current = none)
    (hlog : s.position p < (s.log p).length) :
    Inv { s with
      current := some (p, s.position p)
      position := Function.update s.position p (s.position p + 1) } where
  ordered := by
    intro q
    show s.committed q ≤ Function.update s.position p (s.position p + 1) q
    by_cases hq : q = p
    · subst hq
      rw [Function.update_self]
      exact Nat.le_succ_of_le (h.ordered q)
    · rw [Function.update_of_ne hq]
      exact h.ordered q
  bounded := by
    intro q
    show Function.update s.position p (s.position p + 1) q ≤ _
    by_cases hq : q = p
    · subst hq
      rw [Function.update_self]
      exact hlog
    · rw [Function.update_of_ne hq]
      exact h.bounded q
  covered := by
    intro q o d hlow hhigh hagg
    change o < Function.update s.position p (s.position p + 1) q at hhigh
    -- no message was in hand, and the new one is the only one polled since
    have hbefore : o < s.position q → (q, o) ∈ s.applied ∨ (q, o) ∈ s.swallowed := by
      intro ho
      refine (h.covered q o d hlow ho hagg).imp_right fun hopen => ?_
      rcases hopen with hcurrent | hswallowed
      · rw [hidle] at hcurrent
        cases hcurrent
      · exact hswallowed
    by_cases hq : q = p
    · subst hq
      rw [Function.update_self] at hhigh
      rcases Nat.lt_succ_iff_lt_or_eq.1 hhigh with ho | rfl
      · exact (hbefore ho).imp_right .inr
      · exact .inr (.inl rfl)
    · rw [Function.update_of_ne hq] at hhigh
      exact (hbefore hhigh).imp_right .inr
  stored := h.stored

omit [DecidableEq P] in
theorem Inv.handle {s : State P} (h : Inv s) {m : P × ℕ} {payload : Payload} (reply : Reply)
    (now : Instant) (hm : s.current = some m) (hpayload : (s.log m.1)[m.2]? = some payload) :
    Inv (handle s ttl m reply now payload).settle where
  ordered := by
    intro p
    simpa [State.settle] using h.ordered p
  bounded := by
    intro p
    simpa [State.settle] using h.bounded p
  covered := by
    intro p o d hlow hhigh hagg
    simp only [State.settle, handle_committed, handle_position] at hlow hhigh
    replace hagg : IsAgg s (p, o) d := by
      simpa [IsAgg, State.settle] using hagg
    rcases h.covered p o d hlow hhigh hagg with happlied | hcurrent | hswallowed
    · exact .inl (applied_subset_handle s ttl m reply now payload happlied)
    · -- the message in hand
      obtain rfl : m = (p, o) := Option.some.inj (hm.symm.trans hcurrent)
      obtain rfl : payload = .aggMinute d := Option.some.inj (hpayload.symm.trans hagg)
      exact (handle_aggMinute s ttl (p, o) reply now d).imp_right .inr
    · exact .inr (.inr (swallowed_subset_handle s ttl m reply now payload hswallowed))
  stored := by
    intro m' hm'
    rcases mem_applied_handle s ttl m reply now payload hm' with hold | ⟨rfl, d, rfl, hkey⟩
    · obtain ⟨d, hagg, hkey⟩ := h.stored m' hold
      refine ⟨d, by simpa [IsAgg, State.settle] using hagg, ?_⟩
      exact keys_subset_handle s ttl m reply now payload hkey
    · exact ⟨d, by simpa [IsAgg, State.settle] using hpayload, hkey⟩

theorem Inv.commit {s : State P} (h : Inv s) {p : P} {offset : ℕ} (hlow : s.committed p ≤ offset)
    (hhigh : offset ≤ s.position p) :
    Inv { s with committed := Function.update s.committed p offset } where
  ordered := by
    intro q
    show Function.update s.committed p offset q ≤ s.position q
    by_cases hq : q = p
    · subst hq
      rw [Function.update_self]
      exact hhigh
    · rw [Function.update_of_ne hq]
      exact h.ordered q
  bounded := h.bounded
  covered := by
    intro q o d hq ho hagg
    refine h.covered q o d (le_trans ?_ hq) ho hagg
    show s.committed q ≤ Function.update s.committed p offset q
    by_cases heq : q = p
    · subst heq
      rw [Function.update_self]
      exact hlow
    · rw [Function.update_of_ne heq]
  stored := h.stored

omit [DecidableEq P] in
theorem Inv.restart {s : State P} (h : Inv s) : Inv s.restarted where
  ordered _ := le_refl _
  bounded p := le_trans (h.ordered p) (h.bounded p)
  covered := by
    intro p o d hlow hhigh
    exact absurd hhigh (Nat.not_lt.2 hlow)
  stored := h.stored

theorem Inv.step {s t : State P} {a : Action P} (h : Inv s) (hst : step ttl s a = some t) :
    Inv t := by
  cases steps_of_step hst with
  | produce p payload => exact h.produce p payload
  | poll hidle hlog => exact h.poll hidle hlog
  | pollError partitionEof stats => exact ⟨h.ordered, h.bounded, h.covered, h.stored⟩
  | handle reply now hm hpayload => exact h.handle reply now hm hpayload
  | commit hlow hhigh => exact h.commit hlow hhigh
  | restart => exact h.restart

/-- Exactly the safe steps keep every committed aggregate applied. -/
theorem atLeastOnce_step_iff {s t : State P} {a : Action P} (h : Inv s) (ha : AtLeastOnce s)
    (hst : step ttl s a = some t) : AtLeastOnce t ↔ CommitSafe s a := by
  cases steps_of_step hst with
  | produce p payload =>
      refine iff_of_true (fun q o d ho hagg => ha q o d ho ?_) trivial
      have hlt : o < (s.log q).length :=
        lt_of_lt_of_le ho (le_trans (h.ordered q) (h.bounded q))
      exact (isAgg_produce hlt).1 hagg
  | poll hidle hlog => exact iff_of_true ha trivial
  | pollError partitionEof stats => exact iff_of_true ha trivial
  | @handle m payload reply now hm hpayload =>
      refine iff_of_true (fun q o d ho hagg => ?_) trivial
      simp only [State.settle, handle_committed] at ho
      exact applied_subset_handle s ttl m reply now payload
        (ha q o d ho (by simpa [IsAgg, State.settle] using hagg))
  | @commit p offset hlow hhigh =>
      constructor
      · intro ht o ho d hagg _
        refine ht p o d ?_ hagg
        show o < Function.update s.committed p offset p
        rw [Function.update_self]
        exact ho
      · intro hsafe q o d ho hagg
        change o < Function.update s.committed p offset q at ho
        by_cases hq : q = p
        · subst hq
          rw [Function.update_self] at ho
          by_cases hold : o < s.committed q
          · exact ha q o d hold hagg
          · -- polled since the last commit
            have hpolled : o < s.position q := lt_of_lt_of_le ho hhigh
            rcases h.covered q o d (Nat.not_lt.1 hold) hpolled hagg with happlied | hopen
            · exact happlied
            · exact hsafe o ho d hagg hopen
        · rw [Function.update_of_ne hq] at ho
          exact ha q o d ho hagg
  | restart => exact iff_of_true ha trivial

/-- In every state of a run whose commits are safe, each committed aggregate has been applied and
each one applied has its hash, and the next step leaves one out exactly when it is an unsafe
commit. -/
theorem atLeastOnce_of_commitSafe (ttl : ℤ) (s : State P)
    (hs : (consumer P ttl).Reaches CommitSafe s) :
    AtLeastOnce s ∧ Stored s ∧
      ∀ a t, step ttl s a = some t → (AtLeastOnce t ↔ CommitSafe s a) := by
  have hreach : ∀ {s : State P}, (consumer P ttl).Reaches CommitSafe s → Inv s :=
    fun hs => hs.reachable.invariant .start fun _ _ _ hi hst => hi.step hst
  have hall : AtLeastOnce s := by
    refine hs.invariant ?_ fun s a t hs' ha hok hst =>
      (atLeastOnce_step_iff (hreach hs') ha hst).2 hok
    intro p o d ho
    exact absurd ho (Nat.not_lt_zero o)
  exact ⟨hall, (hreach hs).stored, fun a t hst => atLeastOnce_step_iff (hreach hs) hall hst⟩

/-- The window of one minute. -/
def sampleMinute : AggMinute where
  windowStart := ⟨0⟩
  windowEnd := ⟨60000000000⟩
  campaignId := "cmp-1"
  advertiser := none
  campaignName := none
  impressions := some 3
  clicks := none
  completes := none
  requests := none
  impReqRatio := none
  ssaiDupes := none

/-- A window is written and its offset committed. -/
theorem atLeastOnce_of_commitSafe_written :
    ∃ s : State Unit, s.committed () = 1 ∧ s.applied = [((), 0)] ∧ AtLeastOnce s := by
  have h0 : (consumer Unit 172800).Reaches CommitSafe start := .init
  have h1 := h0.take (.produce () (.aggMinute sampleMinute)) trivial rfl
  have h2 := h1.take (.poll ()) trivial rfl
  have h3 := h2.take (.handle .executed ⟨0⟩) trivial rfl
  have h4 := h3.take (.commit () 1)
    (by
      intro o ho d _ _
      obtain rfl : o = 0 := by omega
      exact List.mem_singleton_self _) rfl
  exact ⟨_, rfl, rfl, (atLeastOnce_of_commitSafe 172800 _ h4).1⟩

/-- Redis refuses a window, the error is swallowed and the offset committed. -/
theorem swallowed_then_committed :
    ¬ ∀ s : State Unit, (consumer Unit 172800).Reachable s → AtLeastOnce s := by
  intro h
  have hreach := Lib.System.reachable_of_run (show (consumer Unit 172800).run _
    [.produce () (.aggMinute sampleMinute), .poll (), .handle .refused ⟨0⟩, .commit () 1] =
      some _ from rfl)
  exact List.not_mem_nil (h _ hreach () 0 sampleMinute Nat.zero_lt_one rfl)

/-! ## What is written -/

/-- The aggregates that arrive are of one-minute windows. -/
def OneMinute (_ : State P) : Action P → Prop
  | .produce _ (.aggMinute d) => IsMinute d.windowStart
  | _ => True

omit [DecidableEq P] in
/-- A handler writes the window of its message, or nothing. -/
theorem written_handle {s : State P} (h : Written ttl s.redis) {m : P × ℕ} (reply : Reply)
    (now : Instant) {payload : Payload}
    (hpayload : ∀ d, payload = .aggMinute d → IsMinute d.windowStart) :
    Written ttl (handle s ttl m reply now payload).redis := by
  cases payload with
  | aggMinute d =>
      cases reply with
      | executed => exact h.handleAgg now d (hpayload d rfl)
      | refused => exact h
      | lost => exact h.handleAgg now d (hpayload d rfl)
  | lateEvent => cases reply <;> exact h
  | alert => cases reply <;> exact h
  | malformed => exact h

/-- Where the aggregates are of one-minute windows, so is all that Redis holds, however often
messages are polled again, refused or lost. -/
theorem written_of_oneMinute {s : State P} (hs : (consumer P ttl).Reaches OneMinute s) :
    Written ttl s.redis := by
  have hall : (∀ m d, IsAgg s m d → IsMinute d.windowStart) ∧ Written ttl s.redis := by
    refine hs.invariant (I := fun s =>
      (∀ m d, IsAgg s m d → IsMinute d.windowStart) ∧ Written ttl s.redis) ?_ ?_
    · refine ⟨fun m d hagg => ?_, .empty⟩
      cases hagg
    rintro s a t - ⟨hlog, hwritten⟩ hok hst
    cases steps_of_step hst with
    | produce p payload =>
        refine ⟨fun m d hagg => ?_, hwritten⟩
        by_cases hm : m.2 < (s.log m.1).length
        · exact hlog m d ((isAgg_produce hm).1 hagg)
        · -- the message is the new one
          simp only [IsAgg] at hagg
          by_cases hp : m.1 = p
          · subst hp
            rw [Function.update_self, List.getElem?_append_right (Nat.not_lt.1 hm)] at hagg
            obtain rfl := List.mem_singleton.1 (List.mem_of_getElem? hagg)
            exact hok
          · rw [Function.update_of_ne hp] at hagg
            exact absurd (List.getElem?_eq_some_iff.1 hagg).1 hm
    | poll hidle hlt => exact ⟨hlog, hwritten⟩
    | pollError partitionEof stats => exact ⟨hlog, hwritten⟩
    | @handle m payload reply now hm hpayload =>
        refine ⟨fun m' d hagg => hlog m' d ?_, written_handle hwritten reply now ?_⟩
        · simpa [IsAgg, State.settle] using hagg
        · rintro d rfl
          exact hlog m d hpayload
    | commit hlow hhigh => exact ⟨hlog, hwritten⟩
    | restart => exact ⟨hlog, hwritten⟩
  exact hall.2

end Consumer

end AdPipeline.RedisWriter
