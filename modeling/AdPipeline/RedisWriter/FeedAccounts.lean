import AdPipeline.Lib.Repeats
import AdPipeline.RedisWriter.FeedLoop
import AdPipeline.Settlement.Alerts

/-!
# What the late counters and the alert list are worth

Each late event of the job goes to `late.events` and into `late_dropped`, and each alert goes to
`alert.anomaly`. The table has an id once. The counters of Redis have each message as often as its
pipeline was executed, so they exceed the table by the messages executed again and the ids that were
late twice (`totals_accounted`). The minutes of `/agg/series` and the list of `/alerts` differ from
what the job has put out by the same messages (`series_accounted`, `alerts_accounted`).
-/

namespace AdPipeline.RedisWriter

open Lib
open AdPipeline.Stream (job Job WindowKey Counts floorToMinute)
open AdPipeline.Settlement (AlertSettings alertSink)

namespace FeedLoop

/-- `late_events_sink`: what `handle_late` reads of the message of a late event. -/
def lateEventsSink (e : Stream.Event) : FeedEntry := .late (.ofEpochMilli e.eventTime)

variable {P : Type} [DecidableEq P] {ttl : ℤ} {s : State P}

/-- The messages executed with an entry of some sort, as often as they were. -/
def State.sentWhere (s : State P) (p : FeedEntry → Bool) : List (P × ℕ) :=
  (s.executed.filter fun x => p x.entry).map Execution.message

/-- The entries of some sort that were executed, newest first. -/
def State.entriesWhere (s : State P) (p : FeedEntry → Bool) : List FeedEntry :=
  (s.executed.map Execution.entry).filter p

/-- Each item has a message of its own, in that order, all of these are committed, and there are no
other messages of the sort. -/
def Published (sort : FeedEntry → Bool) (items : List FeedEntry) (s : State P) : Prop :=
  ∃ ms : List (P × ℕ), ms.Nodup ∧ ms.map s.entryAt = items.map some ∧
    (∀ m ∈ ms, m.2 < s.loop.committed m.1) ∧
    ∀ m e, s.entryAt m = some e → sort e = true → m ∈ ms

/-! ## What was executed of what was published -/

/-- The messages executed have the entries executed. -/
theorem filterMap_sentWhere (h : Inv ttl s) (p : FeedEntry → Bool) :
    (s.sentWhere p).filterMap s.entryAt = s.entriesWhere p := by
  have hall : ∀ x ∈ s.executed.filter (fun x => p x.entry),
      (s.entryAt ∘ Execution.message) x = (some ∘ Execution.entry) x := fun x hx =>
    h.logged x (List.mem_of_mem_filter hx)
  rw [State.sentWhere, State.entriesWhere, List.filterMap_map, List.filter_map,
    List.filterMap_congr hall, List.filterMap_eq_map]
  rfl

theorem mem_sentWhere (h : Inv ttl s) {p : FeedEntry → Bool} {m : P × ℕ} :
    m ∈ s.sentWhere p ↔ m ∈ s.sent ∧ ∃ e, s.entryAt m = some e ∧ p e = true := by
  constructor
  · intro hm
    obtain ⟨x, hx, rfl⟩ := List.mem_map.1 hm
    obtain ⟨hx, hp⟩ := List.mem_filter.1 hx
    exact ⟨List.mem_map_of_mem hx, x.entry, h.logged x hx, hp⟩
  · rintro ⟨hm, e, he, hp⟩
    obtain ⟨x, hx, rfl⟩ := List.mem_map.1 hm
    obtain rfl := Option.some.inj ((h.logged x hx).symm.trans he)
    exact List.mem_map_of_mem (List.mem_filter.2 ⟨hx, hp⟩)

/-- Of what was published all is executed, and besides only what is executed again. -/
theorem perm_entriesWhere (h : Inv ttl s) (ha : AtLeastOnce s) {sort p : FeedEntry → Bool}
    {items : List FeedEntry} (hpub : Published sort items s)
    (hp : ∀ e, p e = true → sort e = true) :
    ∃ again, (s.entriesWhere p).Perm (items.filter p ++ again) ∧
      again.length = repeats (s.sentWhere p) := by
  obtain ⟨ms, hnodup, hitems, hcommitted, honly⟩ := hpub
  -- the different messages executed are the published ones
  have hdedup : (s.sentWhere p).dedup.Perm (ms.filter fun m => (s.entryAt m).any p) := by
    refine (List.perm_ext_iff_of_nodup (List.nodup_dedup _) (hnodup.filter _)).2 fun m => ?_
    rw [List.mem_dedup, mem_sentWhere h, List.mem_filter, Option.any_eq_true]
    constructor
    · rintro ⟨-, e, he, hpe⟩
      exact ⟨honly m e he (hp e hpe), e, he, hpe⟩
    · rintro ⟨hm, e, he, hpe⟩
      exact ⟨ha m e (hcommitted m hm) he, e, he, hpe⟩
  have hpublished : (ms.filter fun m => (s.entryAt m).any p).filterMap s.entryAt =
      items.filter p := by
    calc (ms.filter fun m => (s.entryAt m).any p).filterMap s.entryAt
        = ((ms.map s.entryAt).filter fun e => e.any p).filterMap id := by
          rw [List.filter_map, List.filterMap_map]
          rfl
      _ = ((items.map some).filter fun e => e.any p).filterMap id := by rw [hitems]
      _ = items.filter p := by
          rw [List.filter_map, List.filterMap_map]
          exact List.filterMap_some
  obtain ⟨rest, hrest⟩ := (List.dedup_sublist (s.sentWhere p)).exists_perm_append
  have hrestSent : ∀ m ∈ rest, ∃ e, s.entryAt m = some e := by
    intro m hm
    obtain ⟨-, e, he, -⟩ := (mem_sentWhere h).1 (hrest.symm.subset (List.mem_append_right _ hm))
    exact ⟨e, he⟩
  refine ⟨rest.filterMap s.entryAt, ?_, ?_⟩
  · rw [← filterMap_sentWhere h, ← hpublished, ← List.filterMap_append]
    exact (hrest.trans (hdedup.append_right rest)).filterMap _
  · have hlength : (rest.filterMap s.entryAt).length = rest.length := by
      rw [List.filterMap_length_eq_length]
      intro m hm
      obtain ⟨e, he⟩ := hrestSent m hm
      rw [he]
      rfl
    have htotal := hrest.length_eq
    rw [List.length_append] at htotal
    have hrepeats := repeats_add_length_dedup (s.sentWhere p)
    omega

/-- So many entries of a sort were executed. -/
theorem length_entriesWhere (h : Inv ttl s) (ha : AtLeastOnce s) {sort p : FeedEntry → Bool}
    {items : List FeedEntry} (hpub : Published sort items s)
    (hp : ∀ e, p e = true → sort e = true) :
    (s.entriesWhere p).length = items.countP p + repeats (s.sentWhere p) := by
  obtain ⟨again, hperm, hlength⟩ := perm_entriesWhere h ha hpub hp
  rw [hperm.length_eq, List.length_append, hlength, List.countP_eq_length_filter]

/-- What Redis has, by the entries executed. -/
theorem lateTotal_eq (h : Inv ttl s) :
    s.feeds.lateTotal = (s.entriesWhere FeedEntry.isLate).length := by
  rw [h.feeds, lateTotal_fed, List.countP_map, State.entriesWhere, ← List.countP_eq_length_filter,
    List.countP_map]
  rfl

theorem alertsTotal_eq (h : Inv ttl s) :
    s.feeds.alertsTotal = (s.entriesWhere FeedEntry.isAlert).length := by
  rw [h.feeds, alertsTotal_fed, List.countP_map, State.entriesWhere,
    ← List.countP_eq_length_filter, List.countP_map]
  rfl

omit [DecidableEq P] in
/-- While no entry of a sort has expired, Redis has all that were executed. -/
theorem newest_executed (htimely : Timely s) {now : Instant} {p : FeedEntry → Bool}
    (hpast : ∀ x ∈ s.executed, x.now.epochSecond ≤ now.epochSecond)
    (hrecent : ∀ x ∈ s.executed, p x.entry = true → now.epochSecond < x.now.epochSecond + ttl) :
    newest ttl now p (s.executed.map fun x => (x.now, x.entry)) = s.entriesWhere p := by
  rw [newest_eq, List.map_map]
  · rfl
  · exact List.pairwise_map.2 htimely.clock
  · intro x hx
    obtain ⟨y, hy, rfl⟩ := List.mem_map.1 hx
    exact hpast y hy
  · intro x hx hp
    obtain ⟨y, hy, rfl⟩ := List.mem_map.1 hx
    exact hrecent y hy hp

/-! ## The totals -/

/-- What the totals of Redis are, next to what the job has put out. -/
structure Totals (j : Job) (raised : List (WindowKey × Counts)) (s : State P) : Prop where
  /-- The ids in `late_dropped`, the ids that were late once more, and the messages executed once
  more. -/
  late : s.feeds.lateTotal = j.lateDropped.length + repeats (j.late.map Stream.Event.eventId) +
    repeats (s.sentWhere FeedEntry.isLate)
  alerts : s.feeds.alertsTotal = raised.length + repeats (s.sentWhere FeedEntry.isAlert)
  /-- A message is executed once more only after a restart has gone back behind it. -/
  once : ∀ m, s.sent.count m ≤ 1 + s.rewinds m
  /-- Where no restart has, and no copy of an id outlives its dedup state, both are exact. -/
  undisturbed : (∀ m ∈ s.sent, s.rewinds m = 0) → (∀ id, Stream.WithinTtl j.arrived id) →
    s.feeds.lateTotal = j.lateDropped.length ∧ s.feeds.alertsTotal = raised.length

/-- `late_dropped` has each id that was late once. -/
theorem length_late {j : Job} (hj : job.Reachable j) :
    j.late.length = j.lateDropped.length + repeats (j.late.map Stream.Event.eventId) := by
  have htable := Stream.lateTable hj
  have hids : (j.lateDropped.map Stream.LateRow.eventId).Perm
      (j.late.map Stream.Event.eventId).dedup :=
    (List.perm_ext_iff_of_nodup htable.nodup (List.nodup_dedup _)).2 fun id => by
      rw [List.mem_dedup, htable.mem_iff]
  have hlength := hids.length_eq
  have hrepeats := repeats_add_length_dedup (j.late.map Stream.Event.eventId)
  rw [List.length_map] at hlength hrepeats
  omega

theorem countP_isLate (late : List Stream.Event) :
    (late.map lateEventsSink).countP FeedEntry.isLate = late.length := by
  rw [List.countP_map]
  exact List.countP_eq_length.2 fun _ _ => rfl

theorem countP_isAlert {α : Type*} (render : α → Json) (rows : List α) :
    (rows.map fun x => FeedEntry.alert (render x)).countP FeedEntry.isAlert = rows.length := by
  rw [List.countP_map]
  exact List.countP_eq_length.2 fun _ _ => rfl

theorem repeats_eq_zero {α : Type*} [DecidableEq α] {l : List α} (h : l.Nodup) : repeats l = 0 := by
  rw [repeats, h.dedup, Nat.sub_self]

/-- In every run whose commits are safe, once all that the job has put out is committed, the totals
exceed it by just the ids that were late again and the messages that were executed again. -/
theorem totals_accounted {j : Job} (hj : job.Reachable j) (a : AlertSettings)
    (render : WindowKey × Counts → Json) (hs : (feedLoop P ttl).Reaches CommitSafe s)
    (hlate : Published FeedEntry.isLate (j.late.map lateEventsSink) s)
    (halerts : Published FeedEntry.isAlert
      ((alertSink a j.agg1m).map fun x => .alert (render x)) s) :
    Totals j (alertSink a j.agg1m) s := by
  have h := inv_of_reaches hs
  have ha : AtLeastOnce s := committed_executed (fun _ _ hok => hok) hs
  have hlateTotal : s.feeds.lateTotal = j.lateDropped.length +
      repeats (j.late.map Stream.Event.eventId) + repeats (s.sentWhere FeedEntry.isLate) := by
    rw [lateTotal_eq h, length_entriesWhere h ha hlate fun _ hp => hp, countP_isLate,
      length_late hj]
  have halertsTotal : s.feeds.alertsTotal =
      (alertSink a j.agg1m).length + repeats (s.sentWhere FeedEntry.isAlert) := by
    rw [alertsTotal_eq h, length_entriesWhere h ha halerts fun _ hp => hp, countP_isAlert]
  have honce : ∀ m, s.sent.count m ≤ 1 + s.rewinds m := by
    intro m
    have hle := h.once m
    split_ifs at hle <;> omega
  refine ⟨hlateTotal, halertsTotal, honce, fun hrewinds httl => ?_⟩
  have hsent : s.sent.Nodup := by
    refine List.nodup_iff_count_le_one.2 fun m => ?_
    by_cases hm : m ∈ s.sent
    · have hle := honce m
      rw [hrewinds m hm] at hle
      exact hle
    · rw [List.count_eq_zero_of_not_mem hm]
      exact Nat.zero_le 1
  have hnone : ∀ p, repeats (s.sentWhere p) = 0 := fun p =>
    repeats_eq_zero (hsent.sublist (List.filter_sublist.map _))
  have hids : (j.late.map Stream.Event.eventId).Nodup := by
    have hnodup := Stream.nodup_deduped hj httl
    rw [((Stream.deduped_perm hj).map Stream.Event.eventId).nodup_iff, List.map_append] at hnodup
    exact (List.nodup_append.1 hnodup).2.1
  rw [hlateTotal, halertsTotal, hnone, hnone, repeats_eq_zero hids]
  exact ⟨rfl, rfl⟩

/-! ## A run with a restart -/

/-- Two late events, and an alert. -/
def restartedMessages : List Message :=
  [.lateEvent (some (.ofEpochMilli 2000)), .lateEvent (some (.ofEpochMilli 2500)), .alert .null]

omit [DecidableEq P] in
/-- A late event in hand is handled in time. -/
theorem inTime_of_late {reply : Consumer.Reply} {now : Instant} {m : P × ℕ} {t : Instant}
    (hclock : ∀ x ∈ s.executed, x.now.epochSecond ≤ now.epochSecond)
    (hm : s.loop.current = some m) (he : s.entryAt m = some (.late t))
    (hbegun : (minuteStart t).epochSecond ≤ now.epochSecond) : InTime s (.handle reply now) := by
  refine ⟨hclock, fun m' t' hm' he' => ?_⟩
  obtain rfl := Option.some.inj (hm.symm.trans hm')
  obtain rfl := FeedEntry.late.inj (Option.some.inj (he.symm.trans he'))
  exact hbegun

/-- The second late event is executed, but the reply is lost. The process starts again before a
commit and handles all three messages. -/
theorem exists_restarted : ∃ s : State Unit,
    (feedLoop Unit 172800).Reaches (fun s a => CommitSafe s a ∧ InTime s a) s ∧
      s.messages () = restartedMessages ∧ s.loop.committed () = 3 ∧
      (s.feeds.lateTotal = 4 ∧ s.feeds.alertsTotal = 1) ∧
      lateSeries s.feeds ⟨70000000000⟩ 1 = [(0, 4)] ∧ ∀ x ∈ s.executed, x.now = ⟨65000000000⟩ := by
  have h0 : (feedLoop Unit 172800).Reaches (fun s a => CommitSafe s a ∧ InTime s a) start := .init
  have h1 := h0.take (.produce () (.lateEvent (some (.ofEpochMilli 2000)))) ⟨trivial, trivial⟩ rfl
  have h2 := h1.take (.produce () (.lateEvent (some (.ofEpochMilli 2500)))) ⟨trivial, trivial⟩ rfl
  have h3 := h2.take (.produce () (.alert .null)) ⟨trivial, trivial⟩ rfl
  have h4 := h3.take (.poll ()) ⟨trivial, trivial⟩ rfl
  have h5 := h4.take (.handle .executed ⟨65000000000⟩) ⟨trivial,
    inTime_of_late (by decide) rfl rfl (by decide)⟩ rfl
  have h6 := h5.take (.poll ()) ⟨trivial, trivial⟩ rfl
  have h7 := h6.take (.handle .lost ⟨65000000000⟩) ⟨trivial,
    inTime_of_late (by decide) rfl rfl (by decide)⟩ rfl
  have h8 := h7.take .restart ⟨trivial, trivial⟩ rfl
  have h9 := h8.take (.poll ()) ⟨trivial, trivial⟩ rfl
  have h10 := h9.take (.handle .executed ⟨65000000000⟩) ⟨trivial,
    inTime_of_late (by decide) rfl rfl (by decide)⟩ rfl
  have h11 := h10.take (.poll ()) ⟨trivial, trivial⟩ rfl
  have h12 := h11.take (.handle .executed ⟨65000000000⟩) ⟨trivial,
    inTime_of_late (by decide) rfl rfl (by decide)⟩ rfl
  have h13 := h12.take (.poll ()) ⟨trivial, trivial⟩ rfl
  have h14 := h13.take (.handle .executed ⟨65000000000⟩) ⟨trivial, by decide, by
    rintro m t hm he
    obtain rfl := Option.some.inj hm
    cases he⟩ rfl
  have h15 := h14.take (.commit () 3) ⟨by
    intro o ho e _ _
    have hsent : ∀ o < 3, ((), o) ∈ [((), 2), ((), 1), ((), 0), ((), 1), ((), 0)] := by decide
    exact hsent o ho, trivial⟩ rfl
  exact ⟨_, h15, rfl, rfl, ⟨rfl, rfl⟩, by decide, by decide⟩

/-- The job has put out the two late events and the alert. -/
theorem exists_outage : ∃ j : Job, job.run Job.start Settlement.outageLog = some j ∧
    j.lateDropped.length = 2 ∧
    j.late.map lateEventsSink = [.late (.ofEpochMilli 2000), .late (.ofEpochMilli 2500)] ∧
    (alertSink Settlement.halfSettings j.agg1m).map (fun _ => FeedEntry.alert .null) =
      [.alert .null] :=
  ⟨_, rfl, rfl, rfl, rfl⟩

section Restarted

variable {s : State Unit} (hmessages : s.messages () = restartedMessages)

include hmessages

theorem entryAt_restarted (o : ℕ) :
    s.entryAt ((), o) = restartedMessages[o]?.bind Message.entry := by
  rw [State.entryAt, hmessages]

theorem published_restartedLate (hcommitted : s.loop.committed () = 3) :
    Published FeedEntry.isLate [.late (.ofEpochMilli 2000), .late (.ofEpochMilli 2500)] s := by
  refine ⟨[((), 0), ((), 1)], by decide, ?_, ?_, ?_⟩
  · rw [List.map_cons, List.map_singleton, entryAt_restarted hmessages,
      entryAt_restarted hmessages]
    rfl
  · rintro ⟨⟨⟩, o⟩ ho
    rw [hcommitted]
    have hsmall : ∀ m ∈ [((), 0), ((), 1)], m.2 < 3 := by decide
    exact hsmall _ ho
  · rintro ⟨⟨⟩, o⟩ e he hsort
    rw [entryAt_restarted hmessages] at he
    match o with
    | 0 => exact List.mem_cons_self
    | 1 => exact List.mem_cons_of_mem _ List.mem_cons_self
    | 2 =>
        obtain rfl := Option.some.inj he
        cases hsort
    | o + 3 => cases he

theorem published_restartedAlert (hcommitted : s.loop.committed () = 3) :
    Published FeedEntry.isAlert [.alert .null] s := by
  refine ⟨[((), 2)], by decide, ?_, ?_, ?_⟩
  · rw [List.map_singleton, entryAt_restarted hmessages]
    rfl
  · rintro m hm
    obtain rfl := List.mem_singleton.1 hm
    rw [hcommitted]
    exact Nat.lt_succ_self 2
  · rintro ⟨⟨⟩, o⟩ e he hsort
    rw [entryAt_restarted hmessages] at he
    match o with
    | 0 =>
        obtain rfl := Option.some.inj he
        cases hsort
    | 1 =>
        obtain rfl := Option.some.inj he
        cases hsort
    | 2 => exact List.mem_singleton_self _
    | o + 3 => cases he

end Restarted

/-- Two late events are counted four times. -/
theorem totals_accounted_restarted : ∃ (j : Job) (s : State Unit),
    job.run Job.start Settlement.outageLog = some j ∧ j.lateDropped.length = 2 ∧
      Totals j (alertSink Settlement.halfSettings j.agg1m) s ∧ s.feeds.lateTotal = 4 := by
  obtain ⟨s, hs, hmessages, hcommitted, htotal, -, -⟩ := exists_restarted
  obtain ⟨j, hrun, hdropped, hlate, halert⟩ := exists_outage
  refine ⟨j, s, hrun, hdropped, ?_, htotal.1⟩
  refine totals_accounted (System.reachable_of_run hrun) Settlement.halfSettings (fun _ => .null)
    (hs.mono fun _ _ hok => hok.1) ?_ ?_
  · rw [hlate]
    exact published_restartedLate hmessages hcommitted
  · rw [halert]
    exact published_restartedAlert hmessages hcommitted

/-! ## The minutes -/

/-- An event time of milliseconds shares the counter of the minute it is in. -/
theorem countsFor_lateEventsSink {m : ℤ} (hm : m % 60 = 0) (e : Stream.Event) :
    FeedEntry.countsFor (lateKey ⟨m * 1000000000⟩) (lateEventsSink e) = true ↔
      floorToMinute e.eventTime = m * 1000 := by
  rw [lateEventsSink, FeedEntry.countsFor, decide_eq_true_eq, lateKey_eq_iff, minuteStart,
    minuteStart, Instant.mk.injEq]
  simp only [Instant.ofEpochMilli, floorToMinute, Stream.minute]
  omega

/-- A late event that counts for a minute is in it. -/
theorem minuteStart_of_countsFor {m : ℤ} (hm : m % 60 = 0) {t : Instant}
    (h : FeedEntry.countsFor (lateKey ⟨m * 1000000000⟩) (.late t) = true) :
    (minuteStart t).epochSecond = m := by
  rw [FeedEntry.countsFor, decide_eq_true_eq, lateKey_eq_iff] at h
  rw [h, minuteStart, Instant.epochSecond]
  simp only
  omega

theorem isLate_of_countsFor {key : String} : ∀ e, FeedEntry.countsFor key e = true →
    FeedEntry.isLate e = true
  | .late _, _ => rfl

/-- In every run whose commits are safe and whose clock is right, once the late events of the job
are committed, each minute of `/agg/series` has the late events of that minute, and besides only
the messages executed again. -/
theorem series_accounted {j : Job}
    (hs : (feedLoop P ttl).Reaches (fun s a => CommitSafe s a ∧ InTime s a) s)
    (hlate : Published FeedEntry.isLate (j.late.map lateEventsSink) s) {now : Instant}
    (hnow : ∀ x ∈ s.executed, x.now.epochSecond ≤ now.epochSecond) {mins : ℤ}
    (hmins : 60 * (mins + 1) ≤ ttl) :
    lateSeries s.feeds now mins = (List.range (mins + 1).toNat).filterMap fun (i : ℕ) =>
      let m := now.epochSecond / 60 * 60 - i * 60
      let n := j.late.countP (fun e => floorToMinute e.eventTime = m * 1000) +
        repeats (s.sentWhere (FeedEntry.countsFor (lateKey ⟨m * 1000000000⟩)))
      if n = 0 then none else some (m, n) := by
  have h := inv_of_reaches hs
  have ha : AtLeastOnce s := committed_executed (fun _ _ hok => hok.1) hs
  have htimely := timely_of_inTime (fun _ _ hok => hok.2) hs
  refine List.filterMap_congr fun i hi => ?_
  rw [List.mem_range] at hi
  set m := now.epochSecond / 60 * 60 - (i : ℤ) * 60 with hm
  have haligned : m % 60 = 0 := by omega
  -- no late event of the minute has expired
  have hrecent : ∀ x ∈ s.executed,
      FeedEntry.countsFor (lateKey ⟨m * 1000000000⟩) x.entry = true →
        now.epochSecond < x.now.epochSecond + ttl := by
    intro x hx hcounts
    cases hentry : x.entry with
    | alert d =>
        rw [hentry] at hcounts
        cases hcounts
    | late t =>
        rw [hentry] at hcounts
        have hstart := minuteStart_of_countsFor haligned hcounts
        have hbegun := htimely.begun x hx t hentry
        omega
  have hcount : (s.entriesWhere (FeedEntry.countsFor (lateKey ⟨m * 1000000000⟩))).length =
      j.late.countP (fun e => floorToMinute e.eventTime = m * 1000) +
        repeats (s.sentWhere (FeedEntry.countsFor (lateKey ⟨m * 1000000000⟩))) := by
    rw [length_entriesWhere h ha hlate isLate_of_countsFor, List.countP_map]
    congr 1
    refine List.countP_congr fun e _ => ?_
    rw [Function.comp_apply, countsFor_lateEventsSink haligned, decide_eq_true_eq]
  simp only
  rw [h.feeds, get_fed, newest_executed htimely hnow hrecent, ← hcount]
  by_cases hnone : s.entriesWhere (FeedEntry.countsFor (lateKey ⟨m * 1000000000⟩)) = []
  · rw [hnone, if_pos rfl, List.length_nil, if_pos rfl, Option.map_none]
  · rw [if_neg hnone, if_neg (by simpa using hnone), Option.map_some]

/-- Two late events are the four of their minute. -/
theorem series_accounted_restarted : ∃ (j : Job) (s : State Unit),
    job.run Job.start Settlement.outageLog = some j ∧
      lateSeries s.feeds ⟨70000000000⟩ 1 = [(0, 4)] ∧
      lateSeries s.feeds ⟨70000000000⟩ 1 = (List.range 2).filterMap fun (i : ℕ) =>
        let m : ℤ := 70 / 60 * 60 - i * 60
        let n := j.late.countP (fun e => floorToMinute e.eventTime = m * 1000) +
          repeats (s.sentWhere (FeedEntry.countsFor (lateKey ⟨m * 1000000000⟩)))
        if n = 0 then none else some (m, n) := by
  obtain ⟨s, hs, hmessages, hcommitted, -, hseries, hnow⟩ := exists_restarted
  obtain ⟨j, hrun, -, hlate, -⟩ := exists_outage
  refine ⟨j, s, hrun, hseries, series_accounted hs ?_ ?_ (by decide)⟩
  · rw [hlate]
    exact published_restartedLate hmessages hcommitted
  · intro x hx
    rw [hnow x hx]
    decide

/-! ## The alerts -/

/-- In every run whose commits are safe and whose clock is right, as long as no alert has expired,
`/alerts` has the newest hundred alerts executed, all of them when its limit is zero. Once the
alerts of the job are committed, and while no more than that were executed, it has each alert the
job has raised, and besides only those of messages executed again. -/
theorem alerts_accounted {j : Job} (a : AlertSettings) (render : WindowKey × Counts → Json)
    (hs : (feedLoop P ttl).Reaches (fun s a => CommitSafe s a ∧ InTime s a) s)
    {now : Instant} (hnow : ∀ x ∈ s.executed, x.now.epochSecond ≤ now.epochSecond)
    (hrecent : ∀ x ∈ s.executed, x.entry.isAlert = true →
      now.epochSecond < x.now.epochSecond + ttl) :
    (∀ limit : ℕ, 0 < limit → alertsOf s.feeds now limit =
      ((s.entriesWhere FeedEntry.isAlert).filterMap FeedEntry.json).take (min limit 100)) ∧
    alertsOf s.feeds now 0 =
      ((s.entriesWhere FeedEntry.isAlert).filterMap FeedEntry.json).take 100 ∧
    (Published FeedEntry.isAlert ((alertSink a j.agg1m).map fun x => .alert (render x)) s →
      s.feeds.alertsTotal ≤ 100 → ∃ again,
        (alertsOf s.feeds now 100).Perm ((alertSink a j.agg1m).map render ++ again) ∧
          again.length = repeats (s.sentWhere FeedEntry.isAlert)) := by
  have h := inv_of_reaches hs
  have ha : AtLeastOnce s := committed_executed (fun _ _ hok => hok.1) hs
  have htimely := timely_of_inTime (fun _ _ hok => hok.2) hs
  have hlist : ∀ limit : ℕ, 0 < limit → alertsOf s.feeds now limit =
      ((s.entriesWhere FeedEntry.isAlert).filterMap FeedEntry.json).take (min limit 100) := by
    intro limit hlimit
    rw [alertsOf, lrange_zero _ hlimit, h.feeds, live_fed, newest_executed htimely hnow hrecent,
      List.take_take]
  have hisAlert : ∀ l : List FeedEntry, (∀ e ∈ l, e.isAlert = true) →
      (l.filterMap FeedEntry.json).length = l.length := by
    intro l hl
    rw [List.filterMap_length_eq_length]
    intro e he
    have halert := hl e he
    cases e with
    | late t => cases halert
    | alert d => rfl
  refine ⟨hlist, ?_, fun halerts htotal => ?_⟩
  · rw [alertsOf_zero, h.feeds, live_fed, newest_executed htimely hnow hrecent]
  obtain ⟨again, hperm, hlength⟩ := perm_entriesWhere h ha halerts fun _ hp => hp
  have hall : ∀ e ∈ s.entriesWhere FeedEntry.isAlert, e.isAlert = true :=
    fun e he => (List.mem_filter.1 he).2
  have hraised : (((alertSink a j.agg1m).map fun x => FeedEntry.alert (render x)).filter
      FeedEntry.isAlert).filterMap FeedEntry.json = (alertSink a j.agg1m).map render := by
    rw [List.filter_eq_self.2, List.filterMap_map]
    · exact congrFun List.filterMap_eq_map _
    · intro e he
      obtain ⟨x, -, rfl⟩ := List.mem_map.1 he
      rfl
  refine ⟨again.filterMap FeedEntry.json, ?_, ?_⟩
  · have hshort : ((s.entriesWhere FeedEntry.isAlert).filterMap FeedEntry.json).length ≤ 100 := by
      rw [hisAlert _ hall, ← alertsTotal_eq h]
      exact htotal
    rw [show (100 : ℤ) = ((100 : ℕ) : ℤ) from rfl, hlist 100 (by decide), Nat.min_self,
      List.take_of_length_le hshort, ← hraised, ← List.filterMap_append]
    exact hperm.filterMap _
  · rw [hisAlert again fun e he => hall e (hperm.symm.subset (List.mem_append_right _ he)), hlength]

/-- The alert of the run is shown. -/
theorem alerts_accounted_restarted : ∃ (j : Job) (s : State Unit),
    job.run Job.start Settlement.outageLog = some j ∧
      (alertSink Settlement.halfSettings j.agg1m).length = 1 ∧
      ∃ again, (alertsOf s.feeds ⟨70000000000⟩ 100).Perm
        ((alertSink Settlement.halfSettings j.agg1m).map (fun _ => Json.null) ++ again) ∧
        again.length = repeats (s.sentWhere FeedEntry.isAlert) := by
  obtain ⟨s, hs, hmessages, hcommitted, htotals, -, hnow⟩ := exists_restarted
  obtain ⟨j, hrun, -, -, halert⟩ := exists_outage
  refine ⟨j, s, hrun, by simpa using congrArg List.length halert, ?_⟩
  refine (alerts_accounted Settlement.halfSettings (fun _ => Json.null) hs ?_ ?_).2.2 ?_ ?_
  · intro x hx
    rw [hnow x hx]
    decide
  · intro x hx _
    rw [hnow x hx]
    decide
  · rw [halert]
    exact published_restartedAlert hmessages hcommitted
  · rw [htotals.2]
    decide

end FeedLoop

end AdPipeline.RedisWriter
