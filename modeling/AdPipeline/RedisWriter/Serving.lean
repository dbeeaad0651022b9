import AdPipeline.RedisWriter.Consumer
import AdPipeline.RedisWriter.Exactness
import AdPipeline.Settlement.Reconcile
import AdPipeline.Stream.Accounting

/-!
# Serving the rows of the realtime job

`agg_minute_sink` publishes each row of `agg_1m` as a message of `agg.minute`, the consumer loop
writes the messages into Redis, and `/agg/summary` adds the windows of a range up. In every run of
the consumer Redis is what some messages of the log have made of it (`exists_executed`). When these
are of rows and have all rows of a scope among them, the summary of the scope has the totals of the
rows (`FromRows.entry_served`).
-/

namespace AdPipeline.RedisWriter

open Lib AdPipeline.Stream AdPipeline.Settlement

/-! ## What the consumer has written -/

namespace Consumer

variable {P : Type} {ttl : ℤ}

/-- Every aggregate in hand is handled at a time that suits it. -/
def HandledWhen (suits : Instant → AggMinute → Prop) (s : State P) : Action P → Prop
  | .handle _ now => ∀ m d, s.current = some m → IsAgg s m d → suits now d
  | _ => True

/-- Redis is what some messages of the log have made of it, each handled at a time that suits it,
and all the messages applied are among them. -/
structure Executed (ttl : ℤ) (suits : Instant → AggMinute → Prop) (s : State P)
    (ds : List (Instant × AggMinute)) : Prop where
  redis : s.redis = deliver ttl ds
  logged : ∀ x ∈ ds, ∃ m, IsAgg s m x.2
  suited : ∀ x ∈ ds, suits x.1 x.2
  applied : ∀ m ∈ s.applied, ∃ x ∈ ds, IsAgg s m x.2

variable {suits : Instant → AggMinute → Prop} {s : State P} {ds : List (Instant × AggMinute)}

/-- What a step leaves of the log, of Redis and of the messages applied. -/
theorem Executed.of_same {t : State P} (h : Executed ttl suits s ds)
    (hlog : ∀ m d, IsAgg s m d → IsAgg t m d) (hredis : t.redis = s.redis)
    (happlied : t.applied = s.applied) : Executed ttl suits t ds where
  redis := hredis.trans h.redis
  logged x hx := by
    obtain ⟨m, hm⟩ := h.logged x hx
    exact ⟨m, hlog m x.2 hm⟩
  suited := h.suited
  applied m hm := by
    rw [happlied] at hm
    obtain ⟨x, hx, hagg⟩ := h.applied m hm
    exact ⟨x, hx, hlog m x.2 hagg⟩

/-- A window that is written is one more message executed. -/
theorem Executed.write {t : State P} (h : Executed ttl suits s ds) {m : P × ℕ} {d : AggMinute}
    {now : Instant} (hagg : IsAgg s m d) (hsuits : suits now d)
    (hlog : ∀ m d, IsAgg s m d → IsAgg t m d) (hredis : t.redis = handleAgg ttl now s.redis d)
    (happlied : t.applied = m :: s.applied) : Executed ttl suits t (ds ++ [(now, d)]) where
  redis := by rw [hredis, h.redis, deliver_append]
  logged x hx := by
    rcases List.mem_append.1 hx with hold | hnew
    · obtain ⟨m', hm'⟩ := h.logged x hold
      exact ⟨m', hlog m' x.2 hm'⟩
    · obtain rfl := List.mem_singleton.1 hnew
      exact ⟨m, hlog m d hagg⟩
  suited x hx := by
    rcases List.mem_append.1 hx with hold | hnew
    · exact h.suited x hold
    · obtain rfl := List.mem_singleton.1 hnew
      exact hsuits
  applied m' hm' := by
    rw [happlied] at hm'
    rcases List.mem_cons.1 hm' with rfl | hold
    · exact ⟨(now, d), List.mem_append_right _ List.mem_cons_self, hlog m' d hagg⟩
    · obtain ⟨x, hx, hx'⟩ := h.applied m' hold
      exact ⟨x, List.mem_append_left _ hx, hlog m' x.2 hx'⟩

/-- A handler executes its message, or leaves Redis and the messages applied alone. -/
theorem Executed.handle (h : Executed ttl suits s ds) {m : P × ℕ} {payload : Payload}
    (reply : Reply) (now : Instant) (hpayload : (s.log m.1)[m.2]? = some payload)
    (hsuits : ∀ d, IsAgg s m d → suits now d) :
    ∃ ds', Executed ttl suits (handle s ttl m reply now payload).settle ds' := by
  have hlog : ∀ m' d', IsAgg s m' d' →
      IsAgg (Consumer.handle s ttl m reply now payload).settle m' d' := by
    intro m' d' hagg
    simpa [IsAgg, State.settle] using hagg
  cases payload with
  | aggMinute d =>
      cases reply with
      | executed => exact ⟨_, h.write hpayload (hsuits d hpayload) hlog rfl rfl⟩
      | refused => exact ⟨ds, h.of_same hlog rfl rfl⟩
      | lost => exact ⟨_, h.write hpayload (hsuits d hpayload) hlog rfl rfl⟩
  | lateEvent => cases reply <;> exact ⟨ds, h.of_same hlog rfl rfl⟩
  | alert => cases reply <;> exact ⟨ds, h.of_same hlog rfl rfl⟩
  | malformed => exact ⟨ds, h.of_same hlog rfl rfl⟩

variable [DecidableEq P]

/-- However often messages are polled again, refused or lost, Redis is what a list of messages of
the log has made of it. -/
theorem exists_executed (hs : (consumer P ttl).Reaches (HandledWhen suits) s) :
    ∃ ds, Executed ttl suits s ds := by
  refine hs.invariant (I := fun s => ∃ ds, Executed ttl suits s ds) ?_ ?_
  · refine ⟨[], rfl, ?_, ?_, ?_⟩
    · exact fun x hx => absurd hx List.not_mem_nil
    · exact fun x hx => absurd hx List.not_mem_nil
    · exact fun m hm => absurd hm List.not_mem_nil
  rintro s a t hs ⟨ds, h⟩ hok hst
  cases steps_of_step hst with
  | produce p payload =>
      exact ⟨ds, h.of_same (fun m d hagg => (isAgg_produce hagg.lt_length).2 hagg) rfl rfl⟩
  | poll hidle hlt => exact ⟨ds, h.of_same (fun _ _ hagg => hagg) rfl rfl⟩
  | pollError partitionEof stats => exact ⟨ds, h.of_same (fun _ _ hagg => hagg) rfl rfl⟩
  | handle reply now hm hpayload =>
      exact h.handle reply now hpayload fun d hagg => hok _ d hm hagg
  | commit hlow hhigh => exact ⟨ds, h.of_same (fun _ _ hagg => hagg) rfl rfl⟩
  | restart => exact ⟨ds, h.of_same (fun _ _ hagg => hagg) rfl rfl⟩

end Consumer

/-! ## The rows of the job -/

/-- The windows of `agg_1m` start at whole minutes. -/
theorem aligned_agg1m {s : Job} (h : job.Reachable s) :
    ∀ x ∈ s.agg1m, x.1.windowStart % minute = 0 := by
  refine Lib.System.Reaches.invariant (I := fun s : Job =>
    ∀ x ∈ s.agg1m, x.1.windowStart % minute = 0) ?_ ?_ h
  · exact fun x hx => absurd hx List.not_mem_nil
  intro s a t hs hi _ hst
  cases steps_of_step hst with
  | skip => exact hi
  | duplicate e now hseen => exact hi
  | count e now hseen hopen => exact hi
  | drop e now hseen hlate => exact hi
  | advance w hw =>
      intro x hx
      rcases List.mem_append.1 hx with hold | hfired
      · exact hi x hold
      · exact (windowsFired hs).aligned x (List.mem_of_mem_filter hfired)

/-- A row of the table `campaigns`, as the lookup join reads it. -/
structure Campaign where
  advertiser : Option String
  name : Option String

/-- `agg_1m_enriched` and `agg_minute_sink`: the message of a row, with the campaign that the lookup
join has found. `divide` is the quotient of two doubles. -/
def aggMinuteSink (divide : ℕ → ℕ → ℚ) (c : Option Campaign) (row : WindowKey × Counts) :
    AggMinute where
  windowStart := .ofEpochMilli row.1.windowStart
  windowEnd := .ofEpochMilli (row.1.windowStart + minute)
  campaignId := row.1.campaignId
  advertiser := c.bind Campaign.advertiser
  campaignName := c.bind Campaign.name
  impressions := some row.2.impressions
  clicks := some row.2.clicks
  completes := some row.2.completes
  requests := some row.2.requests
  impReqRatio := if row.2.requests > 0 then some (divide row.2.impressions row.2.requests) else none
  ssaiDupes := some row.2.ssaiDupes

/-- The seconds of the start of a row's window. -/
theorem epochSecond_aggMinuteSink (divide : ℕ → ℕ → ℚ) (c : Option Campaign)
    (row : WindowKey × Counts) :
    (aggMinuteSink divide c row).windowStart.epochSecond = row.1.windowStart / 1000 := by
  simp only [aggMinuteSink, Instant.ofEpochMilli, Instant.epochSecond]
  omega

theorem isMinute_aggMinuteSink (divide : ℕ → ℕ → ℚ) (c : Option Campaign)
    {row : WindowKey × Counts} (h : row.1.windowStart % minute = 0) :
    IsMinute (aggMinuteSink divide c row).windowStart := by
  simp only [IsMinute, aggMinuteSink, Instant.ofEpochMilli]
  unfold minute at h
  omega

/-- The totals of each campaign over the rows whose windows start in a scope. -/
def totals (scope : Scope) (agg1m : List (WindowKey × Counts)) : List (String × Counts) :=
  groupBy (fun x => x.1.campaignId)
    (fun rows => ⟨(rows.map fun x => x.2.impressions).sum, (rows.map fun x => x.2.clicks).sum,
      (rows.map fun x => x.2.completes).sum, (rows.map fun x => x.2.requests).sum,
      (rows.map fun x => x.2.ssaiDupes).sum⟩)
    (agg1m.filter fun x => scope.contains x.1.windowStart)

/-- The impressions among the totals are the realtime figures. -/
theorem map_impressions_totals (scope : Scope) (agg1m : List (WindowKey × Counts)) :
    (totals scope agg1m).map (fun x => (x.1, x.2.impressions)) = fetchRealtime scope agg1m := by
  simp only [totals, fetchRealtime, groupBy, List.map_map, Function.comp_def]

/-- The counted fields of a campaign in a summary. -/
def CampaignSummary.counts (s : CampaignSummary) : Counts :=
  ⟨s.impressions, s.clicks, s.completes, s.requests, s.ssaiDupes⟩

/-- What `fetch_realtime` asks for: the epoch seconds of both ends of the scope. -/
def Redis.served (r : Redis) (now : Instant) (scope : Scope) : List (String × CampaignSummary) :=
  aggSummary r now (scope.t0 / 1000) (scope.t1 / 1000)

/-- The counts of a row are doubles. -/
structure Counts.Exact (c : Counts) : Prop where
  impressions : c.impressions ≤ 2 ^ 53
  clicks : c.clicks ≤ 2 ^ 53
  completes : c.completes ≤ 2 ^ 53
  requests : c.requests ≤ 2 ^ 53
  ssaiDupes : c.ssaiDupes ≤ 2 ^ 53

/-- What is on `agg.minute`: every message is of a row, and each row of the scope has a message that
the consumer has committed. -/
structure Published {P : Type} (divide : ℕ → ℕ → ℚ) (scope : Scope)
    (agg1m : List (WindowKey × Counts)) (s : Consumer.State P) : Prop where
  rows : ∀ m d, Consumer.IsAgg s m d → ∃ row ∈ agg1m, ∃ c, d = aggMinuteSink divide c row
  committed : ∀ row ∈ agg1m, scope.contains row.1.windowStart = true → ∃ p offset c,
    offset < s.committed p ∧ Consumer.IsAgg s (p, offset) (aggMinuteSink divide c row)

/-- A window is written after it has started, and before the summary is asked for. -/
def OnTime (now : Instant) (t : Instant) (d : AggMinute) : Prop :=
  d.windowStart.epochSecond ≤ t.epochSecond ∧ t.epochSecond ≤ now.epochSecond

/-- The counts that the rows give a window. -/
def countsOf (agg1m : List (WindowKey × Counts)) (c : String) (w : Instant) : WindowCounts :=
  match entry ⟨w.toEpochMilli, c⟩ agg1m with
  | some n => ⟨n.impressions, n.clicks, n.completes, n.requests, n.ssaiDupes⟩
  | none => ⟨0, 0, 0, 0, 0⟩

/-! ## The summary of the rows -/

/-- Messages that are of rows, each handled in time, with all the rows of a scope among them. -/
structure FromRows (divide : ℕ → ℕ → ℚ) (scope : Scope) (agg1m : List (WindowKey × Counts))
    (now : Instant) (ds : List (Instant × AggMinute)) : Prop where
  nodup : (agg1m.map Prod.fst).Nodup
  aligned : ∀ row ∈ agg1m, row.1.windowStart % minute = 0
  rows : ∀ x ∈ ds, ∃ row ∈ agg1m, ∃ c, x.2 = aggMinuteSink divide c row
  onTime : ∀ x ∈ ds, OnTime now x.1 x.2
  complete : ∀ row ∈ agg1m, scope.contains row.1.windowStart = true →
    ∃ x ∈ ds, ∃ c, x.2 = aggMinuteSink divide c row

section

variable {divide : ℕ → ℕ → ℚ} {scope : Scope} {agg1m : List (WindowKey × Counts)} {ttl : ℤ}
  {now : Instant} {ds : List (Instant × AggMinute)}

theorem countsOf_of_mem (h : (agg1m.map Prod.fst).Nodup) {row : WindowKey × Counts}
    (hrow : row ∈ agg1m) :
    countsOf agg1m row.1.campaignId (.ofEpochMilli row.1.windowStart) =
      ⟨row.2.impressions, row.2.clicks, row.2.completes, row.2.requests, row.2.ssaiDupes⟩ := by
  have hentry : entry (⟨row.1.windowStart, row.1.campaignId⟩ : WindowKey) agg1m = some row.2 :=
    entry_of_mem h hrow
  rw [countsOf, Instant.toEpochMilli_ofEpochMilli, hentry]

/-- The messages are deliveries of the windows of the rows. -/
theorem FromRows.deliveries (h : FromRows divide scope agg1m now ds)
    (hrecent : now.epochSecond - ttl < scope.t0 / 1000) :
    Deliveries ttl ds (countsOf agg1m) now (scope.t0 / 1000) (scope.t1 / 1000) where
  isMinute x hx := by
    obtain ⟨row, hrow, c, hd⟩ := h.rows x hx
    rw [hd]
    exact isMinute_aggMinuteSink divide c (h.aligned row hrow)
  counts x hx := by
    obtain ⟨row, hrow, c, hd⟩ := h.rows x hx
    rw [hd]
    exact (countsOf_of_mem h.nodup hrow).symm
  clock x hx := (h.onTime x hx).2
  recent := hrecent
  unexpired := by
    intro key hash hentry hfirst _
    obtain ⟨x, hx, -, rfl⟩ := exists_of_entry_deliver hentry
    have hstart : x.2.windowStart.epochSecond ≤ x.1.epochSecond := (h.onTime x hx).1
    show now.epochSecond < x.1.epochSecond + ttl
    change scope.t0 / 1000 ≤ x.2.windowStart.epochSecond at hfirst
    omega

/-- The rows of a campaign in a scope. -/
def rowsOf (scope : Scope) (agg1m : List (WindowKey × Counts)) (c : String) :
    List (WindowKey × Counts) :=
  (agg1m.filter fun x => scope.contains x.1.windowStart).filter fun x => x.1.campaignId = c

theorem mem_rowsOf {c : String} {row : WindowKey × Counts} :
    row ∈ rowsOf scope agg1m c ↔
      row ∈ agg1m ∧ scope.contains row.1.windowStart = true ∧ row.1.campaignId = c := by
  simp only [rowsOf, List.mem_filter, decide_eq_true_eq, and_assoc]

/-- A start of whole minutes is in a scope when its seconds are. -/
theorem contains_iff_seconds (haligned : scope.Aligned) {start : ℤ} (h : start % minute = 0) :
    scope.contains start = true ↔
      scope.t0 / 1000 ≤ start / 1000 ∧ start / 1000 < scope.t1 / 1000 := by
  obtain ⟨h0, h1⟩ := haligned
  rw [Scope.contains_iff]
  unfold minute at *
  omega

/-- The windows delivered of a campaign are those of its rows. -/
theorem FromRows.perm_startsIn (h : FromRows divide scope agg1m now ds)
    (haligned : scope.Aligned) (c : String) :
    (startsIn ds (scope.t0 / 1000) (scope.t1 / 1000) c).Perm
      ((rowsOf scope agg1m c).map fun x => Instant.ofEpochMilli x.1.windowStart) := by
  refine (List.perm_ext_iff_of_nodup nodup_startsIn ?_).2 fun w => ?_
  · refine List.Nodup.map_on ?_ (((List.Nodup.of_map _ h.nodup).filter _).filter _)
    intro x hx y hy hxy
    obtain ⟨hx, -, hxc⟩ := mem_rowsOf.1 hx
    obtain ⟨hy, -, hyc⟩ := mem_rowsOf.1 hy
    have hstart := congrArg Instant.toEpochMilli hxy
    rw [Instant.toEpochMilli_ofEpochMilli, Instant.toEpochMilli_ofEpochMilli] at hstart
    refine List.inj_on_of_nodup_map h.nodup hx hy ?_
    cases hk : x.1
    cases hk' : y.1
    simp_all
  · rw [mem_startsIn, List.mem_map]
    constructor
    · rintro ⟨x, hx, hc, hrange, rfl⟩
      obtain ⟨row, hrow, camp, hd⟩ := h.rows x hx
      rw [hd, epochSecond_aggMinuteSink] at hrange
      have hscope := (contains_iff_seconds haligned (h.aligned row hrow)).2 hrange
      refine ⟨row, mem_rowsOf.2 ⟨hrow, hscope, ?_⟩, ?_⟩
      · rw [← hc, hd]
        rfl
      · rw [hd]
        rfl
    · rintro ⟨row, hin, rfl⟩
      obtain ⟨hrow, hscope, rfl⟩ := mem_rowsOf.1 hin
      obtain ⟨x, hx, camp, hd⟩ := h.complete row hrow hscope
      refine ⟨x, hx, ?_, ?_, ?_⟩
      · rw [hd]
        rfl
      · rw [hd, epochSecond_aggMinuteSink]
        exact (contains_iff_seconds haligned (h.aligned row hrow)).1 hscope
      · rw [hd]
        rfl

/-- The range of `/agg/summary` is the scope. -/
theorem served_eq_sumRange (haligned : scope.Aligned) (r : Redis) :
    r.served now scope = sumRange r now (scope.t0 / 1000) (scope.t1 / 1000 - 1) := by
  obtain ⟨h0, h1⟩ := haligned
  unfold minute at h0 h1
  have hfirst : scope.t0 / 1000 / 60 * 60 = scope.t0 / 1000 := by omega
  have hlast : scope.t1 / 1000 / 60 * 60 = scope.t1 / 1000 := by omega
  simp only [Redis.served, aggSummary, summaryRange, hfirst, hlast]

/-- A campaign is in a summary when it has a row in the scope. -/
theorem FromRows.mem_keys_served (h : FromRows divide scope agg1m now ds)
    (haligned : scope.Aligned) (hrecent : now.epochSecond - ttl < scope.t0 / 1000) {c : String}
    (hc : c ≠ "") :
    c ∈ ((deliver ttl ds).served now scope).map Prod.fst ↔ rowsOf scope agg1m c ≠ [] := by
  have hperm := (perm_windowStarts (h.deliveries hrecent) hc).trans (h.perm_startsIn haligned c)
  rw [served_eq_sumRange haligned, mem_keys_sumRange]
  constructor
  · intro hmem
    obtain ⟨hash, hhash, hcampaign⟩ := List.mem_map.1 hmem
    obtain ⟨row, hrow, -⟩ := List.mem_map.1 (hperm.subset (List.mem_map_of_mem
      (List.mem_filter.2 ⟨hhash, decide_eq_true hcampaign⟩)))
    exact List.ne_nil_of_mem hrow
  · intro hrows
    obtain ⟨row, hrow⟩ := List.exists_mem_of_ne_nil _ hrows
    obtain ⟨hash, hhash, -⟩ := List.mem_map.1 (hperm.symm.subset (List.mem_map_of_mem hrow))
    obtain ⟨hwindow, hcampaign⟩ := List.mem_filter.1 hhash
    exact List.mem_map.2 ⟨hash, hwindow, of_decide_eq_true hcampaign⟩

/-- A column of a summary adds up the rows of a campaign. -/
theorem FromRows.column_served (h : FromRows divide scope agg1m now ds) (haligned : scope.Aligned)
    (hrecent : now.epochSecond - ttl < scope.t0 / 1000) (f : CampaignSummary → ℕ)
    (value : Counts → ℕ) (column : WindowCounts → ℕ) {g : AggHash → ℕ}
    (hzero : ∀ advertiser campaignName, f ⟨0, 0, 0, 0, 0, 0, advertiser, campaignName⟩ = 0)
    (hadd : ∀ h acc, f (CampaignSummary.add h acc) = f acc + g h)
    (hcolumn : ∀ t d, g (.ofMessage ttl t d) = column d.counts)
    (hvalue : ∀ row ∈ agg1m, column ⟨row.2.impressions, row.2.clicks, row.2.completes,
      row.2.requests, row.2.ssaiDupes⟩ = value row.2) {x : String × CampaignSummary}
    (hx : x ∈ (deliver ttl ds).served now scope) (hc : x.1 ≠ "") :
    f x.2 = ((rowsOf scope agg1m x.1).map fun row => value row.2).sum := by
  rw [served_eq_sumRange haligned] at hx
  rw [column_sumRange (h.deliveries hrecent) f column hzero hadd hcolumn hx hc,
    ((h.perm_startsIn haligned x.1).map _).sum_eq, List.map_map]
  congr 1
  apply List.map_congr_left
  intro row hin
  obtain ⟨hrow, -, hcampaign⟩ := mem_rowsOf.1 hin
  rw [Function.comp_apply, ← hcampaign, countsOf_of_mem h.nodup hrow, hvalue row hrow]

/-- The counted fields of a campaign in a summary are the totals of its rows. -/
theorem FromRows.counts_served (h : FromRows divide scope agg1m now ds) (haligned : scope.Aligned)
    (hrecent : now.epochSecond - ttl < scope.t0 / 1000)
    (hexact : ∀ row ∈ agg1m, Counts.Exact row.2) {x : String × CampaignSummary}
    (hx : x ∈ (deliver ttl ds).served now scope) (hc : x.1 ≠ "") :
    x.2.counts =
      ⟨((rowsOf scope agg1m x.1).map fun row => row.2.impressions).sum,
        ((rowsOf scope agg1m x.1).map fun row => row.2.clicks).sum,
        ((rowsOf scope agg1m x.1).map fun row => row.2.completes).sum,
        ((rowsOf scope agg1m x.1).map fun row => row.2.requests).sum,
        ((rowsOf scope agg1m x.1).map fun row => row.2.ssaiDupes).sum⟩ := by
  have himpressions := h.column_served haligned hrecent CampaignSummary.impressions
    Counts.impressions (fun w => intFloat w.impressions) (fun _ _ => rfl) (fun _ _ => rfl)
    (fun _ _ => rfl) (fun row hrow => intFloat_of_le (hexact row hrow).impressions) hx hc
  have hclicks := h.column_served haligned hrecent CampaignSummary.clicks
    Counts.clicks (fun w => intFloat w.clicks) (fun _ _ => rfl) (fun _ _ => rfl)
    (fun _ _ => rfl) (fun row hrow => intFloat_of_le (hexact row hrow).clicks) hx hc
  have hcompletes := h.column_served haligned hrecent CampaignSummary.completes
    Counts.completes (fun w => intFloat w.completes) (fun _ _ => rfl) (fun _ _ => rfl)
    (fun _ _ => rfl) (fun row hrow => intFloat_of_le (hexact row hrow).completes) hx hc
  have hrequests := h.column_served haligned hrecent CampaignSummary.requests
    Counts.requests (fun w => intFloat w.requests) (fun _ _ => rfl) (fun _ _ => rfl)
    (fun _ _ => rfl) (fun row hrow => intFloat_of_le (hexact row hrow).requests) hx hc
  have hdupes := h.column_served haligned hrecent CampaignSummary.ssaiDupes
    Counts.ssaiDupes (fun w => intFloat w.ssaiDupes) (fun _ _ => rfl) (fun _ _ => rfl)
    (fun _ _ => rfl) (fun row hrow => intFloat_of_le (hexact row hrow).ssaiDupes) hx hc
  rw [CampaignSummary.counts, himpressions, hclicks, hcompletes, hrequests, hdupes]

/-- A summary has the totals of every campaign that has a name. -/
theorem FromRows.entry_served (h : FromRows divide scope agg1m now ds) (haligned : scope.Aligned)
    (hrecent : now.epochSecond - ttl < scope.t0 / 1000)
    (hexact : ∀ row ∈ agg1m, Counts.Exact row.2) {c : String} (hc : c ≠ "") :
    (entry c ((deliver ttl ds).served now scope)).map CampaignSummary.counts =
      entry c (totals scope agg1m) := by
  have hkeys := h.mem_keys_served haligned hrecent hc
  rw [totals, entry_groupBy]
  cases hentry : entry c ((deliver ttl ds).served now scope) with
  | none =>
      have hrows : rowsOf scope agg1m c = [] := by
        rw [entry_eq_none_iff] at hentry
        exact not_not.1 (hkeys.not.1 hentry)
      rw [if_neg, Option.map_none]
      intro hmem
      obtain ⟨row, hrow, hcampaign⟩ := List.mem_map.1 hmem
      exact List.ne_nil_of_mem (List.mem_filter.2 ⟨hrow, decide_eq_true hcampaign⟩) hrows
  | some v =>
      have hmem := mem_of_entry hentry
      obtain ⟨row, hrow⟩ := List.exists_mem_of_ne_nil _
        (hkeys.1 (List.mem_map_of_mem hmem))
      obtain ⟨hin, hcampaign⟩ := List.mem_filter.1 hrow
      rw [if_pos (List.mem_map.2 ⟨row, hin, of_decide_eq_true hcampaign⟩), Option.map_some]
      exact congrArg some (h.counts_served haligned hrecent hexact hmem hc)

end

end AdPipeline.RedisWriter
