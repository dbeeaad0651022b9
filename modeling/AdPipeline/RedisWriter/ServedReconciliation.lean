import AdPipeline.RedisWriter.Serving
import AdPipeline.Settlement.Identity

/-!
# From the realtime job to the reconciliation

A window that has fired reaches the reconciliation by way of `agg.minute`, the consumer loop and
`/agg/summary`. Where the commits of the consumer are safe, every committed row is in Redis, however
often messages were refused, lost and polled again, so that the summary of a scope is what the rows
of the job add up to (`served_eq_totals`), and the reconciliation that reads it leaves no residual
(`reconciliation_served`).
-/

namespace AdPipeline.RedisWriter

open Lib AdPipeline.Stream AdPipeline.Settlement

/-! ## Runs that serve -/

/-- The commits are safe, and each window is written in time. -/
def Serving {P : Type} (now : Instant) (s : Consumer.State P) (a : Consumer.Action P) : Prop :=
  Consumer.CommitSafe s a ∧ Consumer.HandledWhen (OnTime now) s a

/-- The message of the mixed log's minute. -/
def mixedMinute : AggMinute :=
  aggMinuteSink (fun m n => m / n) (some ⟨some "Acme", some "Launch"⟩)
    (⟨0, "c1"⟩, ⟨2, 0, 0, 0, 0⟩)

/-- It is executed, but the connection breaks and the consumer starts again: the message is polled
and executed once more, and then committed. -/
theorem exists_serving_twice : ∃ s : Consumer.State Unit,
    (Consumer.consumer Unit 172800).Reaches (Serving ⟨100000000000⟩) s ∧
      s.applied = [((), 0), ((), 0)] ∧ s.committed () = 1 ∧
        s.log () = [.aggMinute mixedMinute] := by
  have hsuits : ∀ {t : Instant} {s : Consumer.State Unit} {m : Unit × ℕ} {d : AggMinute},
      0 ≤ t.epochSecond → t.epochSecond ≤ 100 → s.log () = [.aggMinute mixedMinute] →
        Consumer.IsAgg s m d → OnTime ⟨100000000000⟩ t d := by
    intro t s m d h0 h1 hlog hagg
    have hmem : Consumer.Payload.aggMinute d ∈ [Consumer.Payload.aggMinute mixedMinute] :=
      hlog ▸ List.mem_of_getElem? hagg
    obtain rfl : d = mixedMinute := Consumer.Payload.aggMinute.inj (List.mem_singleton.1 hmem)
    exact ⟨h0, h1⟩
  have h0 : (Consumer.consumer Unit 172800).Reaches (Serving ⟨100000000000⟩) Consumer.start := .init
  have h1 := h0.take (.produce () (.aggMinute mixedMinute)) ⟨trivial, trivial⟩ rfl
  have h2 := h1.take (.poll ()) ⟨trivial, trivial⟩ rfl
  have h3 := h2.take (.handle .lost ⟨61000000000⟩)
    ⟨trivial, fun m d _ hagg => hsuits (by decide) (by decide) rfl hagg⟩ rfl
  have h4 := h3.take .restart ⟨trivial, trivial⟩ rfl
  have h5 := h4.take (.poll ()) ⟨trivial, trivial⟩ rfl
  have h6 := h5.take (.handle .executed ⟨62000000000⟩)
    ⟨trivial, fun m d _ hagg => hsuits (by decide) (by decide) rfl hagg⟩ rfl
  have h7 := h6.take (.commit () 1)
    ⟨by
      intro o ho d _ _
      obtain rfl : o = 0 := by omega
      exact List.mem_cons_self, trivial⟩ rfl
  exact ⟨_, h7, rfl, rfl, rfl⟩

/-- Only that message is on the topic, and it is the one row of the job. -/
theorem published_mixedMinute {s : Consumer.State Unit} (hcommitted : s.committed () = 1)
    (hlog : s.log () = [.aggMinute mixedMinute]) :
    Published (fun m n => m / n) (.range 0 60000) [(⟨0, "c1"⟩, ⟨2, 0, 0, 0, 0⟩)] s where
  rows m d hagg := by
    have hmem : Consumer.Payload.aggMinute d ∈ [Consumer.Payload.aggMinute mixedMinute] :=
      hlog ▸ List.mem_of_getElem? hagg
    exact ⟨_, List.mem_singleton_self _, _,
      Consumer.Payload.aggMinute.inj (List.mem_singleton.1 hmem)⟩
  committed row hrow _ := by
    obtain rfl := List.mem_singleton.1 hrow
    refine ⟨(), 0, some ⟨some "Acme", some "Launch"⟩, by omega, ?_⟩
    rw [Consumer.IsAgg, hlog]
    rfl

/-! ## The whole way -/

section

variable {P : Type} [DecidableEq P] {divide : ℕ → ℕ → ℚ} {scope : Scope} {ttl : ℤ} {now : Instant}
  {j : Job} {s : Consumer.State P}

/-- What Redis holds are deliveries of the job's rows, those of the scope all among them. -/
theorem exists_fromRows (hj : job.Reachable j)
    (hs : (Consumer.consumer P ttl).Reaches (Serving now) s)
    (hpublished : Published divide scope j.agg1m s) :
    ∃ ds, s.redis = deliver ttl ds ∧ FromRows divide scope j.agg1m now ds := by
  have hinv : ∀ {s : Consumer.State P}, (Consumer.consumer P ttl).Reaches (Serving now) s →
      Consumer.Inv s :=
    fun hs => hs.reachable.invariant .start fun _ _ _ hi hst => hi.step hst
  have honce : Consumer.AtLeastOnce s := by
    refine hs.invariant ?_ fun s a t hs' ha hok hst =>
      (Consumer.atLeastOnce_step_iff (hinv hs') ha hst).2 hok.1
    exact fun p o d ho => absurd ho (Nat.not_lt_zero o)
  obtain ⟨ds, hds⟩ := Consumer.exists_executed (hs.mono fun _ _ hok => hok.2)
  refine ⟨ds, hds.redis, (windowsFired hj).nodupFired, aligned_agg1m hj, ?_, hds.suited, ?_⟩
  · intro x hx
    obtain ⟨m, hm⟩ := hds.logged x hx
    exact hpublished.rows m x.2 hm
  · intro row hrow hscope
    obtain ⟨p, offset, c, hcommitted, hagg⟩ := hpublished.committed row hrow hscope
    obtain ⟨x, hx, hagg'⟩ := hds.applied _ (honce p offset _ hcommitted hagg)
    refine ⟨x, hx, c, ?_⟩
    -- an offset has one message
    have hsame := hagg'.symm.trans hagg
    exact Consumer.Payload.aggMinute.inj (Option.some.inj hsame)

/-- However the messages of the job's rows were interleaved, refused, lost and polled again, the
summary of a scope has for every named campaign what its rows add up to. -/
theorem served_eq_totals (hj : job.Reachable j)
    (hs : (Consumer.consumer P ttl).Reaches (Serving now) s)
    (hpublished : Published divide scope j.agg1m s) (haligned : scope.Aligned)
    (hrecent : now.epochSecond - ttl < scope.t0 / 1000)
    (hexact : ∀ row ∈ j.agg1m, Counts.Exact row.2) (c : String) (hc : c ≠ "") :
    (entry c (s.redis.served now scope)).map CampaignSummary.counts =
      entry c (totals scope j.agg1m) := by
  obtain ⟨ds, hredis, hrows⟩ := exists_fromRows hj hs hpublished
  rw [hredis]
  exact hrows.entry_served haligned hrecent hexact hc

/-- The window executed twice counts once. -/
theorem served_eq_totals_twice : ∃ (j : Job) (s : Consumer.State Unit),
    job.run Job.start (mixedLog.map LogEntry.action) = some j ∧
    s.applied = [((), 0), ((), 0)] ∧
    (entry "c1" (s.redis.served ⟨100000000000⟩ (.range 0 60000))).map CampaignSummary.counts =
      some ⟨2, 0, 0, 0, 0⟩ := by
  obtain ⟨s, hs, happlied, hcommitted, hlog⟩ := exists_serving_twice
  have hrun : job.run Job.start (mixedLog.map LogEntry.action) = some _ := rfl
  refine ⟨_, s, hrun, happlied, ?_⟩
  refine (served_eq_totals (System.reachable_of_run hrun) hs
    (published_mixedMinute hcommitted hlog) (by unfold Scope.Aligned; decide) (by decide) ?_ "c1"
    (by decide)).trans (by decide)
  intro row hrow
  obtain rfl := List.mem_singleton.1 hrow
  constructor <;> decide

/-- `rt_camps[cid]["impressions"]`. -/
def realtimeOf (summary : List (String × CampaignSummary)) : List (String × ℕ) :=
  summary.map fun x => (x.1, x.2.impressions)

/-- A summary names its campaigns. -/
theorem ne_empty_of_mem_served {r : Redis} {c : String}
    (h : c ∈ (realtimeOf (r.served now scope)).map Prod.fst) : c ≠ "" := by
  rw [realtimeOf, List.map_map] at h
  obtain ⟨hash, hhash, rfl⟩ := List.mem_map.1 (mem_keys_sumRange.1 h)
  exact of_decide_eq_true (List.mem_filter.1 hhash).2

/-- The realtime figures served are those of the job's rows. -/
theorem entry_realtimeOf_served {ds : List (Instant × AggMinute)}
    (h : FromRows divide scope j.agg1m now ds) (haligned : scope.Aligned)
    (hrecent : now.epochSecond - ttl < scope.t0 / 1000)
    (hexact : ∀ row ∈ j.agg1m, Counts.Exact row.2) {c : String} (hc : c ≠ "") :
    entry c (realtimeOf ((deliver ttl ds).served now scope)) =
      entry c (fetchRealtime scope j.agg1m) := by
  have hentry := h.entry_served haligned hrecent hexact hc
  rw [realtimeOf, entry_map CampaignSummary.impressions, ← map_impressions_totals,
    entry_map Counts.impressions, ← hentry, Option.map_map]
  rfl

end

/-- A campaign collected from a settlement table has a name. -/
theorem ne_empty_of_mem_fetchBatch {scope : Scope} {daily : List (GroupKey × DailySettlement)}
    {minutes : List (GroupKey × MinuteSettlement)} {c : String}
    (h : c ∈ (fetchBatch scope daily minutes).map Prod.fst) : c ≠ "" := by
  rintro rfl
  refine entry_eq_none_iff.1 ?_ h
  cases scope with
  | range t0 t1 => exact entry_campaignEntries_empty _
  | day dt => exact entry_campaignEntries_empty _

section

variable {P : Type} [DecidableEq P] {divide : ℕ → ℕ → ℚ} {scope : Scope} {ttl : ℤ} {now : Instant}
  {j : Job} {s : Consumer.State P} {log : List LogEntry} {ssaiPriority : List String}
  {rates : Rates} {archive : List ArchiveRow}

/-- The reconciliation of a scope that the watermark has passed, with the realtime figures that
Redis serves, leaves no residual in any row. -/
theorem reconciliation_served (hrun : job.run Job.start (log.map LogEntry.action) = some j)
    (hagree : CopiesAgree log) (hintime : InTime log)
    (harchive : archive.Perm ((arrivals log).map fun a => a.1.archived))
    (hs : (Consumer.consumer P ttl).Reaches (Serving now) s)
    (hpublished : Published divide scope j.agg1m s) (haligned : scope.Aligned)
    (hpassed : ∀ start, start % minute = 0 → scope.contains start = true →
      windowFired (start + minute) j.watermark = true)
    (hrecent : now.epochSecond - ttl < scope.t0 / 1000)
    (hexact : ∀ row ∈ j.agg1m, Counts.Exact row.2) :
    ∀ row ∈ reconciliation (realtimeOf (s.redis.served now scope))
      (fetchBatch scope (dailySettlement ssaiPriority rates archive)
        (minuteSettlement ssaiPriority archive))
      (fetchLateDropped scope j.lateDropped), row.residual = 0 := by
  obtain ⟨ds, hredis, hrows⟩ := exists_fromRows (System.reachable_of_run hrun) hs hpublished
  intro row hrow
  obtain ⟨c, hmem, rfl⟩ := List.mem_map.1 hrow
  rw [List.mem_insertionSort, List.mem_dedup, List.mem_append] at hmem
  have hc : c ≠ "" := hmem.elim ne_empty_of_mem_served ne_empty_of_mem_fetchBatch
  have hraw : ((entry c (fetchBatch scope (dailySettlement ssaiPriority rates archive)
      (minuteSettlement ssaiPriority archive))).getD .zero).rawImpressions = _ :=
    raw_eq_realtime_add_late hrun hagree hintime harchive haligned hpassed c
  rw [residual_eq, hredis, entry_realtimeOf_served hrows haligned hrecent hexact hc, hraw]
  omega

end

/-- The mixed log, with its minute served by Redis: the campaign has a row, and it leaves no
residual. -/
theorem reconciliation_served_mixed : ∃ (j : Job) (s : Consumer.State Unit),
    job.run Job.start (mixedLog.map LogEntry.action) = some j ∧
    let rows := reconciliation (realtimeOf (s.redis.served ⟨100000000000⟩ (.range 0 60000)))
      (fetchBatch (.range 0 60000)
        (dailySettlement ["server", "client"] ⟨fun _ => none, fun _ _ => 0⟩
          ((arrivals mixedLog).map fun a => a.1.archived))
        (minuteSettlement ["server", "client"] ((arrivals mixedLog).map fun a => a.1.archived)))
      (fetchLateDropped (.range 0 60000) j.lateDropped)
    rows ≠ [] ∧ ∀ row ∈ rows, row.residual = 0 := by
  obtain ⟨s, hs, -, hcommitted, hlog⟩ := exists_serving_twice
  have hrun : job.run Job.start (mixedLog.map LogEntry.action) = some _ := rfl
  have hclose : ∀ a ∈ eventArrivals mixedLog, ∀ b ∈ eventArrivals mixedLog,
      a.2 < b.2 + stateTtl := by decide
  refine ⟨_, s, hrun, ?_, reconciliation_served hrun (by unfold CopiesAgree; decide) ?_ (.refl _) hs
    (published_mixedMinute hcommitted hlog) (by unfold Scope.Aligned; decide) ?_ (by decide) ?_⟩
  · intro hnil
    have hsettled := congrArg List.length hnil
    rw [reconciliation, List.length_map, List.length_insertionSort, List.length_nil,
      List.length_eq_zero_iff, List.dedup_eq_nil] at hsettled
    exact absurd (List.append_eq_nil_iff.1 hsettled).2 (by decide)
  · intro id first hfirst a ha _
    exact hclose a ha first (List.mem_of_find?_eq_some hfirst)
  · intro start hminute hcontains
    rw [Scope.contains_iff] at hcontains
    simp only [Scope.t0, Scope.t1, minute] at hminute hcontains
    have hstart : start = 0 := by omega
    subst hstart
    decide
  · intro row hrow
    obtain rfl := List.mem_singleton.1 hrow
    constructor <;> decide

end AdPipeline.RedisWriter
