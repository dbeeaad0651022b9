import AdPipeline.Settlement.Daily
import AdPipeline.Settlement.Punctuality
import AdPipeline.Tracer.Send

/-!
# What becomes of a trace

The tracer tells its user how many impressions of each kind of trace are counted in Redis, archived
and settled. `trace_followed` is that the pipeline does as the tracer says, whatever else is on the
topics, in whatever order the records arrive and however often each of them is delivered.
-/

namespace AdPipeline.Tracer

open Collector Lib AdPipeline.Settlement
open AdPipeline.Stream (EventRow JsonFormat Job job Action LateRow Steps WithinTtl WindowKey
  lateAtWindow allEvents)

/-! ## The trace in the log -/

/-- The row names the campaign of the trace or one of its ids. -/
def Mentions (d : Draws) (r : EventRow) : Prop :=
  r.campaignId = some d.campaign ∨ r.eventId ∈ [some d.eventId, some d.twinId, some d.arid] ∨
    r.adRequestId = some d.arid

/-- The trace is in the log: what names it comes from it, every event that was posted has arrived,
perhaps several times, the two ids are different, and copies come within the lifetime of the dedup
state. -/
structure Traced (hmac : String → List UInt8) (fmt : JsonFormat) (kind : TraceKind) (d : Draws)
    (log : List Action) : Prop where
  own : ∀ x ∈ recordsOf log, Mentions d x.2 →
    ∃ call, CallOf (fun s => hexdigest (hmac s)) kind d call ∧ call.topic ≠ .dlq ∧
      x = (call.topic, EventRow.ofJson fmt call.node)
  arrived : ∀ e ∈ (posts kind d).flatten, ∃ r : Readings,
    ¬ EventValidator.TooFarAhead r.validatedAt (.ofEpochMilli d.ts) ∧
      let call := EventIngestService.ingest r "v1_events" (.obj e.json)
      call.topic ≠ .dlq → (call.topic, EventRow.ofJson fmt call.node) ∈ recordsOf log
  different : d.hex ≠ d.twinHex
  inTime : ∀ id ∈ [d.eventId, d.twinId], WithinTtl (log.flatMap arrivalOf) id

variable {hmac : String → List UInt8} {fmt : JsonFormat} {kind : TraceKind} {d : Draws}
  {log : List Action} {archive : List ArchiveRow} {s : Job}

/-- A row of the trace. -/
structure TraceRow (kind : TraceKind) (d : Draws) (row : EventRow) : Prop where
  eventType : row.eventType = some "impression"
  campaignId : row.campaignId = some d.campaign
  adRequestId : row.adRequestId = some d.arid
  eventTime : row.eventTime = some (eventTime kind d)
  late : row.late = if kind = .late then some true else none
  eventId : row.eventId = some d.eventId ∨ row.eventId = some d.twinId

theorem traceRow {row : EventRow} (h : row ∈ rows kind d) : TraceRow kind d row := by
  cases kind with
  | normal =>
      obtain rfl := List.mem_singleton.1 h
      exact ⟨rfl, rfl, rfl, rfl, rfl, .inl rfl⟩
  | duplicate =>
      obtain rfl := List.mem_singleton.1 h
      exact ⟨rfl, rfl, rfl, rfl, rfl, .inl rfl⟩
  | ssai =>
      rcases List.mem_cons.1 h with rfl | h
      · exact ⟨rfl, rfl, rfl, rfl, rfl, .inl rfl⟩
      · obtain rfl := List.mem_singleton.1 h
        exact ⟨rfl, rfl, rfl, rfl, rfl, .inr rfl⟩
  | late =>
      obtain rfl := List.mem_singleton.1 h
      exact ⟨rfl, rfl, rfl, rfl, rfl, .inl rfl⟩
  | badSchema => cases h
  | forged => cases h
  | adRequest => cases h

theorem eventId_injective {a b : String} (h : "evt-trace-" ++ a = "evt-trace-" ++ b) : a = b := by
  have htext := congrArg String.toList h
  rw [String.toList_append, String.toList_append, List.append_cancel_left_eq] at htext
  exact String.toList_inj.1 htext

/-- The rows of a trace are different events. -/
theorem nodup_rows (hdiff : d.hex ≠ d.twinHex) :
    ((rows kind d).map EventRow.eventId).Nodup := by
  cases kind with
  | ssai =>
      have hne : d.eventId ≠ d.twinId := fun h => hdiff (eventId_injective h)
      simp [rows, tracedRow, hne]
  | _ => simp [rows]

theorem inCampaign_campaign (d : Draws) : d.campaign ∉ nonCampaign := by
  intro h
  have htext : d.campaign.toList ∈ nonCampaign.map String.toList := List.mem_map_of_mem h
  rw [Draws.campaign, String.toList_append] at htext
  simp [nonCampaign] at htext

/-- The records that name the trace are its rows. -/
theorem mem_records_iff (hhmac : ∀ s, (hmac s).length = 32) (hreads : Reads fmt kind d)
    (h : Traced hmac fmt kind d log) {x : Topic × EventRow} :
    (x ∈ recordsOf log ∧ Mentions d x.2) ↔ x.1 = .impression ∧ x.2 ∈ rows kind d := by
  constructor
  · rintro ⟨hx, hmentions⟩
    obtain ⟨call, hcall, hdata, rfl⟩ := h.own x hx hmentions
    exact rows_of_call hhmac hreads hcall hdata
  · rintro ⟨htopic, hrow⟩
    obtain ⟨e, he, harrives⟩ := exists_posted hreads hrow
    obtain ⟨r, hclock, hmem⟩ := h.arrived e he
    obtain ⟨hcall, hread⟩ := harrives r hclock
    refine ⟨?_, .inl (traceRow hrow).campaignId⟩
    have hx : x = (Topic.impression, x.2) := Prod.ext htopic rfl
    rw [hx, ← hread, ← hcall]
    exact hmem (by rw [hcall]; decide)

/-! ## The batch -/

/-- The archived rows of the campaign are the trace's. -/
theorem mem_archive_iff (hhmac : ∀ s, (hmac s).length = 32) (hreads : Reads fmt kind d)
    (h : Traced hmac fmt kind d log)
    (harchive : ∀ r, r ∈ archive ↔ r ∈ (recordsOf log).map archived) {r : ArchiveRow} :
    (r ∈ archive ∧ Mentions d r.toEventRow) ↔
      ∃ row ∈ rows kind d, r = archiveRow .impression row := by
  rw [harchive]
  constructor
  · rintro ⟨hr, hmentions⟩
    obtain ⟨x, hx, rfl⟩ := List.mem_map.1 hr
    have hx' : Mentions d x.2 := hmentions
    obtain ⟨htopic, hrow⟩ := (mem_records_iff hhmac hreads h).1 ⟨hx, hx'⟩
    exact ⟨x.2, hrow, by rw [archived, htopic]⟩
  · rintro ⟨row, hrow, rfl⟩
    obtain ⟨hx, hmentions⟩ := (mem_records_iff (x := (Topic.impression, row)) hhmac hreads h).2
      ⟨rfl, hrow⟩
    exact ⟨List.mem_map.2 ⟨_, hx, rfl⟩, hmentions⟩

section

/-- The archive holds the trace next to other rows that do not name it. -/
def Holds (kind : TraceKind) (d : Draws) (archive : List ArchiveRow) : Prop :=
  ∀ r, (r ∈ archive ∧ Mentions d r.toEventRow) ↔ ∃ row ∈ rows kind d, r = archiveRow .impression row

/-- The row is of the campaign of the trace. -/
def ofCampaign (d : Draws) (r : ArchiveRow) : Bool := r.campaignId = some d.campaign

variable (hdiff : d.hex ≠ d.twinHex) (hholds : Holds kind d archive)

theorem mentions_of_ofCampaign {r : ArchiveRow} (h : ofCampaign d r = true) :
    Mentions d r.toEventRow := .inl (of_decide_eq_true h)

theorem ofCampaign_archiveRow {row : EventRow} (hrow : row ∈ rows kind d) :
    ofCampaign d (archiveRow .impression row) = true :=
  decide_eq_true (traceRow hrow).campaignId

theorem isImpression_archiveRow {row : EventRow} (hrow : row ∈ rows kind d) :
    isImpression (archiveRow .impression row) = true := by
  have htype : (archiveRow .impression row).eventType = some "impression" :=
    (traceRow hrow).eventType
  have hcampaign : (archiveRow .impression row).campaignId = some d.campaign :=
    (traceRow hrow).campaignId
  rw [isImpression, inCampaign, htype, hcampaign, Option.any_some, Bool.and_eq_true]
  exact ⟨decide_eq_true rfl, decide_eq_true (inCampaign_campaign d)⟩

/-- The day of the trace, with its campaign. -/
def traceDay (kind : TraceKind) (d : Draws) : GroupKey :=
  (some (eventTime kind d / 86400000), some d.campaign)

theorem dayKey_archiveRow {row : EventRow} (hrow : row ∈ rows kind d) :
    dayKey (archiveRow .impression row) = traceDay kind d := by
  have htime : (archiveRow .impression row).eventTime = some (eventTime kind d) :=
    (traceRow hrow).eventTime
  have hcampaign : (archiveRow .impression row).campaignId = some d.campaign :=
    (traceRow hrow).campaignId
  rw [dayKey, htime, hcampaign]
  rfl

theorem mem_archive_of_dedup {r : ArchiveRow} (hr : r ∈ dedup archive) : r ∈ archive :=
  (mem_raw.1 (mem_of_mem_dedup hr)).1

theorem grp_archiveRow {row : EventRow} (hrow : row ∈ rows kind d) :
    grp (archiveRow .impression row) = some d.arid := by
  have harid : (archiveRow .impression row).adRequestId = some d.arid := (traceRow hrow).adRequestId
  rw [grp, harid]
  rfl

theorem mentions_of_grp {r : ArchiveRow} (h : grp r = some d.arid) : Mentions d r.toEventRow := by
  rw [grp] at h
  cases harid : r.adRequestId with
  | some a =>
      rw [harid] at h
      exact .inr (.inr (harid.trans h))
  | none =>
      rw [harid] at h
      have hid : r.eventId = some d.arid := h
      refine .inr (.inl ?_)
      rw [hid]
      simp

include hholds

theorem exists_row_of_ofCampaign {r : ArchiveRow} (hr : r ∈ archive) (h : ofCampaign d r = true) :
    ∃ row ∈ rows kind d, r = archiveRow .impression row :=
  (hholds r).1 ⟨hr, mentions_of_ofCampaign h⟩

/-- A deduplicated row that names the trace is one of its rows. -/
theorem exists_row_of_dedup {r : ArchiveRow} (hr : r ∈ dedup archive)
    (h : Mentions d r.toEventRow) : ∃ row ∈ rows kind d, r = archiveRow .impression row :=
  (hholds r).1 ⟨(mem_raw.1 (mem_of_mem_dedup hr)).1, h⟩

/-- The archived rows of the day and campaign are those of the campaign. -/
theorem countP_traceDay {l : List ArchiveRow} (hl : ∀ r ∈ l, r ∈ archive) :
    l.countP (fun r => dayKey r = traceDay kind d) = l.countP (ofCampaign d) := by
  refine List.countP_congr fun r hr => ?_
  rw [decide_eq_true_iff]
  constructor
  · intro hkey
    exact decide_eq_true (congrArg Prod.snd hkey)
  · intro hcampaign
    obtain ⟨row, hrow, rfl⟩ := exists_row_of_ofCampaign hholds (hl r hr) hcampaign
    exact dayKey_archiveRow hrow

include hdiff

/-- Of the campaign the deduplication keeps each row of the trace once. -/
theorem dedup_ofCampaign : ((dedup archive).filter (ofCampaign d)).Perm
    ((rows kind d).map (archiveRow .impression)) := by
  have hids : ((rows kind d).map EventRow.eventId).Nodup := nodup_rows hdiff
  have hleft : ((dedup archive).filter (ofCampaign d)).Nodup :=
    List.Nodup.of_map (fun r => r.eventId)
      ((nodup_key_rowNumberOne _ _ _).sublist (List.filter_sublist.map _))
  have hright : ((rows kind d).map (archiveRow .impression)).Nodup := by
    refine List.Nodup.of_map (fun r => r.eventId) ?_
    rw [List.map_map]
    exact hids
  refine (List.perm_ext_iff_of_nodup hleft hright).2 fun r => ?_
  rw [List.mem_filter, List.mem_map]
  constructor
  · rintro ⟨hr, hcampaign⟩
    obtain ⟨row, hrow, rfl⟩ := exists_row_of_dedup hholds hr (mentions_of_ofCampaign hcampaign)
    exact ⟨row, hrow, rfl⟩
  · rintro ⟨row, hrow, rfl⟩
    have hmem := ((hholds (archiveRow .impression row)).2 ⟨row, hrow, rfl⟩).1
    have hid := (traceRow hrow).eventId
    have hraw : archiveRow .impression row ∈ raw archive := by
      refine mem_raw.2 ⟨hmem, ?_⟩
      show row.eventId.isSome = true
      rcases hid with hid | hid <;> rw [hid] <;> rfl
    obtain ⟨m, hm, hmid⟩ :=
      exists_mem_rowNumberOne (fun r : ArchiveRow => r.eventId) eventOrder hraw
    have hmid' : m.eventId = row.eventId := hmid
    -- the row that is kept has the id of a row of the trace, and is that row
    have hmentions : Mentions d m.toEventRow := by
      refine .inr (.inl ?_)
      rw [hmid']
      rcases hid with hid | hid <;> rw [hid] <;> simp
    obtain ⟨row', hrow', rfl⟩ := exists_row_of_dedup hholds hm hmentions
    obtain rfl : row' = row := List.inj_on_of_nodup_map hids hrow' hrow hmid'
    exact ⟨hm, ofCampaign_archiveRow hrow⟩

theorem mem_impAll_archiveRow {row : EventRow} (hrow : row ∈ rows kind d) :
    archiveRow .impression row ∈ impAll archive :=
  mem_impAll.2 ⟨List.mem_of_mem_filter ((dedup_ofCampaign hdiff hholds).mem_iff.2
    (List.mem_map_of_mem hrow)), isImpression_archiveRow hrow⟩

/-- One impression of the trace is settled, if any. -/
theorem countP_imp_ofCampaign (ssaiPriority : List String) :
    (imp ssaiPriority archive).countP (ofCampaign d) = if rows kind d = [] then 0 else 1 := by
  have hdedup : ∀ r ∈ imp ssaiPriority archive, r ∈ dedup archive :=
    fun r hr => (mem_impAll.1 (mem_of_mem_imp hr)).1
  split_ifs with hrows
  · refine List.countP_eq_zero.2 fun r hr hcampaign => ?_
    obtain ⟨row, hrow, -⟩ :=
      exists_row_of_ofCampaign hholds (mem_archive_of_dedup (hdedup r hr)) hcampaign
    rw [hrows] at hrow
    exact List.not_mem_nil hrow
  · obtain ⟨row, hrow⟩ := List.exists_mem_of_ne_nil _ hrows
    have hcampaign : ∀ r ∈ imp ssaiPriority archive,
        (ofCampaign d r = true ↔ grp r = some d.arid) := by
      intro r hr
      constructor
      · intro hr'
        obtain ⟨row', hrow', rfl⟩ :=
          exists_row_of_ofCampaign hholds (mem_archive_of_dedup (hdedup r hr)) hr'
        exact grp_archiveRow hrow'
      · intro hr'
        obtain ⟨row', hrow', rfl⟩ :=
          exists_row_of_dedup hholds (hdedup r hr) (mentions_of_grp hr')
        exact ofCampaign_archiveRow hrow'
    obtain ⟨m, hm, hmgrp⟩ := exists_mem_rowNumberOne grp (ssaiOrder ssaiPriority)
      (mem_impAll_archiveRow hdiff hholds hrow)
    rw [grp_archiveRow hrow] at hmgrp
    have hsame : (imp ssaiPriority archive).countP (ofCampaign d) =
        (imp ssaiPriority archive).countP fun r => grp r = grp m := by
      refine List.countP_congr fun r hr => ?_
      rw [hcampaign r hr, hmgrp, decide_eq_true_iff]
    rw [hsame, imp, List.countP_eq_length_filter,
      filter_key_eq_singleton (nodup_key_rowNumberOne _ _ _) hm]
    rfl

omit hdiff in
theorem joinedCount_traceDay {l : List ArchiveRow} (hl : ∀ r ∈ l, r ∈ archive) :
    joinedCount (traceDay kind d) l = l.countP (ofCampaign d) := by
  have hkeyed : keyed (traceDay kind d) = true := rfl
  rw [joinedCount, if_pos hkeyed, countP_traceDay hholds hl]

omit hdiff in
/-- The trace has only rows of this kind. -/
theorem countP_filter_ofCampaign {q : ArchiveRow → Bool}
    (hq : ∀ row ∈ rows kind d, q (archiveRow .impression row) = true) {l : List ArchiveRow}
    (hl : ∀ r ∈ l, r ∈ archive) : (l.filter q).countP (ofCampaign d) = l.countP (ofCampaign d) := by
  rw [List.countP_filter]
  refine List.countP_congr fun r hr => ?_
  rw [Bool.and_eq_true, and_iff_left_iff_imp]
  intro hcampaign
  obtain ⟨row, hrow, rfl⟩ := exists_row_of_ofCampaign hholds (hl r hr) hcampaign
  exact hq row hrow

omit hdiff in
/-- The trace has no rows of this kind. -/
theorem joinedCount_eq_zero {q : ArchiveRow → Bool}
    (hq : ∀ row ∈ rows kind d, q (archiveRow .impression row) = false) {l : List ArchiveRow}
    (hl : ∀ r ∈ l, r ∈ archive) : joinedCount (traceDay kind d) (l.filter q) = 0 := by
  rw [joinedCount_traceDay hholds fun r hr => hl r (List.mem_of_mem_filter hr)]
  refine List.countP_eq_zero.2 fun r hr hcampaign => ?_
  obtain ⟨hr, hqr⟩ := List.mem_filter.1 hr
  obtain ⟨row, hrow, rfl⟩ := exists_row_of_ofCampaign hholds (hl r hr) hcampaign
  rw [hq row hrow] at hqr
  cases hqr

theorem countP_impAll_ofCampaign :
    (impAll archive).countP (ofCampaign d) = (rows kind d).length := by
  rw [impAll, countP_filter_ofCampaign hholds (fun row hrow => isImpression_archiveRow hrow)
      fun r hr => mem_archive_of_dedup hr,
    List.countP_eq_length_filter, (dedup_ofCampaign hdiff hholds).length_eq, List.length_map]

/-- The row of `daily_settlement` of a trace of which so many copies are archived. -/
def settledRow (rates : Rates) (kind : TraceKind) (d : Draws) (copies : ℕ) : DailySettlement where
  requests := 0
  impressions := 1
  clicks := 0
  completes := 0
  rawImpressions := (rows kind d).length
  dupesRemoved := copies - (rows kind d).length
  lateImpressions := if kind = .late then 1 else 0
  cpm := (rates.cpm d.campaign).getD 0
  amount := rates.amount 1 ((rates.cpm d.campaign).getD 0)

theorem dayRow_traceDay (ssaiPriority : List String) (rates : Rates) (hrows : rows kind d ≠ []) :
    dayRow ssaiPriority rates archive (traceDay kind d) =
      settledRow rates kind d (archive.countP (ofCampaign d)) := by
  have hdedup : ∀ r ∈ dedup archive, r ∈ archive := fun r hr => mem_archive_of_dedup hr
  have himp : ∀ r ∈ imp ssaiPriority archive, r ∈ archive :=
    fun r hr => mem_archive_of_dedup (mem_impAll.1 (mem_of_mem_imp hr)).1
  have htype : ∀ row ∈ rows kind d, (archiveRow .impression row).eventType = some "impression" :=
    fun row hrow => (traceRow hrow).eventType
  have hone : (imp ssaiPriority archive).countP (ofCampaign d) = 1 := by
    rw [countP_imp_ofCampaign hdiff hholds, if_neg hrows]
  have himpressions : joinedCount (traceDay kind d) (imp ssaiPriority archive) = 1 := by
    rw [joinedCount_traceDay hholds himp, hone]
  have hraw : (impAll archive).countP (fun r => dayKey r = traceDay kind d) =
      (rows kind d).length := by
    rw [countP_traceDay hholds fun r hr => hdedup r (mem_impAll.1 hr).1,
      countP_impAll_ofCampaign hdiff hholds]
  have hrequests : joinedCount (traceDay kind d) ((dedup archive).filter isRequest) = 0 :=
    joinedCount_eq_zero hholds (fun row hrow => by simp [isRequest, htype row hrow]) hdedup
  have hclicks : joinedCount (traceDay kind d) ((dedup archive).filter isClick) = 0 :=
    joinedCount_eq_zero hholds (fun row hrow => by simp [isClick, htype row hrow]) hdedup
  have hcompletes : joinedCount (traceDay kind d) ((dedup archive).filter isComplete) = 0 :=
    joinedCount_eq_zero hholds (fun row hrow => by simp [isComplete, htype row hrow]) hdedup
  have hlate : joinedCount (traceDay kind d)
      ((imp ssaiPriority archive).filter fun r => r.late = some true) =
        if kind = .late then 1 else 0 := by
    have hmark : ∀ row ∈ rows kind d, (archiveRow .impression row).late =
        if kind = .late then some true else none := fun row hrow => (traceRow hrow).late
    split_ifs with hkind
    · rw [joinedCount_traceDay hholds fun r hr => himp r (List.mem_of_mem_filter hr),
        countP_filter_ofCampaign hholds (fun row hrow => by simp [hmark row hrow, hkind]) himp,
        hone]
    · exact joinedCount_eq_zero hholds (fun row hrow => by simp [hmark row hrow, hkind]) himp
  have hcopies : joinedCount (traceDay kind d)
      (((raw archive).filter isImpression).filter fun r => r.campaignId.isSome) =
        archive.countP (ofCampaign d) := by
    have hraw' : ∀ r ∈ raw archive, r ∈ archive := fun r hr => (mem_raw.1 hr).1
    have hid : ∀ row ∈ rows kind d, (archiveRow .impression row).eventId.isSome = true := by
      intro row hrow
      show row.eventId.isSome = true
      rcases (traceRow hrow).eventId with hid | hid <;> rw [hid] <;> rfl
    have hcampaign : ∀ row ∈ rows kind d,
        (archiveRow .impression row).campaignId.isSome = true := by
      intro row hrow
      show row.campaignId.isSome = true
      rw [(traceRow hrow).campaignId]
      rfl
    rw [joinedCount_traceDay hholds fun r hr =>
        hraw' r (List.mem_of_mem_filter (List.mem_of_mem_filter hr)),
      countP_filter_ofCampaign hholds hcampaign fun r hr => hraw' r (List.mem_of_mem_filter hr),
      countP_filter_ofCampaign hholds (fun row hrow => isImpression_archiveRow hrow) hraw',
      raw, countP_filter_ofCampaign hholds hid fun r hr => hr]
  simp only [dayRow, himpressions, hraw, hrequests, hclicks, hcompletes, hlate, hcopies]
  rfl

/-- What is settled of the campaign. -/
theorem dailySettlement_ofCampaign (ssaiPriority : List String) (rates : Rates) :
    ((dailySettlement ssaiPriority rates archive).filter fun x => x.1.2 = some d.campaign) =
      if rows kind d = [] then []
      else [(traceDay kind d, settledRow rates kind d (archive.countP (ofCampaign d)))] := by
  have hkeys : ∀ k ∈ ((impAll archive).map dayKey).dedup,
      (k.2 = some d.campaign ↔ rows kind d ≠ [] ∧ k = traceDay kind d) := by
    intro k hk
    obtain ⟨r, hr, rfl⟩ := List.mem_map.1 (List.mem_dedup.1 hk)
    constructor
    · intro hcampaign
      obtain ⟨row, hrow, rfl⟩ := exists_row_of_ofCampaign hholds
        (mem_archive_of_dedup (mem_impAll.1 hr).1) (decide_eq_true hcampaign)
      exact ⟨List.ne_nil_of_mem hrow, dayKey_archiveRow hrow⟩
    · rintro ⟨-, hkey⟩
      exact congrArg Prod.snd hkey
  rw [dailySettlement_eq]
  split_ifs with hrows
  · refine List.filter_eq_nil_iff.2 fun x hx hcampaign => ?_
    obtain ⟨k, hk, rfl⟩ := List.mem_map.1 hx
    exact ((hkeys k hk).1 (of_decide_eq_true hcampaign)).1 hrows
  · obtain ⟨row, hrow⟩ := List.exists_mem_of_ne_nil _ hrows
    have hmem : traceDay kind d ∈ ((impAll archive).map dayKey).dedup :=
      List.mem_dedup.2 (List.mem_map.2
        ⟨_, mem_impAll_archiveRow hdiff hholds hrow, dayKey_archiveRow hrow⟩)
    rw [← dayRow_traceDay hdiff hholds ssaiPriority rates hrows,
      ← filter_key_map (List.nodup_dedup _) hmem (dayRow ssaiPriority rates archive)]
    refine List.filter_congr fun x hx => ?_
    obtain ⟨k, hk, rfl⟩ := List.mem_map.1 hx
    exact decide_eq_decide.2 ((hkeys k hk).trans (and_iff_right hrows))

end

/-! ## The realtime job -/

/-- The event is of the campaign of the trace. -/
def ofTrace (d : Draws) (e : Stream.Event) : Bool := e.campaignId = d.campaign

section

variable (hhmac : ∀ s, (hmac s).length = 32) (hreads : Reads fmt kind d)
  (h : Traced hmac fmt kind d log)

include hhmac hreads h

/-- The events of the campaign that arrive are those of the rows. -/
theorem exists_row_of_arrival {e : Stream.Event} {now : ℤ} (he : (e, now) ∈ log.flatMap arrivalOf)
    (hcampaign : ofTrace d e = true) :
    ∃ row ∈ rows kind d, row.eventId = some e.eventId ∧ e.eventTime = eventTime kind d ∧
      e.kind = .impression := by
  obtain ⟨x, hx, hxe⟩ := mem_arrivals.1 ⟨now, he⟩
  have hmentions : Mentions d x.2 := by
    refine .inl ?_
    rw [(row_of_eventOf hxe).2.2, of_decide_eq_true hcampaign]
  obtain ⟨htopic, hrow⟩ := (mem_records_iff hhmac hreads h).1 ⟨hx, hmentions⟩
  obtain ⟨hid, htime, -⟩ := row_of_eventOf hxe
  refine ⟨x.2, hrow, hid, ?_, ?_⟩
  · rw [(traceRow hrow).eventTime] at htime
    exact (Option.some_inj.1 htime).symm
  · obtain ⟨v, hv, hve⟩ := Option.bind_eq_some_iff.1 hxe
    rw [htopic] at hv
    obtain ⟨c, -, rfl⟩ := Option.map_eq_some_iff.1 hv
    exact (Stream.columns_of_event hve).2.2.1.symm

/-- Every row has arrived. -/
theorem exists_arrival {row : EventRow} (hrow : row ∈ rows kind d) :
    ∃ e now, (e, now) ∈ log.flatMap arrivalOf ∧ row.eventId = some e.eventId := by
  obtain ⟨hx, -⟩ := (mem_records_iff (x := (Topic.impression, row)) hhmac hreads h).2 ⟨rfl, hrow⟩
  have htrace := traceRow hrow
  obtain ⟨id, hid⟩ : ∃ id, row.eventId = some id := by
    rcases htrace.eventId with hid | hid
    · exact ⟨_, hid⟩
    · exact ⟨_, hid⟩
  obtain ⟨e, he⟩ : ∃ e, eventOf (Topic.impression, row) = some e := by
    simp only [eventOf, allEvents, htrace.campaignId, Option.map_some, Option.bind_some,
      Stream.ViewRow.event, Stream.ViewRow.ofRow, hid, htrace.eventTime]
    exact ⟨_, rfl⟩
  obtain ⟨now, hnow⟩ := mem_arrivals.2 ⟨_, hx, he⟩
  exact ⟨e, now, hnow, (row_of_eventOf he).1⟩

/-- An event with the id of a row is of the trace. -/
theorem ofTrace_of_eventId {e : Stream.Event} {now : ℤ} (he : (e, now) ∈ log.flatMap arrivalOf)
    {row : EventRow} (hrow : row ∈ rows kind d) (hid : row.eventId = some e.eventId) :
    ofTrace d e = true := by
  obtain ⟨x, hx, hxe⟩ := mem_arrivals.1 ⟨now, he⟩
  have hmentions : Mentions d x.2 := by
    refine .inr (.inl ?_)
    rw [(row_of_eventOf hxe).1, ← hid]
    rcases (traceRow hrow).eventId with hid | hid <;> rw [hid] <;> simp
  obtain ⟨-, hrow'⟩ := (mem_records_iff hhmac hreads h).1 ⟨hx, hmentions⟩
  obtain ⟨-, -, hcampaign⟩ := row_of_eventOf hxe
  rw [(traceRow hrow').campaignId] at hcampaign
  exact decide_eq_true (Option.some_inj.1 hcampaign).symm

variable (hrun : job.run Job.start log = some s)

include hrun

/-- Each row of the trace passes the deduplication once. -/
theorem countP_deduped_ofTrace : s.deduped.countP (ofTrace d) = (rows kind d).length := by
  have hreachable : job.Reachable s := System.reachable_of_run hrun
  have harrived : s.arrived = log.flatMap arrivalOf := arrived_of_log hrun
  have httl : ∀ row ∈ rows kind d, ∀ id, row.eventId = some id → WithinTtl s.arrived id := by
    intro row hrow id hid
    rw [harrived]
    refine h.inTime id ?_
    rcases (traceRow hrow).eventId with hid' | hid' <;> rw [hid'] at hid <;>
      simp [Option.some_inj.1 hid]
  have hperm : ((s.deduped.filter (ofTrace d)).map fun e => some e.eventId).Perm
      ((rows kind d).map EventRow.eventId) := by
    have hrow : ∀ e ∈ s.deduped.filter (ofTrace d), ∃ row ∈ rows kind d,
        row.eventId = some e.eventId := by
      intro e he
      obtain ⟨he, hcampaign⟩ := List.mem_filter.1 he
      obtain ⟨now, hnow⟩ := arrival_of_deduped hrun he
      obtain ⟨row, hrow, hid, -⟩ := exists_row_of_arrival hhmac hreads h hnow hcampaign
      exact ⟨row, hrow, hid⟩
    have hnodup : ((s.deduped.filter (ofTrace d)).map fun e => some e.eventId).Nodup := by
      refine List.nodup_iff_count_le_one.2 fun id => ?_
      by_cases hid : id ∈ (s.deduped.filter (ofTrace d)).map fun e => some e.eventId
      · obtain ⟨e, he, rfl⟩ := List.mem_map.1 hid
        obtain ⟨row, hrow, hid⟩ := hrow e he
        rw [List.count_eq_countP, List.countP_map]
        refine le_trans ?_ (Stream.countP_deduped_le_one hreachable (httl row hrow _ hid))
        refine le_trans (le_of_eq (List.countP_congr fun e' _ => ?_))
          (List.filter_sublist.countP_le (p := fun e' : Stream.Event => e'.eventId = e.eventId))
        simp
      · rw [List.count_eq_zero_of_not_mem hid]
        exact Nat.zero_le 1
    refine (List.perm_ext_iff_of_nodup hnodup (nodup_rows h.different)).2 fun id => ?_
    constructor
    · intro hid
      obtain ⟨e, he, rfl⟩ := List.mem_map.1 hid
      obtain ⟨row, hrow, hid⟩ := hrow e he
      exact List.mem_map.2 ⟨row, hrow, hid⟩
    · intro hid
      obtain ⟨row, hrow, rfl⟩ := List.mem_map.1 hid
      obtain ⟨e, now, hnow, hid⟩ := exists_arrival hhmac hreads h hrow
      rw [← harrived] at hnow
      obtain ⟨e', he', hid'⟩ := List.mem_map.1
        (Stream.mem_deduped_of_mem_arrived hreachable hnow (httl row hrow _ hid))
      obtain ⟨now', hnow'⟩ := arrival_of_deduped hrun he'
      rw [← hid'] at hid
      exact List.mem_map.2 ⟨e', List.mem_filter.2
        ⟨he', ofTrace_of_eventId hhmac hreads h hnow' hrow hid⟩, hid.symm⟩
  rw [List.countP_eq_length_filter, ← List.length_map (fun e => some e.eventId),
    hperm.length_eq, List.length_map]

/-- The impressions of the campaign in the windows, those still open among them. -/
def realtimeImpressions (d : Draws) (s : Job) : ℕ :=
  sumWhere (fun k : WindowKey => k.campaignId = d.campaign) Stream.Counts.impressions
    (s.agg1m ++ s.openWindows)

theorem realtimeImpressions_eq : realtimeImpressions d s = s.counted.countP (ofTrace d) := by
  have hreachable : job.Reachable s := System.reachable_of_run hrun
  rw [realtimeImpressions]
  refine (Stream.sumWhere_windows hreachable Stream.Column.impressions _).trans ?_
  refine (sum_countIf .impression _ s.counted).trans (List.countP_congr fun e he => ?_)
  have he' : e ∈ s.deduped :=
    (Stream.deduped_perm hreachable).mem_iff.2 (List.mem_append_left _ he)
  show (decide (e.kind = .impression) && ofTrace d e) = true ↔ ofTrace d e = true
  rw [Bool.and_eq_true, and_iff_right_iff_imp]
  intro hcampaign
  obtain ⟨now, hnow⟩ := arrival_of_deduped hrun he'
  obtain ⟨-, -, -, -, hkind⟩ := exists_row_of_arrival hhmac hreads h hnow hcampaign
  exact decide_eq_true hkind

/-- No impression of the trace is lost between the windows and the late events. -/
theorem realtime_add_late :
    realtimeImpressions d s + s.late.countP (ofTrace d) = (rows kind d).length := by
  rw [realtimeImpressions_eq hhmac hreads h hrun,
    ← Stream.countP_deduped (System.reachable_of_run hrun),
    countP_deduped_ofTrace hhmac hreads h hrun]

/-- A trace that has arrived while its window was open is counted. -/
theorem realtime_of_punctual {before after : List Action} {s₁ : Job} (hlog : log = before ++ after)
    (hbefore : job.run Job.start before = some s₁)
    (hafter : ∀ x ∈ recordsOf after, ¬ Mentions d x.2)
    (hopen : lateAtWindow s₁.watermark (eventTime kind d) = false) :
    realtimeImpressions d s = (rows kind d).length := by
  have hrest : job.run s₁ after = some s := by
    rw [hlog, System.run_append, hbefore] at hrun
    exact hrun
  have hnone : s.late.countP (ofTrace d) = 0 := by
    refine List.countP_eq_zero.2 fun e he hcampaign => ?_
    rcases (since_run hrest).late e he with he' | ⟨now, hnow⟩
    · have hlate := late_of_mem_late (System.reachable_of_run hbefore) e he'
      have hmem : e ∈ s.deduped := (Stream.deduped_perm (System.reachable_of_run hrun)).mem_iff.2
        (List.mem_append_right _ he)
      obtain ⟨now, hnow⟩ := arrival_of_deduped hrun hmem
      obtain ⟨-, -, -, htime, -⟩ := exists_row_of_arrival hhmac hreads h hnow hcampaign
      rw [htime, hopen] at hlate
      cases hlate
    · obtain ⟨x, hx, hxe⟩ := mem_arrivals.1 ⟨now, hnow⟩
      refine hafter x hx (.inl ?_)
      rw [(row_of_eventOf hxe).2.2, of_decide_eq_true hcampaign]
  have hsum := realtime_add_late hhmac hreads h hrun
  omega

/-- A trace that arrives after its window has fired is not. -/
theorem realtime_of_overdue {before after : List Action} {s₁ : Job} (hlog : log = before ++ after)
    (hbefore : job.run Job.start before = some s₁)
    (hnone : ∀ x ∈ recordsOf before, ¬ Mentions d x.2)
    (hfired : lateAtWindow s₁.watermark (eventTime kind d) = true) :
    realtimeImpressions d s = 0 := by
  have hrest : job.run s₁ after = some s := by
    rw [hlog, System.run_append, hbefore] at hrun
    exact hrun
  rw [realtimeImpressions_eq hhmac hreads h hrun]
  refine List.countP_eq_zero.2 fun e he hcampaign => ?_
  rcases (since_run hrest).counted e he with he' | ⟨⟨now, hnow⟩, hopen⟩
  · have hmem : e ∈ s₁.deduped := (Stream.deduped_perm (System.reachable_of_run hbefore)).mem_iff.2
      (List.mem_append_left _ he')
    obtain ⟨now, hnow⟩ := arrival_of_deduped hbefore hmem
    obtain ⟨x, hx, hxe⟩ := mem_arrivals.1 ⟨now, hnow⟩
    refine hnone x hx (.inl ?_)
    rw [(row_of_eventOf hxe).2.2, of_decide_eq_true hcampaign]
  · have hlog' : (e, now) ∈ log.flatMap arrivalOf := by
      rw [hlog, List.flatMap_append]
      exact List.mem_append_right _ hnow
    obtain ⟨-, -, -, htime, -⟩ := exists_row_of_arrival hhmac hreads h hlog' hcampaign
    rw [htime, hfired] at hopen
    cases hopen

end

/-! ## What the tracer tells -/

/-- How many impressions Redis is told to count, and how many are settled. -/
structure Expect where
  redis : ℕ
  pg : ℕ

/-- `expect` in `KINDS`, as far as it is about impressions. -/
def expect : TraceKind → Option Expect
  | .normal => some ⟨1, 1⟩
  | .duplicate => some ⟨1, 1⟩
  | .ssai => some ⟨2, 1⟩
  | .late => some ⟨0, 1⟩
  | .badSchema => some ⟨0, 0⟩
  | .forged => some ⟨0, 0⟩
  | .adRequest => none

/-- The trace arrives as its kind wants it: when the log has come so far, a late one has not arrived
and its window has fired, any other has arrived and its window is open. -/
structure OnCue (kind : TraceKind) (d : Draws) (before after : List Action) (s₁ : Job) : Prop where
  arrival : ∀ x ∈ recordsOf (if kind = .late then before else after), ¬ Mentions d x.2
  window : lateAtWindow s₁.watermark (eventTime kind d) = decide (kind = .late)

/-- What happens to a trace. -/
structure Followed (ssaiPriority : List String) (rates : Rates) (kind : TraceKind) (d : Draws)
    (log : List Action) (archive : List ArchiveRow) (s : Job) (expected : Expect) : Prop where
  settled : ((dailySettlement ssaiPriority rates archive).filter fun x =>
      x.1.2 = some d.campaign) =
    List.replicate expected.pg
      (traceDay kind d, settledRow rates kind d (archive.countP (ofCampaign d)))
  conserved : realtimeImpressions d s + s.late.countP (ofTrace d) = (rows kind d).length
  redis : ∀ before after s₁, log = before ++ after → job.run Job.start before = some s₁ →
    OnCue kind d before after s₁ → realtimeImpressions d s = expected.redis

/-- The pipeline does with a trace what the tracer tells, whatever else is in the log. -/
theorem trace_followed (hhmac : ∀ s, (hmac s).length = 32) (hreads : Reads fmt kind d)
    (h : Traced hmac fmt kind d log) (hrun : job.run Job.start log = some s)
    (harchive : ∀ r, r ∈ archive ↔ r ∈ (recordsOf log).map archived) (ssaiPriority : List String)
    (rates : Rates) {expected : Expect} (hexpected : expect kind = some expected) :
    Followed ssaiPriority rates kind d log archive s expected := by
  have hholds : Holds kind d archive := fun r => mem_archive_iff hhmac hreads h harchive
  have hlength : expected.redis = if kind = .late then 0 else (rows kind d).length := by
    cases kind <;> cases hexpected <;> rfl
  constructor
  · rw [dailySettlement_ofCampaign h.different hholds]
    cases kind <;> cases hexpected <;> rfl
  · exact realtime_add_late hhmac hreads h hrun
  · rintro before after s₁ hlog hbefore ⟨harrival, hwindow⟩
    rw [hlength]
    split_ifs with hkind
    · rw [if_pos hkind] at harrival
      rw [decide_eq_true hkind] at hwindow
      exact realtime_of_overdue hhmac hreads h hrun hlog hbefore harrival hwindow
    · rw [if_neg hkind] at harrival
      rw [decide_eq_false hkind] at hwindow
      exact realtime_of_punctual hhmac hreads h hrun hlog hbefore harrival hwindow

/-- Both paths of one impression, one of them twice, around an impression of another campaign. -/
def sampleLog : List Action :=
  [.record .impression (tracedRow sampleDraws sampleDraws.eventId "client" none none 100000) 0,
    .record .impression (kindRow "e1" "impression" none none 100500) 10,
    .record .impression
      (tracedRow sampleDraws sampleDraws.twinId "server" (some sampleDraws.eventId) none 100000) 20,
    .record .impression (tracedRow sampleDraws sampleDraws.eventId "client" none none 100000) 30,
    .watermark 200000]

theorem reads_sample : Reads JsonFormat.jackson .ssai sampleDraws :=
  ⟨by decide, by decide, by decide⟩

theorem traced_sample : Traced (fun _ => List.replicate 32 0) JsonFormat.jackson .ssai sampleDraws
    sampleLog where
  own := by
    have hown : ∀ x ∈ recordsOf sampleLog, Mentions sampleDraws x.2 →
        x.1 = .impression ∧ x.2 ∈ rows .ssai sampleDraws := by
      simp only [Mentions]
      decide
    intro x hx hmentions
    obtain ⟨htopic, hrow⟩ := hown x hx hmentions
    obtain ⟨e, he, harrives⟩ := exists_posted reads_sample hrow
    obtain ⟨hcall, hread⟩ := harrives sampleReadings sampleReadings_clock
    refine ⟨_, .posted he sampleReadings sampleReadings_clock, ?_, Prod.ext ?_ ?_⟩
    · rw [hcall]
      decide
    · rw [htopic, hcall]
    · exact hread.symm
  arrived := by
    have hmem : ∀ row ∈ rows .ssai sampleDraws, (Topic.impression, row) ∈ recordsOf sampleLog := by
      decide
    intro e he
    obtain ⟨row, hrow, harrives⟩ := exists_row reads_sample (by decide) he
    obtain ⟨hcall, hread⟩ := harrives sampleReadings sampleReadings_clock
    refine ⟨sampleReadings, sampleReadings_clock, fun _ => ?_⟩
    rw [hcall, hread]
    exact hmem row hrow
  different := by decide
  inTime := by
    have hclose : ∀ a ∈ sampleLog.flatMap arrivalOf, ∀ b ∈ sampleLog.flatMap arrivalOf,
        a.2 < b.2 + Stream.stateTtl := by decide
    exact fun id _ first hfirst a ha _ => hclose a ha first (List.mem_of_find?_eq_some hfirst)

/-- Both paths are counted in realtime, and one impression is settled. The second path is in
`raw_impressions`, and the second copy of the first path in `dupes_removed`. -/
theorem trace_followed_ssai : ∃ s, job.run Job.start sampleLog = some s ∧
    realtimeImpressions sampleDraws s = 2 ∧
    (dailySettlement ["server", "client"] noRates ((recordsOf sampleLog).map archived)).filter
        (fun x => x.1.2 = some sampleDraws.campaign) =
      [(traceDay .ssai sampleDraws, settledRow noRates .ssai sampleDraws 3)] := by
  have hfollowed := trace_followed (fun _ => List.length_replicate) reads_sample traced_sample
    (show job.run Job.start sampleLog = some _ from rfl) (fun _ => Iff.rfl) ["server", "client"]
    noRates (show expect .ssai = some ⟨2, 1⟩ from rfl)
  refine ⟨_, rfl, hfollowed.redis (sampleLog.take 4) (sampleLog.drop 4) _ rfl rfl ?_,
    hfollowed.settled⟩
  exact ⟨by simp only [Mentions]; decide, by decide⟩

end AdPipeline.Tracer
