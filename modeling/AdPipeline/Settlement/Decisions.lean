import AdPipeline.AdDecision.DecisionService
import AdPipeline.Outbox.KeyOrder
import AdPipeline.Settlement.Minutes

/-!
# Decisions and settled requests

A decision is committed with its outbox row, the workers publish the row at least once, and the
batch counts the deduplicated `ad_response` records that are filled. Whatever the interleaving, the
requests settled for a campaign are the filled decisions for it whose row has been published, each
once: no fewer than the rows marked as published, and no more than the decisions committed
(`requests_settled`).
-/

namespace AdPipeline.AdDecision

/-- Every decision is one that a call has finished. -/
theorem exists_finish (props : AdDecisionProperties) {D : Type} [DecidableEq D] {d : State D}
    (h : (service props D).Reachable d) : ∀ x ∈ d.decisions,
      ∃ call campaign reason creative seen,
        x = finish props call campaign reason creative seen := by
  refine (Lib.System.Reaches.invariant (I := fun d : State D => ∀ x ∈ d.decisions,
    ∃ call campaign reason creative seen,
      x = finish props call campaign reason creative seen) ?_ ?_ h)
  · exact fun x hx => absurd hx List.not_mem_nil
  intro s a t hs hi _ hst x hx
  rw [(step_spec props (inv_of_reaches props hs) hst).2] at hx
  refine (List.mem_append.1 hx).elim (fun hnew => ?_) (hi x)
  replace hnew := Option.mem_toList.1 hnew
  cases a with
  | start e call =>
      simp only [made, begin] at hnew
      split_ifs at hnew
      · obtain rfl := Option.some.inj hnew
        exact ⟨_, _, _, _, _, rfl⟩
  | read e =>
      simp only [made] at hnew
      cases hphase : s.phases e with
      | idle =>
          rw [hphase] at hnew
          cases hnew
      | preferring call =>
          simp only [hphase, resume] at hnew
          split at hnew <;> cases hnew
      | picking call =>
          simp only [hphase, resume] at hnew
          split at hnew <;> cases hnew
      | choosing call campaign =>
          rw [hphase] at hnew
          obtain rfl := Option.some.inj hnew
          exact ⟨_, _, _, _, _, rfl⟩
      | reasoning call seen =>
          rw [hphase] at hnew
          obtain rfl := Option.some.inj hnew
          exact ⟨_, _, _, _, _, rfl⟩
  | setCache rows => cases hnew
  | setCreatives => cases hnew

/-- What the payload of a decision says is what the response says. -/
structure Announces (x : Decision) : Prop where
  eventId : x.outbox.payload.get "event_id" = some (.str x.outbox.eventId)
  eventType : x.outbox.payload.get "event_type" = some (.str "ad_response")
  campaignId : x.outbox.payload.get "campaign_id" =
    some (.str (x.response.campaignId.getD "nofill"))
  fill : x.outbox.payload.get "fill" = some (.bool x.response.fill)
  filled : x.response.fill = x.response.campaignId.isSome

theorem announces (props : AdDecisionProperties) {D : Type} [DecidableEq D] {d : State D}
    (h : (service props D).Reachable d) {x : Decision} (hx : x ∈ d.decisions) : Announces x := by
  obtain ⟨call, campaign, reason, creative, seen, rfl⟩ := exists_finish props h x hx
  exact ⟨rfl, rfl, rfl, rfl, by simp only [finish, Option.isSome_map]⟩

end AdPipeline.AdDecision

namespace AdPipeline.Settlement

open Lib Collector AdPipeline.Stream AdDecision Outbox

variable {W D : Type}

/-! ## Rows of decisions -/

/-- The rows of the outbox are of decisions made, under event ids of their own, for campaigns that
are settled. `read` is what a reader of the topic makes of a payload: PostgreSQL's `jsonb` keeps the
fields, but not the text. -/
structure OfDecisions (read : String → Fields) (decided : ℕ → Decision) (d : AdDecision.State D)
    (s : Outbox.State W) : Prop where
  made : ∀ r ∈ s.rows, decided r.id ∈ d.decisions
  payload : ∀ r ∈ s.rows, ∀ name, (read r.payload).get name =
    (decided r.id).outbox.payload.get name
  eventIds : ∀ r ∈ s.rows, ∀ r' ∈ s.rows,
    (decided r.id).outbox.eventId = (decided r'.id).outbox.eventId → r.id = r'.id
  campaigns : ∀ r ∈ s.rows, ∀ c ∈ (decided r.id).response.campaignId, c ∉ nonCampaign

/-- What the archive job makes of a message. -/
def archivedMessage (fmt : JsonFormat) (read : String → Fields) (m : Message W) : ArchiveRow :=
  archiveRow .request (EventRow.ofJson fmt (read m.value))

/-- The requests settled for a campaign, over all minutes. -/
def campaignRequests (table : List (GroupKey × MinuteSettlement)) (c : String) : ℕ :=
  sumWhere (fun k => k.2 = some c) MinuteSettlement.requests table

/-- The decision of a row is for a campaign. -/
def decidedFor (decided : ℕ → Decision) (c : String) (r : OutboxRow) : Bool :=
  (decided r.id).response.campaignId = some c

/-- The archive has the messages of the log and other rows, none of them a filled response and none
with the event id of a decision. -/
structure Archived (fmt : JsonFormat) (read : String → Fields) (decided : ℕ → Decision)
    (s : Outbox.State W) (archive : List ArchiveRow) : Prop where
  logged : ∀ m ∈ s.log, archivedMessage fmt read m ∈ archive
  others : ∀ a ∈ archive, (∃ m ∈ s.log, a = archivedMessage fmt read m) ∨
    (isRequest a = false ∧ ∀ r ∈ s.rows, a.eventId ≠ some (decided r.id).outbox.eventId)

section

variable [DecidableEq D] {adProps : AdDecisionProperties} {d : AdDecision.State D}
  {fmt : JsonFormat} {read : String → Fields} {decided : ℕ → Decision} {s : Outbox.State W}
  {m : Message W} {r : OutboxRow}

omit [DecidableEq D] in
/-- A text field of a record. -/
theorem bind_string {fields : Fields} {name text : String}
    (h : fields.get name = some (.str text)) :
    (fields.get name).bind fmt.string = some text := by
  rw [h, Option.bind_some]
  exact fmt.string_scalar (.str text) rfl rfl

/-- The archived message of a row has the decision's event id, its campaign and whether it is
filled. -/
theorem archivedMessage_of_for (hd : (service adProps D).Reachable d)
    (hbool : ∀ b, fmt.boolean (.bool b) = some b) (h : OfDecisions read decided d s)
    (hr : r ∈ s.rows) (hm : m.For r) :
    (archivedMessage fmt read m).eventId = some (decided r.id).outbox.eventId ∧
      (archivedMessage fmt read m).campaignId =
        some ((decided r.id).response.campaignId.getD "nofill") ∧
      (isRequest (archivedMessage fmt read m) = true ↔
        (decided r.id).response.campaignId.isSome = true) := by
  have hsays := announces adProps hd (h.made r hr)
  have hget : ∀ name, (read m.value).get name = (decided r.id).outbox.payload.get name := by
    rw [hm.2.2]
    exact h.payload r hr
  have hid : (archivedMessage fmt read m).eventId = some (decided r.id).outbox.eventId :=
    bind_string ((hget _).trans hsays.eventId)
  have htype : (archivedMessage fmt read m).eventType = some "ad_response" :=
    bind_string ((hget _).trans hsays.eventType)
  have hcampaign : (archivedMessage fmt read m).campaignId =
      some ((decided r.id).response.campaignId.getD "nofill") :=
    bind_string ((hget _).trans hsays.campaignId)
  have hfill : (archivedMessage fmt read m).fill = some (decided r.id).response.fill := by
    show ((read m.value).get "fill").bind fmt.boolean = _
    rw [hget, hsays.fill, Option.bind_some, hbool]
  refine ⟨hid, hcampaign, ?_⟩
  simp only [isRequest, inBase, inCampaign, hcampaign, htype, hfill, hsays.filled]
  cases hc : (decided r.id).response.campaignId with
  | none => simp [nonCampaign]
  | some c => simpa using h.campaigns r hr c hc

end

/-! ## Counting -/

section

variable [DecidableEq W] [Fintype W] [DecidableEq D] {props : W → OutboxProperties}
  {adProps : AdDecisionProperties} {d : AdDecision.State D} {fmt : JsonFormat}
  {read : String → Fields} {decided : ℕ → Decision} {s : Outbox.State W}
  {archive : List ArchiveRow}

omit [DecidableEq W] [Fintype W] in
/-- The filled responses settled are the published decisions, each once. -/
theorem countP_requests (hinv : Outbox.Inv s) (hd : (service adProps D).Reachable d)
    (hbool : ∀ b, fmt.boolean (.bool b) = some b) (h : OfDecisions read decided d s)
    (harchive : Archived fmt read decided s archive) (c : String) :
    ((dedup archive).filter isRequest).countP (fun a => a.campaignId = some c) =
      s.rows.countP fun r => InLog s r.id && decidedFor decided c r := by
  have hrow : ∀ m ∈ s.log, ∃ r ∈ s.rows, m.For r :=
    fun m hm => hinv.noPhantom m (List.mem_append_right _ hm)
  -- where a settled response comes from
  have horigin : ∀ a ∈ (dedup archive).filter isRequest, ∃ m ∈ s.log, ∃ r ∈ s.rows, m.For r ∧
      a = archivedMessage fmt read m ∧ (decided r.id).response.campaignId.isSome = true := by
    intro a ha
    obtain ⟨hdedup, hrequest⟩ := List.mem_filter.1 ha
    rcases harchive.others a (mem_raw.1 (mem_of_mem_dedup hdedup)).1 with ⟨m, hm, rfl⟩ | ⟨hno, -⟩
    · obtain ⟨r, hr, hfor⟩ := hrow m hm
      exact ⟨m, hm, r, hr, hfor, rfl, (archivedMessage_of_for hd hbool h hr hfor).2.2.1 hrequest⟩
    · rw [hno] at hrequest
      cases hrequest
  have hsplit : (s.rows.countP fun r => InLog s r.id && decidedFor decided c r) =
      (s.rows.filter fun r =>
        InLog s r.id && (decided r.id).response.campaignId.isSome).countP
          (decidedFor decided c) := by
    rw [List.countP_filter]
    refine List.countP_congr fun r _ => ?_
    simp only [decidedFor, Bool.and_eq_true, decide_eq_true_eq]
    constructor
    · rintro ⟨hlog, hcampaign⟩
      exact ⟨hcampaign, hlog, by rw [hcampaign]; rfl⟩
    · rintro ⟨hcampaign, hlog, -⟩
      exact ⟨hlog, hcampaign⟩
  rw [hsplit]
  refine countP_eq_of_keys (f := fun a => a.eventId)
    (g := fun r => some (decided r.id).outbox.eventId) ?_ ?_ ?_ ?_
  · exact (nodup_key_rowNumberOne _ _ _).sublist (List.filter_sublist.map _)
  · refine List.Nodup.map_on ?_ ?_
    · intro r hr r' hr' heq
      have hid := h.eventIds r (List.mem_of_mem_filter hr) r' (List.mem_of_mem_filter hr')
        (Option.some.inj heq)
      exact hinv.eq_of_id_eq (List.mem_of_mem_filter hr) (List.mem_of_mem_filter hr') hid
    · exact (hinv.nodup_rows.of_map _).filter _
  · intro k
    constructor
    · intro hk
      obtain ⟨a, ha, rfl⟩ := List.mem_map.1 hk
      obtain ⟨m, hm, r, hr, hfor, rfl, hfilled⟩ := horigin a ha
      rw [(archivedMessage_of_for hd hbool h hr hfor).1]
      refine List.mem_map.2 ⟨r, List.mem_filter.2 ⟨hr, ?_⟩, rfl⟩
      rw [Bool.and_eq_true, decide_eq_true_eq]
      exact ⟨List.mem_map.2 ⟨m, hm, hfor.1⟩, hfilled⟩
    · intro hk
      obtain ⟨r, hr, rfl⟩ := List.mem_map.1 hk
      obtain ⟨hr, hguard⟩ := List.mem_filter.1 hr
      rw [Bool.and_eq_true, decide_eq_true_eq] at hguard
      obtain ⟨m, hm, hmr⟩ := List.mem_map.1 hguard.1
      obtain ⟨r', hr', hfor⟩ := hrow m hm
      obtain rfl := hinv.eq_of_id_eq hr' hr (hfor.1.symm.trans hmr)
      obtain ⟨hid, -, -⟩ := archivedMessage_of_for hd hbool h hr' hfor
      have hraw : archivedMessage fmt read m ∈ raw archive :=
        mem_raw.2 ⟨harchive.logged m hm, by rw [hid]; rfl⟩
      obtain ⟨a, ha, haid⟩ :=
        exists_mem_rowNumberOne (fun a : ArchiveRow => a.eventId) eventOrder hraw
      -- the copy that is kept is of the same row
      rcases harchive.others a (mem_raw.1 (mem_of_mem_dedup ha)).1 with ⟨m', hm', rfl⟩ | ⟨-, hne⟩
      · obtain ⟨r', hr'', hfor'⟩ := hrow m' hm'
        obtain ⟨hid', -, hrequest⟩ := archivedMessage_of_for hd hbool h hr'' hfor'
        have hsame := h.eventIds _ hr'' _ hr'
          (Option.some.inj (hid'.symm.trans (haid.trans hid)))
        rw [hsame] at hrequest
        exact List.mem_map.2 ⟨_, List.mem_filter.2 ⟨ha, hrequest.2 hguard.2⟩, haid.trans hid⟩
      · exact absurd (haid.trans hid) (hne _ hr')
  · intro a ha r hr heq
    obtain ⟨m, hm, r', hr', hfor, rfl, hfilled⟩ := horigin a ha
    obtain ⟨hid, hcampaign, -⟩ := archivedMessage_of_for hd hbool h hr' hfor
    have hsame := h.eventIds _ hr' _ (List.mem_of_mem_filter hr)
      (Option.some.inj (hid.symm.trans heq))
    obtain ⟨c', hc'⟩ := Option.isSome_iff_exists.1 hfilled
    rw [hcampaign, decidedFor, ← hsame, hc', Option.getD_some]

/-- Whatever the interleaving of the workers and whatever fails, the requests settled for a campaign
are the decisions for it whose rows have been published, each once. They lie between the rows marked
as published and the decisions committed, and are all of these once every row is marked. -/
theorem requests_settled (hs : (outbox W props).Reachable s)
    (hd : (service adProps D).Reachable d) (hbool : ∀ b, fmt.boolean (.bool b) = some b)
    (h : OfDecisions read decided d s) (harchive : Archived fmt read decided s archive)
    (ssaiPriority : List String) (c : String) :
    let settled := campaignRequests (minuteSettlement ssaiPriority archive) c
    settled = s.rows.countP (fun r => InLog s r.id && decidedFor decided c r) ∧
      s.rows.countP (fun r => r.published && decidedFor decided c r) ≤ settled ∧
      settled ≤ s.rows.countP (decidedFor decided c) ∧
      ((∀ r ∈ s.rows, r.published = true) → settled = s.rows.countP (decidedFor decided c)) := by
  intro settled
  have hinv : Outbox.Inv s := hs.invariant .start fun _ _ _ hi hst => hi.step hst
  have hexact : settled = s.rows.countP fun r => InLog s r.id && decidedFor decided c r :=
    (sumWhere_minute_requests fun k => k.2 = some c).trans
      (countP_requests hinv hd hbool h harchive c)
  have hmarked : ∀ r ∈ s.rows, r.published = true → InLog s r.id := by
    intro r hr hpublished
    obtain ⟨m, hm, hfor⟩ := hinv.delivered r hr hpublished
    exact List.mem_map.2 ⟨m, hm, hfor.1⟩
  refine ⟨hexact, ?_, ?_, fun hall => ?_⟩
  · rw [hexact]
    refine List.countP_mono_left fun r hr hguard => ?_
    rw [Bool.and_eq_true] at hguard ⊢
    exact ⟨decide_eq_true (hmarked r hr hguard.1), hguard.2⟩
  · rw [hexact]
    refine List.countP_mono_left fun r _ hguard => ?_
    rw [Bool.and_eq_true] at hguard
    exact hguard.2
  · rw [hexact]
    refine List.countP_congr fun r hr => ?_
    rw [Bool.and_eq_true]
    exact and_iff_right (decide_eq_true (hmarked r hr (hall r hr)))

end

/-- The decision of the sample call. -/
def sampleDecision : Decision :=
  finish sampleProps (sampleCall 30 (some "cmp-1")) (some (sampleCampaign "cmp-1" 3)) none
    (some "crt-1-a") none

/-- A row is published by one worker, whose send times out, and again by another, which marks it:
the batch counts one request. -/
theorem requests_settled_twice : ∃ s : Outbox.State (Fin 2),
    (outbox (Fin 2) fun _ => ⟨500, mkRat 1 50, true⟩).Reachable s ∧
    s.log.map Message.rowId = [1, 1] ∧
    campaignRequests (minuteSettlement ["server", "client"]
      (s.log.map (archivedMessage .jackson fun _ => sampleDecision.outbox.payload))) "cmp-1" =
        1 := by
  obtain ⟨d, hd, hdecisions⟩ : ∃ d, (service sampleProps Unit).Reachable d ∧
      d.decisions = [sampleDecision] :=
    ⟨_, System.reachable_of_run (show (service sampleProps Unit).run _
      [.setCache [sampleCampaign "cmp-1" 3], .setCreatives,
        .start () (sampleCall 30 (some "cmp-1")), .read (), .read ()] = some _ from rfl), rfl⟩
  obtain ⟨s, hs, hrows, hlog⟩ : ∃ s, (outbox (Fin 2) fun _ => ⟨500, mkRat 1 50, true⟩).Reachable s ∧
      s.rows = [⟨1, "req-1", "p", true⟩] ∧ s.log.map Message.rowId = [1, 1] :=
    ⟨_, System.reachable_of_run (show (outbox (Fin 2) fun _ => ⟨500, mkRat 1 50, true⟩).run _
      [.insert "req-1" "p", .commitDecide 1, .select 0, .examine 0, .selected 0, .send 0, .store 0,
        .fail 0, .returnEmpty 0, .select 1, .examine 1, .selected 1, .send 1, .store 1, .ack 1,
        .loopEnd 1, .update 1 (mkRat 1 2), .commit 1] = some _ from rfl), rfl, rfl⟩
  have hof : OfDecisions (fun _ => sampleDecision.outbox.payload) (fun _ => sampleDecision) d s :=
    { made := fun _ _ => hdecisions ▸ List.mem_singleton_self sampleDecision
      payload := fun _ _ _ => rfl
      eventIds := fun r hr r' hr' _ => by
        rw [hrows] at hr hr'
        rw [List.mem_singleton.1 hr, List.mem_singleton.1 hr']
      campaigns := fun _ _ c hc => by
        obtain rfl := Option.some.inj hc
        decide }
  refine ⟨s, hs, hlog, (requests_settled hs hd (fun _ => rfl) hof
    ⟨fun m hm => List.mem_map_of_mem hm, fun a ha => ?_⟩ _ "cmp-1").2.2.2 ?_ |>.trans ?_⟩
  · obtain ⟨m, hm, rfl⟩ := List.mem_map.1 ha
    exact .inl ⟨m, hm, rfl⟩
  · rw [hrows]
    decide
  · rw [hrows]
    rfl

end AdPipeline.Settlement
