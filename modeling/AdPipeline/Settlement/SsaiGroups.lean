import AdPipeline.Settlement.Classification

/-!
# What the SSAI merge joins

Deduplicated impressions are merged by `coalesce(ad_request_id, event_id)`. The coalesce replaces
only a null `ad_request_id`, not an empty one, and its values come from two id spaces at once. The
merge joins exactly the impressions of one ad when neither shows in the data (`mergesAds_iff`).
-/

namespace AdPipeline.Settlement

open Collector AdPipeline.Stream Lib

variable (ssaiPriority : List String) (archive : List ArchiveRow)

/-- Both impressions carry the same `ad_request_id`, and it is not empty. -/
def SameAd (a b : ArchiveRow) : Prop :=
  ∃ x, x ≠ "" ∧ a.adRequestId = some x ∧ b.adRequestId = some x

/-- The `ad_request_id` is missing or empty. -/
def NoAdRequestId (a : ArchiveRow) : Prop := a.adRequestId = none ∨ a.adRequestId = some ""

/-- The merge joins exactly the impressions of one ad. -/
structure MergesAds : Prop where
  /-- Different impressions share a group exactly when they are of the same ad. -/
  sameGroup : ∀ a ∈ impAll archive, ∀ b ∈ impAll archive, a.eventId ≠ b.eventId →
    (grp a = grp b ↔ SameAd a b)
  /-- Of a group at most one impression is billed. -/
  billedOnce : ∀ a ∈ imp ssaiPriority archive, ∀ b ∈ imp ssaiPriority archive,
    grp a = grp b → a = b
  /-- An impression without an `ad_request_id` is billed on its own. -/
  alone : ∀ a ∈ impAll archive, NoAdRequestId a →
    a ∈ imp ssaiPriority archive ∧ ∀ b ∈ impAll archive, grp b = grp a → b = a
  /-- Nothing else is in the group of an impression's `event_id` when that is what it is grouped
  by. -/
  ownEventId : ∀ a ∈ impAll archive, a.adRequestId = none → ∀ b ∈ impAll archive,
    grp b = a.eventId → b = a

/-- At most one event has an empty `ad_request_id`, and no `ad_request_id` is the `event_id` of an
impression without one. -/
structure IdsApart : Prop where
  empty : ∀ a ∈ impAll archive, ∀ b ∈ impAll archive, a.adRequestId = some "" →
    b.adRequestId = some "" → a.eventId = b.eventId
  event : ∀ a ∈ impAll archive, a.adRequestId = none → ∀ b ∈ impAll archive,
    b.adRequestId ≠ a.eventId

variable {ssaiPriority archive} {a b : ArchiveRow}

/-! ## Deduplicated impressions -/

theorem eventId_of_mem_impAll (h : a ∈ impAll archive) : ∃ e, a.eventId = some e :=
  Option.isSome_iff_exists.1 (mem_raw.1 (mem_of_mem_dedup (mem_impAll.1 h).1)).2

/-- Impressions of one event are one row. -/
theorem eq_of_eventId_eq (ha : a ∈ impAll archive) (hb : b ∈ impAll archive)
    (h : a.eventId = b.eventId) : a = b := by
  have hnodup := nodup_key_rowNumberOne (fun r : ArchiveRow => r.eventId) eventOrder (raw archive)
  exact List.inj_on_of_nodup_map hnodup (mem_impAll.1 ha).1 (mem_impAll.1 hb).1 h

/-- Kept impressions of one group are one row. -/
theorem eq_of_grp_eq (ha : a ∈ imp ssaiPriority archive) (hb : b ∈ imp ssaiPriority archive)
    (h : grp a = grp b) : a = b :=
  List.inj_on_of_nodup_map (nodup_key_rowNumberOne grp (ssaiOrder ssaiPriority) (impAll archive))
    ha hb h

/-- An impression that nothing shares a group with is kept. -/
theorem mem_imp_of_alone (ha : a ∈ impAll archive)
    (h : ∀ b ∈ impAll archive, grp b = grp a → b = a) : a ∈ imp ssaiPriority archive := by
  obtain ⟨m, hm, hgrp⟩ := exists_mem_rowNumberOne grp (ssaiOrder ssaiPriority) ha
  have hma : m = a := h m (mem_of_mem_imp hm) hgrp
  exact hma ▸ hm

/-! ## Groups -/

theorem grp_of_adRequestId {x : String} (h : a.adRequestId = some x) : grp a = some x := by
  rw [grp, h]
  rfl

theorem grp_of_none (h : a.adRequestId = none) : grp a = a.eventId := by
  rw [grp, h]
  rfl

theorem SameAd.grp_eq (h : SameAd a b) : grp a = grp b := by
  obtain ⟨x, -, ha, hb⟩ := h
  rw [grp_of_adRequestId ha, grp_of_adRequestId hb]

theorem NoAdRequestId.not_sameAd (h : NoAdRequestId a) : ¬ SameAd b a := by
  rintro ⟨x, hx, -, ha⟩
  rcases h with hnone | hempty
  · rw [hnone] at ha
    cases ha
  · rw [hempty] at ha
    exact hx (Option.some.inj ha).symm

/-- Different impressions of one group are of one ad when the two id spaces do not meet. -/
theorem IdsApart.sameAd (h : IdsApart archive) (ha : a ∈ impAll archive) (hb : b ∈ impAll archive)
    (hne : a.eventId ≠ b.eventId) (hgrp : grp a = grp b) : SameAd a b := by
  cases harid : a.adRequestId with
  | none =>
      cases hbrid : b.adRequestId with
      | none =>
          rw [grp_of_none harid, grp_of_none hbrid] at hgrp
          exact absurd hgrp hne
      | some y =>
          rw [grp_of_none harid, grp_of_adRequestId hbrid] at hgrp
          exact absurd (hbrid.trans hgrp.symm) (h.event a ha harid b hb)
  | some x =>
      cases hbrid : b.adRequestId with
      | none =>
          rw [grp_of_adRequestId harid, grp_of_none hbrid] at hgrp
          exact absurd (harid.trans hgrp) (h.event b hb hbrid a ha)
      | some y =>
          rw [grp_of_adRequestId harid, grp_of_adRequestId hbrid] at hgrp
          obtain rfl := Option.some.inj hgrp
          by_cases hx : x = ""
          · subst hx
            exact absurd (h.empty a ha b hb harid hbrid) hne
          · exact ⟨x, hx, harid, hbrid⟩

theorem IdsApart.eq_of_grp_eq (h : IdsApart archive) (ha : a ∈ impAll archive)
    (hno : NoAdRequestId a) (hb : b ∈ impAll archive) (hgrp : grp b = grp a) : b = a := by
  by_contra hne
  have hid : b.eventId ≠ a.eventId := fun hid => hne (eq_of_eventId_eq hb ha hid)
  exact hno.not_sameAd (h.sameAd hb ha hid hgrp)

/-- The merge joins exactly the impressions of one ad if and only if the ids are apart. -/
theorem mergesAds_iff : MergesAds ssaiPriority archive ↔ IdsApart archive := by
  constructor
  · intro h
    constructor
    · intro a ha b hb harid hbrid
      by_contra hne
      have hgrp : grp a = grp b := by
        rw [grp_of_adRequestId harid, grp_of_adRequestId hbrid]
      have hno : NoAdRequestId b := .inr hbrid
      exact hno.not_sameAd ((h.sameGroup a ha b hb hne).1 hgrp)
    · intro a ha harid b hb hbrid
      obtain ⟨e, he⟩ := eventId_of_mem_impAll ha
      have hgrp : grp b = a.eventId := by
        rw [he] at hbrid ⊢
        exact grp_of_adRequestId hbrid
      -- the two are one row, which has no `ad_request_id`
      rw [h.ownEventId a ha harid b hb hgrp, harid, he] at hbrid
      cases hbrid
  · intro h
    constructor
    · intro a ha b hb hne
      exact ⟨h.sameAd ha hb hne, SameAd.grp_eq⟩
    · intro a ha b hb hgrp
      exact eq_of_grp_eq ha hb hgrp
    · intro a ha hno
      have halone := fun b hb => h.eq_of_grp_eq (b := b) ha hno hb
      exact ⟨mem_imp_of_alone ha halone, halone⟩
    · intro a ha harid b hb hgrp
      exact h.eq_of_grp_eq ha (.inl harid) hb (hgrp.trans (grp_of_none harid).symm)

/-! ## Impressions with an empty `ad_request_id` -/

/-- An impression whose `ad_request_id` is empty. -/
def emptyIdNode (eventId campaignId : String) : Json :=
  .obj [("event_id", .str eventId), ("event_type", .str "impression"),
    ("campaign_id", .str campaignId), ("event_time", .int 0), ("ad_request_id", .str "")]

/-- The archived row of an accepted impression. -/
def archivedImpression (node : Json) : ArchiveRow :=
  archiveRow .impression
    (EventRow.ofJson .jackson (EventIngestService.ingest epochReadings "/impression" node).node)

/-- The Collector does not look at `ad_request_id`. -/
theorem routed_emptyIdNode {eventId campaignId : String} (hevent : Text.isBlank eventId = false)
    (hcampaign : Text.isBlank campaignId = false) :
    EventIngestService.Routed epochReadings.validatedAt (emptyIdNode eventId campaignId)
      (.ofEpochMilli 0) .impression := by
  have hdescribes : EventIngestService.Describes
      [("event_id", .str eventId), ("event_type", .str "impression"),
        ("campaign_id", .str campaignId), ("event_time", .int 0), ("ad_request_id", .str "")]
      ⟨eventId, "impression", campaignId, .ofEpochMilli 0, hevent, rfl, hcampaign⟩ :=
    ⟨rfl, rfl, rfl, rfl⟩
  have hclock : ¬ EventValidator.TooFarAhead epochReadings.validatedAt (.ofEpochMilli 0) := by
    decide
  have htopic : topicFor "impression" = some .impression := by decide
  exact hdescribes.routed_iff.2 ⟨hclock, rfl, htopic⟩

/-- Two impressions of different campaigns, both accepted with an empty `ad_request_id`: one group,
one of them billed. -/
theorem empty_ids_merged :
    EventIngestService.Routed epochReadings.validatedAt (emptyIdNode "e1" "c1") (.ofEpochMilli 0)
      .impression ∧
    EventIngestService.Routed epochReadings.validatedAt (emptyIdNode "e2" "c2") (.ofEpochMilli 0)
      .impression ∧
    (let archive := [archivedImpression (emptyIdNode "e1" "c1"),
      archivedImpression (emptyIdNode "e2" "c2")]
    (∀ a ∈ archive, a ∈ impAll archive ∧ NoAdRequestId a) ∧
    (imp ["server", "client"] archive).length = 1 ∧
    ¬ MergesAds ["server", "client"] archive) := by
  refine ⟨routed_emptyIdNode (by decide) (by decide),
    routed_emptyIdNode (by decide) (by decide), ?_⟩
  intro archive
  refine ⟨?_, by decide, ?_⟩
  · unfold NoAdRequestId
    decide
  · intro h
    have hsame := (h.sameGroup (archivedImpression (emptyIdNode "e1" "c1")) (by decide)
      (archivedImpression (emptyIdNode "e2" "c2")) (by decide) (by decide)).1 (by decide)
    have hno : NoAdRequestId (archivedImpression (emptyIdNode "e2" "c2")) := .inr (by decide)
    exact hno.not_sameAd hsame

end AdPipeline.Settlement
