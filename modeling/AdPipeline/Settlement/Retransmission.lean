import AdPipeline.Settlement.Batch
import Mathlib.Data.Finset.Card

/-!
# Billing against retransmissions and twins

The impressions billed are one for each value of `coalesce(ad_request_id, event_id)` among the
billable impressions of the archive. Sending an event again adds no value, and neither does another
beacon of an ad already shown, so neither changes the total (`billing_insensitive`).

Campaign by campaign this needs each value to belong to one campaign. An `event_id` that happens to
be the `ad_request_id` of another ad puts two ads into one group, and a twin can then change which
of them is billed (`campaign_total_moved`).
-/

namespace AdPipeline.Settlement

open Lib AdPipeline.Stream

variable {ssaiPriority : List String} {rates : Rates}

/-! ## Datasets and additions -/

/-- The business columns of a row. -/
structure Business where
  eventType : Option String
  campaignId : Option String
  adRequestId : Option String
  source : Option String
  eventTime : Option ℤ
  sourceTopic : String
  quartile : Option String
  fill : Option Bool
deriving DecidableEq

def business (r : ArchiveRow) : Business :=
  ⟨r.eventType, r.campaignId, r.adRequestId, r.source, r.eventTime, r.sourceTopic, r.quartile,
    r.fill⟩

/-- Rows that share an `event_id` agree on all business columns. -/
def Consistent (archive : List ArchiveRow) : Prop :=
  ∀ r ∈ raw archive, ∀ r' ∈ raw archive, r.eventId = r'.eventId → business r = business r'

/-- A row added to a dataset: one of its rows again, or a new impression that repeats the
`ad_request_id` of a billable one. -/
inductive Addition (archive : List ArchiveRow) (a : ArchiveRow) : Prop
  | retransmission : a ∈ archive → Addition archive a
  | twin (b : ArchiveRow) (adRequestId : String) : b ∈ raw archive → isImpression b = true →
      b.adRequestId = some adRequestId → a.adRequestId = some adRequestId →
      a.eventType = some "impression" → (∀ r ∈ archive, r.eventId ≠ a.eventId) →
      Addition archive a

/-- The values of `coalesce(ad_request_id, event_id)` among the billable impressions. -/
def billedGroups (archive : List ArchiveRow) : Finset (Option String) :=
  (((raw archive).filter isImpression).map grp).toFinset

/-- Each of these values carries one campaign. -/
def OneCampaign (archive : List ArchiveRow) : Prop :=
  ∀ r ∈ raw archive, ∀ r' ∈ raw archive, isImpression r = true → isImpression r' = true →
    grp r = grp r' → r.campaignId = r'.campaignId

/-- The impressions billed over all days and campaigns. -/
def billedTotal (table : List (GroupKey × DailySettlement)) : ℕ :=
  sumWhere (fun _ => true) DailySettlement.impressions table

/-- The impressions billed to a campaign over all days. -/
def campaignTotal (table : List (GroupKey × DailySettlement)) (campaignId : String) : ℕ :=
  sumWhere (fun k => k.2 = some campaignId) DailySettlement.impressions table

/-! ## Totals as numbers of kept impressions -/

variable {archive : List ArchiveRow}

theorem billedTotal_eq (hw : Writable ssaiPriority rates archive) :
    billedTotal (dailySettlement ssaiPriority rates archive) =
      (imp ssaiPriority archive).countP fun _ => true := by
  rw [billedTotal, sumWhere_day_impressions]
  apply List.countP_congr
  intro r hr
  simp [writable_iff.1 hw r (mem_of_mem_imp hr)]

theorem campaignTotal_eq (hw : Writable ssaiPriority rates archive) (c : String) :
    campaignTotal (dailySettlement ssaiPriority rates archive) c =
      (imp ssaiPriority archive).countP fun r => r.campaignId = some c := by
  rw [campaignTotal, sumWhere_day_impressions]
  apply List.countP_congr
  intro r hr
  rw [writable_iff.1 hw r (mem_of_mem_imp hr), Bool.and_true]
  rfl

/-- The kept impressions with a property of their groups are as many as these groups. -/
theorem countP_imp {q : ArchiveRow → Bool}
    (hq : ∀ r ∈ impAll archive, ∀ r' ∈ impAll archive, grp r = grp r' → q r = q r') :
    (imp ssaiPriority archive).countP q =
      (((impAll archive).filter q).map grp).toFinset.card := by
  have hnodup : (((imp ssaiPriority archive).filter q).map grp).Nodup :=
    (nodup_key_rowNumberOne grp (ssaiOrder ssaiPriority) (impAll archive)).sublist
      (List.filter_sublist.map grp)
  have hsame : (((imp ssaiPriority archive).filter q).map grp).toFinset =
      (((impAll archive).filter q).map grp).toFinset := by
    ext g
    simp only [List.mem_toFinset, List.mem_map, List.mem_filter]
    constructor
    · rintro ⟨r, ⟨hr, hqr⟩, rfl⟩
      exact ⟨r, ⟨mem_of_mem_imp hr, hqr⟩, rfl⟩
    · rintro ⟨r, ⟨hr, hqr⟩, rfl⟩
      obtain ⟨m, hm, hmr⟩ := exists_mem_rowNumberOne grp (ssaiOrder ssaiPriority) hr
      exact ⟨m, ⟨hm, (hq m (mem_of_mem_imp hm) r hr hmr).trans hqr⟩, hmr⟩
  rw [List.countP_eq_length_filter, ← List.length_map (f := grp),
    ← List.toFinset_card_of_nodup hnodup, hsame]

/-! ## The groups of an extended dataset -/

theorem isImpression_eq {r r' : ArchiveRow} (h : business r = business r') :
    isImpression r = isImpression r' := by
  simp only [business, Business.mk.injEq] at h
  unfold isImpression inCampaign
  rw [h.1, h.2.1]

theorem grp_eq {r r' : ArchiveRow} (h : business r = business r') (hid : r.eventId = r'.eventId) :
    grp r = grp r' := by
  simp only [business, Business.mk.injEq] at h
  unfold grp
  rw [h.2.2.1, hid]

/-- The row kept of an event of the dataset is, after additions, still a row of the dataset. -/
theorem mem_raw_of_addition {added extended : List ArchiveRow}
    (hperm : extended.Perm (archive ++ added)) (hadd : ∀ a ∈ added, Addition archive a)
    {m r : ArchiveRow} (hm : m ∈ raw extended) (hr : r ∈ raw archive)
    (hid : m.eventId = r.eventId) : m ∈ raw archive := by
  obtain ⟨hm, hsome⟩ := mem_raw.1 hm
  rcases List.mem_append.1 (hperm.mem_iff.1 hm) with hm | hm
  · exact mem_raw.2 ⟨hm, hsome⟩
  · cases hadd m hm with
    | retransmission hmem => exact mem_raw.2 ⟨hmem, hsome⟩
    | twin b v hb himp hbv hmv htype hfresh => exact absurd hid.symm (hfresh r (mem_raw.1 hr).1)

/-- Additions neither take a group away nor bring one in, among the groups with a property that the
business columns determine and that twins of one ad share. -/
theorem groups_impAll {added extended : List ArchiveRow} (hcons : Consistent archive)
    (hperm : extended.Perm (archive ++ added)) (hadd : ∀ a ∈ added, Addition archive a)
    {q : ArchiveRow → Bool} (hbusiness : ∀ r r', business r = business r' → q r = q r')
    (htwin : ∀ a ∈ raw extended, ∀ b ∈ raw archive, isImpression a = true →
      isImpression b = true → grp a = grp b → q a = q b) :
    (((impAll extended).filter q).map grp).toFinset =
      ((((raw archive).filter isImpression).filter q).map grp).toFinset := by
  ext g
  simp only [List.mem_toFinset, List.mem_map, List.mem_filter, mem_impAll]
  constructor
  · rintro ⟨m, ⟨⟨hm, himp⟩, hqm⟩, rfl⟩
    have hraw := mem_of_mem_dedup hm
    obtain ⟨hmem, hsome⟩ := mem_raw.1 hraw
    rcases List.mem_append.1 (hperm.mem_iff.1 hmem) with hmem | hmem
    · exact ⟨m, ⟨⟨mem_raw.2 ⟨hmem, hsome⟩, himp⟩, hqm⟩, rfl⟩
    · cases hadd m hmem with
      | retransmission hmem => exact ⟨m, ⟨⟨mem_raw.2 ⟨hmem, hsome⟩, himp⟩, hqm⟩, rfl⟩
      | twin b v hb hbimp hbv hmv htype hfresh =>
          -- the twin's group is that of the impression it repeats
          have hgrp : grp m = grp b := by
            unfold grp
            rw [hmv, hbv]
            rfl
          exact ⟨b, ⟨⟨hb, hbimp⟩, (htwin m hraw b hb himp hbimp hgrp).symm.trans hqm⟩, hgrp.symm⟩
  · rintro ⟨r, ⟨⟨hr, himp⟩, hqr⟩, rfl⟩
    obtain ⟨hmem, hsome⟩ := mem_raw.1 hr
    have hext : r ∈ raw extended :=
      mem_raw.2 ⟨hperm.mem_iff.2 (List.mem_append_left _ hmem), hsome⟩
    obtain ⟨m, hm, hid⟩ :=
      exists_mem_rowNumberOne (fun r : ArchiveRow => r.eventId) eventOrder hext
    -- the row kept for the event has the same business columns
    have hraw := mem_raw_of_addition hperm hadd (mem_of_mem_dedup hm) hr hid
    have hsame := hcons m hraw r hr hid
    exact ⟨m, ⟨⟨hm, (isImpression_eq hsame).trans himp⟩, (hbusiness m r hsame).trans hqr⟩,
      grp_eq hsame hid⟩

/-- Without additions: the groups of `imp_all` are those of the billable impressions. -/
theorem groups_impAll_self (hcons : Consistent archive) {q : ArchiveRow → Bool}
    (hbusiness : ∀ r r', business r = business r' → q r = q r')
    (hone : ∀ a ∈ raw archive, ∀ b ∈ raw archive, isImpression a = true →
      isImpression b = true → grp a = grp b → q a = q b) :
    (((impAll archive).filter q).map grp).toFinset =
      ((((raw archive).filter isImpression).filter q).map grp).toFinset :=
  have hperm : archive.Perm (archive ++ []) := by rw [List.append_nil]
  groups_impAll hcons hperm (fun _ ha => absurd ha List.not_mem_nil) hbusiness hone

/-! ## Billing -/

theorem OneCampaign.of_perm {added extended : List ArchiveRow} (h : OneCampaign extended)
    (hperm : extended.Perm (archive ++ added)) {a b : ArchiveRow} (ha : a ∈ raw extended)
    (hb : b ∈ raw archive) (haimp : isImpression a = true) (hbimp : isImpression b = true)
    (hgrp : grp a = grp b) : a.campaignId = b.campaignId := by
  obtain ⟨hmem, hsome⟩ := mem_raw.1 hb
  have hbext : b ∈ raw extended :=
    mem_raw.2 ⟨hperm.mem_iff.2 (List.mem_append_left _ hmem), hsome⟩
  exact h a ha b hbext haimp hbimp hgrp

/-- The total billed is the number of groups of billable impressions. -/
theorem billedTotal_eq_card (hcons : Consistent archive)
    (hw : Writable ssaiPriority rates archive) :
    billedTotal (dailySettlement ssaiPriority rates archive) = (billedGroups archive).card := by
  rw [billedTotal_eq hw, countP_imp fun _ _ _ _ _ => rfl,
    groups_impAll_self hcons (fun _ _ _ => rfl) fun _ _ _ _ _ _ _ => rfl, List.filter_true]
  rfl

/-- Additions keep the total. -/
theorem billedTotal_extended {added extended : List ArchiveRow} (hcons : Consistent archive)
    (hw : Writable ssaiPriority rates archive)
    (hperm : extended.Perm (archive ++ added)) (hadd : ∀ a ∈ added, Addition archive a)
    (hwext : Writable ssaiPriority rates extended) :
    billedTotal (dailySettlement ssaiPriority rates extended) =
      billedTotal (dailySettlement ssaiPriority rates archive) := by
  rw [billedTotal_eq_card hcons hw, billedTotal_eq hwext, countP_imp fun _ _ _ _ _ => rfl,
    groups_impAll hcons hperm hadd (fun _ _ _ => rfl) fun _ _ _ _ _ _ _ => rfl, List.filter_true]
  rfl

/-- Additions keep the total of each campaign when groups have one campaign each. -/
theorem campaignTotal_extended {added extended : List ArchiveRow} (hcons : Consistent archive)
    (hw : Writable ssaiPriority rates archive)
    (hperm : extended.Perm (archive ++ added)) (hadd : ∀ a ∈ added, Addition archive a)
    (hwext : Writable ssaiPriority rates extended) (hone : OneCampaign extended) (c : String) :
    campaignTotal (dailySettlement ssaiPriority rates extended) c =
      campaignTotal (dailySettlement ssaiPriority rates archive) c := by
  have hbusiness : ∀ r r', business r = business r' →
      decide (r.campaignId = some c) = decide (r'.campaignId = some c) := by
    intro r r' h
    simp only [business, Business.mk.injEq] at h
    rw [h.2.1]
  have hself : OneCampaign archive := by
    intro a ha b hb haimp hbimp hgrp
    obtain ⟨hmem, hsome⟩ := mem_raw.1 ha
    have haext : a ∈ raw extended :=
      mem_raw.2 ⟨hperm.mem_iff.2 (List.mem_append_left _ hmem), hsome⟩
    exact hone.of_perm hperm haext hb haimp hbimp hgrp
  rw [campaignTotal_eq hwext, campaignTotal_eq hw]
  rw [countP_imp, countP_imp, groups_impAll hcons hperm hadd hbusiness,
    groups_impAll_self hcons hbusiness]
  · intro a ha b hb haimp hbimp hgrp
    rw [hself a ha b hb haimp hbimp hgrp]
  · intro a ha b hb haimp hbimp hgrp
    rw [hone.of_perm hperm ha hb haimp hbimp hgrp]
  · intro a ha b hb hgrp
    rw [hself a (mem_of_mem_dedup (mem_impAll.1 ha).1) b (mem_of_mem_dedup (mem_impAll.1 hb).1)
      (mem_impAll.1 ha).2 (mem_impAll.1 hb).2 hgrp]
  · intro a ha b hb hgrp
    rw [hone a (mem_of_mem_dedup (mem_impAll.1 ha).1) b (mem_of_mem_dedup (mem_impAll.1 hb).1)
      (mem_impAll.1 ha).2 (mem_impAll.1 hb).2 hgrp]

/-- The total billed is the number of values of `coalesce(ad_request_id, event_id)` among the
billable impressions. Retransmissions and twins leave it unchanged, and leave the total of each
campaign unchanged when each such value carries one campaign. -/
theorem billing_insensitive (hcons : Consistent archive)
    (hw : Writable ssaiPriority rates archive) :
    billedTotal (dailySettlement ssaiPriority rates archive) = (billedGroups archive).card ∧
    ∀ added extended, extended.Perm (archive ++ added) → (∀ a ∈ added, Addition archive a) →
      Writable ssaiPriority rates extended →
      billedTotal (dailySettlement ssaiPriority rates extended) =
        billedTotal (dailySettlement ssaiPriority rates archive) ∧
      (OneCampaign extended → ∀ c,
        campaignTotal (dailySettlement ssaiPriority rates extended) c =
          campaignTotal (dailySettlement ssaiPriority rates archive) c) :=
  ⟨billedTotal_eq_card hcons hw, fun _ _ hperm hadd hwext =>
    ⟨billedTotal_extended hcons hw hperm hadd hwext,
      campaignTotal_extended hcons hw hperm hadd hwext⟩⟩

/-- An impression of the first millisecond of 1970. -/
def impressionRow (eventId : String) (adRequestId : Option String) (campaignId source : String) :
    ArchiveRow :=
  archiveRow .impression
    { eventId := some eventId, eventType := some "impression", campaignId := some campaignId,
      adRequestId := adRequestId, quartile := none, source := some source, ssaiTwinOf := none,
      fill := none, late := none, eventTime := some 0 }

/-- No prices. -/
def noRates : Rates := ⟨fun _ => none, fun _ _ => 0⟩

/-- One ad, seen by the client, with its retransmission and its twin from the server. -/
theorem billing_insensitive_twin :
    billedTotal (dailySettlement ["server", "client"] noRates
      [impressionRow "e1" (some "a1") "c1" "client"]) = 1 ∧
    campaignTotal (dailySettlement ["server", "client"] noRates
      [impressionRow "e1" (some "a1") "c1" "client", impressionRow "e1" (some "a1") "c1" "client",
        impressionRow "e2" (some "a1") "c1" "server"]) "c1" =
      campaignTotal (dailySettlement ["server", "client"] noRates
        [impressionRow "e1" (some "a1") "c1" "client"]) "c1" := by
  have hcons : Consistent [impressionRow "e1" (some "a1") "c1" "client"] := by
    unfold Consistent
    decide
  have hw : Writable ["server", "client"] noRates
      [impressionRow "e1" (some "a1") "c1" "client"] := by
    unfold Writable
    decide
  have hwext : Writable ["server", "client"] noRates
      [impressionRow "e1" (some "a1") "c1" "client", impressionRow "e1" (some "a1") "c1" "client",
        impressionRow "e2" (some "a1") "c1" "server"] := by
    unfold Writable
    decide
  have hone : OneCampaign
      [impressionRow "e1" (some "a1") "c1" "client", impressionRow "e1" (some "a1") "c1" "client",
        impressionRow "e2" (some "a1") "c1" "server"] := by
    unfold OneCampaign
    decide
  obtain ⟨htotal, hextended⟩ := billing_insensitive hcons hw
  refine ⟨htotal, (hextended [impressionRow "e1" (some "a1") "c1" "client",
    impressionRow "e2" (some "a1") "c1" "server"] _ (.refl _) ?_ hwext).2 hone "c1"⟩
  intro a ha
  simp only [List.mem_cons, List.not_mem_nil, or_false] at ha
  rcases ha with rfl | rfl
  · exact .retransmission (by simp)
  · exact .twin (impressionRow "e1" (some "a1") "c1" "client") "a1" (by decide) (by decide) rfl rfl
      rfl (by decide)

/-- An impression that the archive holds without a time. -/
def untimedRow : ArchiveRow :=
  { impressionRow "e1" (some "a1") "c1" "client" with eventTime := none }

/-- An `event_id` that is the `ad_request_id` of another ad: every `ad_request_id` carries one
campaign, and yet a twin of that ad takes the group from the campaign that was billed. And an
impression without a time is a group that is not billed. -/
theorem campaign_total_moved :
    (let archive :=
      [impressionRow "x" none "c1" "client", impressionRow "y" (some "x") "c2" "client"]
    let twin := impressionRow "z" (some "x") "c2" "server"
    Consistent (archive ++ [twin]) ∧ Addition archive twin ∧
    Writable ["server", "client"] noRates (archive ++ [twin]) ∧
    (∀ r ∈ archive ++ [twin], ∀ r' ∈ archive ++ [twin], r.adRequestId.isSome = true →
      r.adRequestId = r'.adRequestId → r.campaignId = r'.campaignId) ∧
    campaignTotal (dailySettlement ["server", "client"] noRates archive) "c1" = 1 ∧
    campaignTotal (dailySettlement ["server", "client"] noRates (archive ++ [twin])) "c1" = 0) ∧
    Consistent [untimedRow] ∧ (billedGroups [untimedRow]).card = 1 ∧
    billedTotal (dailySettlement ["server", "client"] noRates [untimedRow]) = 0 := by
  refine ⟨?_, ?_, by decide, by decide⟩
  · intro archive twin
    have hadd : Addition archive twin :=
      .twin (impressionRow "y" (some "x") "c2" "client") "x" (by decide) (by decide) rfl rfl rfl
        (by decide)
    refine ⟨?_, hadd, ?_, by decide, by decide, by decide⟩
    · unfold Consistent
      decide
    · unfold Writable
      decide
  · unfold Consistent
    decide

end AdPipeline.Settlement
