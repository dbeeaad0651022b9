import AdPipeline.Settlement.Retransmission

/-!
# The minute table is exact

`minute_settlement` chains full outer joins of five counts. A minute and campaign with any of the
counts has one row, with all of them, so that the columns add up to the events counted
(`minutesExact`).
-/

namespace AdPipeline.Settlement

open Lib

variable (ssaiPriority : List String) (archive : List ArchiveRow)

/-- Every archived event has a time. -/
def Timed : Prop := ∀ r ∈ archive, r.eventTime.isSome = true

instance : Decidable (Timed archive) := inferInstanceAs (Decidable (∀ r ∈ archive, _))

/-- The counts of a minute and campaign. -/
def minuteCounts (k : GroupKey) : MinuteSettlement where
  impressions := (imp ssaiPriority archive).countP fun r => minuteKey r = k
  rawImpressions := (impAll archive).countP fun r => minuteKey r = k
  clicks := ((dedup archive).filter isClick).countP fun r => minuteKey r = k
  completes := ((dedup archive).filter isComplete).countP fun r => minuteKey r = k
  requests := ((dedup archive).filter isRequest).countP fun r => minuteKey r = k

/-- The total of a column of `minute_settlement`. -/
def minuteTotal (f : MinuteSettlement → ℕ) : ℕ :=
  ((minuteSettlement ssaiPriority archive).map fun x => f x.2).sum

/-- `minute_settlement` has the minutes and campaigns of the five counts, each once, with its
counts, and its columns add up to the events counted. -/
structure MinutesExact : Prop where
  once : ((minuteSettlement ssaiPriority archive).map Prod.fst).Nodup
  keys : ∀ k, k ∈ (minuteSettlement ssaiPriority archive).map Prod.fst ↔
    k ∈ (imp ssaiPriority archive).map minuteKey ∨ k ∈ (impAll archive).map minuteKey ∨
      k ∈ ((dedup archive).filter isClick).map minuteKey ∨
      k ∈ ((dedup archive).filter isComplete).map minuteKey ∨
      k ∈ ((dedup archive).filter isRequest).map minuteKey
  columns : ∀ x ∈ minuteSettlement ssaiPriority archive,
    x.2 = minuteCounts ssaiPriority archive x.1
  impressions : minuteTotal ssaiPriority archive MinuteSettlement.impressions =
    (imp ssaiPriority archive).length
  rawImpressions : minuteTotal ssaiPriority archive MinuteSettlement.rawImpressions =
    (impAll archive).length
  clicks : minuteTotal ssaiPriority archive MinuteSettlement.clicks =
    ((dedup archive).filter isClick).length
  completes : minuteTotal ssaiPriority archive MinuteSettlement.completes =
    ((dedup archive).filter isComplete).length
  requests : minuteTotal ssaiPriority archive MinuteSettlement.requests =
    ((dedup archive).filter isRequest).length

variable {ssaiPriority archive}

/-! ## Keys -/

/-- Each full outer join adds the keys of its right side. -/
theorem mem_keys_minuteSettlement {k : GroupKey} :
    k ∈ (minuteSettlement ssaiPriority archive).map Prod.fst ↔
      k ∈ (imp ssaiPriority archive).map minuteKey ∨ k ∈ (impAll archive).map minuteKey ∨
        k ∈ ((dedup archive).filter isClick).map minuteKey ∨
        k ∈ ((dedup archive).filter isComplete).map minuteKey ∨
        k ∈ ((dedup archive).filter isRequest).map minuteKey := by
  have hfillna : (minuteSettlement ssaiPriority archive).map Prod.fst =
      (minuteDf ssaiPriority archive).map Prod.fst := by
    rw [minuteSettlement, List.map_map]
    rfl
  rw [hfillna, minuteDf, mem_keys_fullOuter, mem_keys_fullOuter, mem_keys_fullOuter,
    minuteImpressions, mem_keys_fullOuter]
  simp only [keys_countBy, List.mem_dedup, or_assoc]

theorem keyUnique_minuteSettlement : KeyUnique keyed (minuteSettlement ssaiPriority archive) := by
  have hdf : KeyUnique keyed (minuteDf ssaiPriority archive) := by
    rw [minuteDf]
    exact ((keyUnique_minuteImpressions.fullOuter (KeyUnique.countBy _ _)).fullOuter
      (KeyUnique.countBy _ _)).fullOuter (KeyUnique.countBy _ _)
  rw [minuteSettlement]
  exact hdf.map MinuteColumns.fillna

theorem campaign_isSome {r : ArchiveRow} (h : inCampaign r = true) :
    r.campaignId.isSome = true := by
  rw [inCampaign, Option.any_eq_true] at h
  obtain ⟨c, hc, -⟩ := h
  rw [hc]
  rfl

/-- The campaign of an impression is not null. -/
theorem filter_campaign_isSome (rows : List ArchiveRow) :
    ((rows.filter isImpression).filter fun r => r.campaignId.isSome) =
      rows.filter isImpression := by
  rw [List.filter_eq_self]
  intro r hr
  exact campaign_isSome (Bool.and_eq_true_iff.1 (List.mem_filter.1 hr).2).2

/-- A deduplicated event of a campaign has a minute and a campaign. -/
theorem keyed_minuteKey (h : Timed archive) {r : ArchiveRow} (hr : r ∈ dedup archive)
    (hcampaign : inCampaign r = true) : keyed (minuteKey r) = true := by
  rw [keyed, minuteKey, Option.isSome_map, h r (mem_raw.1 (mem_of_mem_dedup hr)).1,
    campaign_isSome hcampaign]
  rfl

/-- Every row of the table has a minute and a campaign. -/
theorem keyed_minuteSettlement (h : Timed archive) {x : GroupKey × MinuteSettlement}
    (hx : x ∈ minuteSettlement ssaiPriority archive) : keyed x.1 = true := by
  have hevent : ∀ {rows : List ArchiveRow},
      (∀ r ∈ rows, r ∈ dedup archive ∧ inCampaign r = true) → x.1 ∈ rows.map minuteKey →
        keyed x.1 = true := by
    intro rows hrows hmem
    obtain ⟨r, hr, hrx⟩ := List.mem_map.1 hmem
    rw [← hrx]
    exact keyed_minuteKey h (hrows r hr).1 (hrows r hr).2
  have himpAll : ∀ r ∈ impAll archive, r ∈ dedup archive ∧ inCampaign r = true := by
    intro r hr
    obtain ⟨hdedup, himp⟩ := mem_impAll.1 hr
    exact ⟨hdedup, (Bool.and_eq_true_iff.1 himp).2⟩
  have hbase : ∀ q : ArchiveRow → Bool, (∀ r, q r = true → inBase r = true) →
      ∀ r ∈ (dedup archive).filter q, r ∈ dedup archive ∧ inCampaign r = true := by
    intro q hq r hr
    obtain ⟨hdedup, hqr⟩ := List.mem_filter.1 hr
    exact ⟨hdedup, (Bool.and_eq_true_iff.1 (hq r hqr)).1⟩
  rcases mem_keys_minuteSettlement.1 (List.mem_map_of_mem hx) with
    himp | himp | hclick | hcomplete | hrequest
  · exact hevent (fun r hr => himpAll r (mem_of_mem_imp hr)) himp
  · exact hevent himpAll himp
  · exact hevent (hbase isClick fun r hr => (Bool.and_eq_true_iff.1 hr).1) hclick
  · exact hevent (hbase isComplete fun r hr => (Bool.and_eq_true_iff.1 hr).1) hcomplete
  · exact hevent (hbase isRequest fun r hr => (Bool.and_eq_true_iff.1 hr).1) hrequest

theorem nodup_minuteSettlement (h : Timed archive) :
    ((minuteSettlement ssaiPriority archive).map Prod.fst).Nodup :=
  keyUnique_minuteSettlement.nodup fun _ hx => keyed_minuteSettlement h hx

/-! ## Columns -/

/-- A row has the counts of its minute and campaign. -/
theorem minuteCounts_of_mem (h : Timed archive) {x : GroupKey × MinuteSettlement}
    (hx : x ∈ minuteSettlement ssaiPriority archive) :
    x.2 = minuteCounts ssaiPriority archive x.1 := by
  have hcolumn := fun f : MinuteSettlement → ℕ => eq_sumWhere_of_mem f (nodup_minuteSettlement h) hx
  cases x with
  | mk k row =>
      have himpressions := hcolumn MinuteSettlement.impressions
      have hraw := hcolumn MinuteSettlement.rawImpressions
      have hclicks := hcolumn MinuteSettlement.clicks
      have hcompletes := hcolumn MinuteSettlement.completes
      have hrequests := hcolumn MinuteSettlement.requests
      rw [sumWhere_minute_impressions] at himpressions
      rw [sumWhere_minute_rawImpressions] at hraw
      rw [sumWhere_minute_clicks] at hclicks
      rw [sumWhere_minute_completes] at hcompletes
      rw [sumWhere_minute_requests] at hrequests
      cases row with
      | mk impressions rawImpressions clicks completes requests =>
          simp only at himpressions hraw hclicks hcompletes hrequests
          simp only [minuteCounts, MinuteSettlement.mk.injEq]
          exact ⟨himpressions, hraw, hclicks, hcompletes, hrequests⟩

theorem minuteTotal_eq_sumWhere (f : MinuteSettlement → ℕ) :
    minuteTotal ssaiPriority archive f =
      sumWhere (fun _ => true) f (minuteSettlement ssaiPriority archive) := by
  rw [minuteTotal, sumWhere, List.filter_true]

/-- `minute_settlement` counts every event once, in the row of its minute and campaign. -/
theorem minutesExact (ssaiPriority : List String) {archive : List ArchiveRow}
    (h : Timed archive) : MinutesExact ssaiPriority archive where
  once := nodup_minuteSettlement h
  keys _ := mem_keys_minuteSettlement
  columns _ hx := minuteCounts_of_mem h hx
  impressions := by
    rw [minuteTotal_eq_sumWhere, sumWhere_minute_impressions, List.countP_true]
  rawImpressions := by
    rw [minuteTotal_eq_sumWhere, sumWhere_minute_rawImpressions, List.countP_true]
  clicks := by rw [minuteTotal_eq_sumWhere, sumWhere_minute_clicks, List.countP_true]
  completes := by rw [minuteTotal_eq_sumWhere, sumWhere_minute_completes, List.countP_true]
  requests := by rw [minuteTotal_eq_sumWhere, sumWhere_minute_requests, List.countP_true]

/-- An impression and its twin. -/
theorem minutesExact_twin :
    minuteSettlement ["server", "client"] [impressionRow "e1" (some "a1") "cmp-1" "client",
        impressionRow "e2" (some "a1") "cmp-1" "server"] =
      [((some 0, some "cmp-1"), ⟨1, 2, 0, 0, 0⟩)] ∧
    MinutesExact ["server", "client"] [impressionRow "e1" (some "a1") "cmp-1" "client",
      impressionRow "e2" (some "a1") "cmp-1" "server"] :=
  ⟨by decide, minutesExact ["server", "client"] (by decide)⟩

end AdPipeline.Settlement
