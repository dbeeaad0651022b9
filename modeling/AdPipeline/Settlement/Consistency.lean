import AdPipeline.Lib.Window
import AdPipeline.Settlement.Daily
import AdPipeline.Settlement.Minutes

/-!
# The daily rows are consistent

The columns of a day and campaign count the rows of seven relations. What a window keeps is part of
what it sees, so that the relations are nested day by day, whatever the archive holds
(`dailyConsistent`).
-/

namespace AdPipeline.Settlement

open Lib

/-- The counts of a row are ordered as the steps of the settlement are, and the rows of the archive
cover its raw impressions. -/
structure ConsistentRow (archive : List ArchiveRow) (k : GroupKey) (row : DailySettlement) :
    Prop where
  late : row.lateImpressions ≤ row.impressions
  impressions : row.impressions ≤ row.rawImpressions
  rawImpressions : row.rawImpressions ≤
    (raw archive).countP fun r => isImpression r && dayKey r = k
  dupesRemoved : 0 ≤ row.dupesRemoved

/-- The rows of `daily_settlement` are consistent, and there is one of each day and campaign. -/
structure DailyConsistent (ssaiPriority : List String) (rates : Rates)
    (archive : List ArchiveRow) : Prop where
  once : ((dailySettlement ssaiPriority rates archive).map Prod.fst).Nodup
  rows : ∀ x ∈ dailySettlement ssaiPriority rates archive, ConsistentRow archive x.1 x.2

variable {ssaiPriority : List String} {rates : Rates} {archive : List ArchiveRow}

theorem nodup_dailySettlement :
    ((dailySettlement ssaiPriority rates archive).map Prod.fst).Nodup := by
  rw [dailySettlement_eq, List.map_map]
  exact (List.map_id _).symm ▸ List.nodup_dedup _

/-! ## The relations are nested -/

/-- The impressions that the SSAI merge keeps are among those it sees. -/
theorem imp_le_impAll (p : ArchiveRow → Bool) :
    (imp ssaiPriority archive).countP p ≤ (impAll archive).countP p :=
  (rowNumberOne_subperm grp (ssaiOrder ssaiPriority) (impAll archive)).countP_le p

/-- The deduplicated impressions are among the archived ones. -/
theorem impAll_le_raw (p : ArchiveRow → Bool) :
    (impAll archive).countP p ≤ ((raw archive).filter isImpression).countP p :=
  ((rowNumberOne_subperm (fun r : ArchiveRow => r.eventId) eventOrder (raw archive)).filter
    isImpression).countP_le p

/-- The row of a day and campaign without nulls is consistent. -/
theorem consistentRow_dayRow {k : GroupKey} (hk : keyed k = true) :
    ConsistentRow archive k (dayRow ssaiPriority rates archive k) := by
  have hraw : (impAll archive).countP (fun r => dayKey r = k) ≤
      ((raw archive).filter isImpression).countP fun r => dayKey r = k := impAll_le_raw _
  constructor
  · simp only [dayRow, joinedCount, if_pos hk]
    exact List.filter_sublist.countP_le
  · simp only [dayRow, joinedCount, if_pos hk]
    exact imp_le_impAll _
  · simp only [dayRow]
    rw [← countP_filter_dayKey]
    exact hraw
  · simp only [dayRow, joinedCount, if_pos hk, filter_campaign_isSome]
    omega

/-- An impression with a time has a day and a campaign. -/
theorem keyed_dayKey (h : Timed archive) {r : ArchiveRow} (hr : r ∈ impAll archive) :
    keyed (dayKey r) = true := by
  obtain ⟨hdedup, himp⟩ := mem_impAll.1 hr
  rw [keyed, dayKey, Option.isSome_map, h r (mem_raw.1 (mem_of_mem_dedup hdedup)).1,
    campaign_isSome (Bool.and_eq_true_iff.1 himp).2]
  rfl

/-- The settlement of an archive whose events all have a time is consistent. -/
theorem dailyConsistent (ssaiPriority : List String) (rates : Rates) {archive : List ArchiveRow}
    (h : Timed archive) : DailyConsistent ssaiPriority rates archive where
  once := nodup_dailySettlement
  rows x hx := by
    rw [dailySettlement_eq] at hx
    obtain ⟨k, hk, rfl⟩ := List.mem_map.1 hx
    obtain ⟨r, hr, rfl⟩ := List.mem_map.1 (List.mem_dedup.1 hk)
    exact consistentRow_dayRow (keyed_dayKey h hr)

/-- An event and its copy in another campaign, on another day. -/
theorem dailyConsistent_reused :
    (dailySettlement ["server", "client"] noRates [impressionRow "e1" (some "a1") "cmp-1" "client",
      { impressionRow "e1" (some "a2") "cmp-2" "server" with eventTime := some 86400000 },
      impressionRow "e2" (some "a1") "cmp-1" "server"]).map Prod.fst = [(some 0, some "cmp-1")] ∧
    DailyConsistent ["server", "client"] noRates [impressionRow "e1" (some "a1") "cmp-1" "client",
      { impressionRow "e1" (some "a2") "cmp-2" "server" with eventTime := some 86400000 },
      impressionRow "e2" (some "a1") "cmp-1" "server"] :=
  ⟨by decide, dailyConsistent ["server", "client"] noRates (by decide)⟩

end AdPipeline.Settlement
