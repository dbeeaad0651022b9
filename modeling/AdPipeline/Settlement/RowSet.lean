import AdPipeline.Settlement.Minutes
import AdPipeline.Settlement.RowOrder

/-!
# The settlement and the number of copies

Every link of the pipeline delivers at least once: the replay of the fallback files, the outbox
worker and the archive job may all write a record again. Where tied copies of an event are read
alike, the settlement depends only on which rows are archived, not on their number or order
(`settledAlike`). What the copies change is the count of copies removed.
-/

namespace AdPipeline.Settlement

open Lib AdPipeline.Stream

/-- The archives have the same rows. -/
def SameRows (archive archive' : List ArchiveRow) : Prop := ∀ r, r ∈ archive ↔ r ∈ archive'

/-- The impressions of a day and campaign, every copy counted. -/
def copies (archive : List ArchiveRow) (k : GroupKey) : ℕ :=
  ((raw archive).filter isImpression).countP fun r => dayKey r = k

variable {ssaiPriority : List String} {rates : Rates} {archive archive' : List ArchiveRow}

/-! ## The daily table -/

theorem dupesRemoved_dayRow {k : GroupKey} (hk : keyed k = true) :
    (dayRow ssaiPriority rates archive k).dupesRemoved =
      copies archive k - (dayRow ssaiPriority rates archive k).rawImpressions := by
  simp only [dayRow, joinedCount, hk, if_true, filter_campaign_isSome, copies]

/-- The days and campaigns are the same. -/
theorem dayKeys_perm (h : TiesAlike ssaiPriority archive) (hsame : SameRows archive archive') :
    ((impAll archive).map dayKey).dedup.Perm ((impAll archive').map dayKey).dedup :=
  ((reordered_impAll h hsame).map_perm fun _ _ hrr => hrr.1.day hrr.2).dedup

/-! ## The minute table -/

/-- A row with a property in a minute corresponds to one. -/
theorem metric_of_joinedKey {q : ArchiveRow → Bool} {r r' : ArchiveRow} {k : GroupKey}
    (hjoined : joinedKey q r = joinedKey q r') (htime : r.eventTime = r'.eventTime)
    (hk : keyed k = true) (hq : q r = true) (hminute : minuteKey r = k) :
    q r' = true ∧ minuteKey r' = k := by
  subst hminute
  have hkeyed : keyed (dayKey r) = true := by
    simp only [keyed, minuteKey, dayKey, Option.isSome_map] at hk ⊢
    exact hk
  have hsome : joinedKey q r = some (dayKey r) := by
    rw [joinedKey, hq, hkeyed, Bool.and_true, if_pos rfl]
  rw [hjoined, joinedKey, Option.ite_none_right_eq_some, Bool.and_eq_true] at hsome
  obtain ⟨⟨hq', -⟩, hday⟩ := hsome
  have hcampaign := congrArg Prod.snd (Option.some.inj hday)
  refine ⟨hq', ?_⟩
  simp only [dayKey] at hcampaign
  simp only [minuteKey, htime, hcampaign]

/-- A metric on which tied copies agree has the same count in a minute. -/
theorem countP_minute_eq (h : TiesAlike ssaiPriority archive) (hsame : SameRows archive archive')
    {q : ArchiveRow → Bool}
    (hq : ∀ r r', SameCopy ssaiPriority r r' → joinedKey q r = joinedKey q r') {k : GroupKey}
    (hk : keyed k = true) :
    ((dedup archive).filter q).countP (fun r => minuteKey r = k) =
      ((dedup archive').filter q).countP fun r => minuteKey r = k := by
  rw [List.countP_filter, List.countP_filter]
  refine (reordered_dedup h hsame).countP_eq fun r r' hrr => ?_
  rw [Bool.eq_iff_iff]
  simp only [Bool.and_eq_true, decide_eq_true_eq]
  constructor
  · rintro ⟨hminute, hqr⟩
    exact (metric_of_joinedKey (hq r r' hrr) hrr.eventTime hk hqr hminute).symm
  · rintro ⟨hminute, hqr⟩
    exact (metric_of_joinedKey (hq r r' hrr).symm hrr.eventTime.symm hk hqr hminute).symm

/-- The counts of a minute are the same. -/
theorem minuteCounts_eq (h : TiesAlike ssaiPriority archive) (hsame : SameRows archive archive')
    {k : GroupKey} (hk : keyed k = true) :
    minuteCounts ssaiPriority archive k = minuteCounts ssaiPriority archive' k := by
  have hminute : ∀ r r', SameCopy ssaiPriority r r' ∧ isImpression r = true →
      decide (minuteKey r = k) = decide (minuteKey r' = k) := by
    rintro r r' ⟨hrr, himp⟩
    have hcampaign : r.campaignId = r'.campaignId := congrArg Prod.snd (hrr.day himp)
    rw [minuteKey, minuteKey, hrr.eventTime, hcampaign]
  have himp := (reordered_imp h hsame).countP_eq hminute
  have hraw := (reordered_impAll h hsame).countP_eq hminute
  have hclick := countP_minute_eq h hsame (fun r r' hrr => hrr.click) hk
  have hcomplete := countP_minute_eq h hsame (fun r r' hrr => hrr.complete) hk
  have hrequest := countP_minute_eq h hsame (fun r r' hrr => hrr.request) hk
  simp only [minuteCounts, himp, hraw, hclick, hcomplete, hrequest]

theorem SameRows.timed (hsame : SameRows archive archive') (h : Timed archive) : Timed archive' :=
  fun r hr => h r ((hsame r).2 hr)

/-- A minute and campaign is in the table when one of its counts is not zero. -/
theorem mem_keys_iff_minuteCounts {k : GroupKey} :
    k ∈ (minuteSettlement ssaiPriority archive).map Prod.fst ↔
      0 < (minuteCounts ssaiPriority archive k).impressions ∨
        0 < (minuteCounts ssaiPriority archive k).rawImpressions ∨
          0 < (minuteCounts ssaiPriority archive k).clicks ∨
            0 < (minuteCounts ssaiPriority archive k).completes ∨
              0 < (minuteCounts ssaiPriority archive k).requests := by
  have hcount : ∀ rows : List ArchiveRow,
      k ∈ rows.map minuteKey ↔ 0 < rows.countP fun r => minuteKey r = k := by
    intro rows
    simp only [List.countP_pos_iff, List.mem_map, decide_eq_true_eq]
  rw [mem_keys_minuteSettlement, hcount, hcount, hcount, hcount, hcount]
  rfl

/-- The rows of the minute table are its keys with their counts. -/
theorem mem_minuteSettlement_iff (h : Timed archive) {x : GroupKey × MinuteSettlement} :
    x ∈ minuteSettlement ssaiPriority archive ↔
      x.1 ∈ (minuteSettlement ssaiPriority archive).map Prod.fst ∧
        x.2 = minuteCounts ssaiPriority archive x.1 := by
  constructor
  · intro hx
    exact ⟨List.mem_map_of_mem hx, minuteCounts_of_mem h hx⟩
  · rintro ⟨hkey, hcounts⟩
    obtain ⟨y, hy, hyx⟩ := List.mem_map.1 hkey
    have hrow := minuteCounts_of_mem h hy
    rw [hyx, ← hcounts] at hrow
    rwa [← Prod.ext hyx hrow]

theorem minuteSettlement_perm (h : TiesAlike ssaiPriority archive)
    (hsame : SameRows archive archive') (htimed : Timed archive) :
    (minuteSettlement ssaiPriority archive).Perm (minuteSettlement ssaiPriority archive') := by
  have htimed' := hsame.timed htimed
  refine (List.perm_ext_iff_of_nodup ((nodup_minuteSettlement htimed).of_map _)
    ((nodup_minuteSettlement htimed').of_map _)).2 fun x => ?_
  rw [mem_minuteSettlement_iff htimed, mem_minuteSettlement_iff htimed']
  by_cases hk : keyed x.1 = true
  · rw [mem_keys_iff_minuteCounts, mem_keys_iff_minuteCounts, minuteCounts_eq h hsame hk]
  · -- no key of either table has a null
    constructor
    · rintro ⟨hkey, -⟩
      obtain ⟨y, hy, hyx⟩ := List.mem_map.1 hkey
      exact absurd (hyx ▸ keyed_minuteSettlement htimed hy) hk
    · rintro ⟨hkey, -⟩
      obtain ⟨y, hy, hyx⟩ := List.mem_map.1 hkey
      exact absurd (hyx ▸ keyed_minuteSettlement htimed' hy) hk

/-! ## The settlement -/

/-- Copies of an event that are the same row are read alike. -/
theorem tiesAlike_of_eq
    (h : ∀ r ∈ archive, ∀ r' ∈ archive, r.eventId = r'.eventId → r = r') :
    TiesAlike ssaiPriority archive := by
  intro r hr r' hr' hid _ _
  obtain rfl := h r (mem_raw.1 hr).1 r' (mem_raw.1 hr').1 hid
  exact .refl _

/-- The tables of two archives differ in the copies removed only, by the copies there are. -/
structure SettledAlike (ssaiPriority : List String) (rates : Rates)
    (archive archive' : List ArchiveRow) : Prop where
  daily : ((dailySettlement ssaiPriority rates archive).map fun x => (x.1, x.2.withoutCopies)).Perm
    ((dailySettlement ssaiPriority rates archive').map fun x => (x.1, x.2.withoutCopies))
  copies : ∀ k row row', keyed k = true → (k, row) ∈ dailySettlement ssaiPriority rates archive →
    (k, row') ∈ dailySettlement ssaiPriority rates archive' →
      row'.dupesRemoved - row.dupesRemoved = (copies archive' k : ℤ) - copies archive k
  minutes : Timed archive →
    (minuteSettlement ssaiPriority archive).Perm (minuteSettlement ssaiPriority archive')

/-- The settlement depends on which rows are archived, not on how often or in which order. -/
theorem settledAlike (h : TiesAlike ssaiPriority archive) (hsame : SameRows archive archive') :
    SettledAlike ssaiPriority rates archive archive' where
  daily := by
    rw [dailySettlement_eq, dailySettlement_eq, List.map_map, List.map_map]
    refine ((dayKeys_perm h hsame).map _).trans (List.Perm.of_eq ?_)
    apply List.map_congr_left
    intro k _
    exact Prod.ext rfl (withoutCopies_dayRow_eq h hsame k)
  copies := by
    intro k row row' hk hrow hrow'
    rw [dailySettlement_eq, List.mem_map] at hrow hrow'
    obtain ⟨k₁, -, hrow⟩ := hrow
    obtain ⟨k₂, -, hrow'⟩ := hrow'
    obtain ⟨rfl, rfl⟩ := Prod.mk.inj hrow
    obtain ⟨rfl, rfl⟩ := Prod.mk.inj hrow'
    have hcolumns : (dayRow ssaiPriority rates archive k₂).withoutCopies = _ :=
      withoutCopies_dayRow_eq h hsame k₂
    have hraw := congrArg DailySettlement.rawImpressions hcolumns
    change (dayRow ssaiPriority rates archive k₂).rawImpressions =
      (dayRow ssaiPriority rates archive' k₂).rawImpressions at hraw
    rw [dupesRemoved_dayRow hk, dupesRemoved_dayRow hk, hraw]
    omega
  minutes := minuteSettlement_perm h hsame

/-- An event archived three times between two copies of another. -/
example : dailySettlement ["server", "client"] noRates
    [impressionRow "e2" (some "a2") "cmp-1" "client",
      impressionRow "e1" (some "a1") "cmp-1" "client",
      impressionRow "e1" (some "a1") "cmp-1" "client",
      impressionRow "e1" (some "a1") "cmp-1" "client",
      impressionRow "e2" (some "a2") "cmp-1" "client"] =
    [((some 0, some "cmp-1"), ⟨0, 2, 0, 0, 2, 3, 0, 0, 0⟩)] := by decide

end AdPipeline.Settlement
