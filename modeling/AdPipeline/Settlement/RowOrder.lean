import AdPipeline.Lib.Window
import AdPipeline.Settlement.Daily
import Mathlib.Data.Int.ConditionallyCompleteOrder
import Mathlib.Data.Prod.Lex
import Mathlib.Data.String.Basic
import Mathlib.Order.WithBot

/-!
# The settlement and the order of rows

The window over `event_id` orders rows by `event_time` and `source_topic`, which leaves copies of an
event tied, and then the row seen first is kept. The daily table is the same in every order when
tied copies agree on everything that is read of a kept row, and for copies that do not agree there
is an archive where the order shows (`rowOrder_irrelevant`).
-/

namespace AdPipeline.Settlement

open Collector Lib AdPipeline.Stream

variable (ssaiPriority : List String) (rates : Rates) (archive : List ArchiveRow)

/-- Every order of the rows gives the same daily table. -/
def RowOrderIrrelevant : Prop :=
  ∀ archive', archive.Perm archive' →
    (dailySettlement ssaiPriority rates archive).Perm (dailySettlement ssaiPriority rates archive')

/-! ## Window orders as ranks -/

/-- A nullable column whose nulls come last. -/
def nullsLast {α : Type*} : Option α → WithTop α
  | some a => (a : WithTop α)
  | none => ⊤

/-- A nullable column whose nulls come first. -/
def nullsFirst {α : Type*} : Option α → WithBot α
  | some a => (a : WithBot α)
  | none => ⊥

/-- The rank of a row in `w_evt`. -/
def eventRank (r : ArchiveRow) : WithTop ℤ ×ₗ String := toLex (nullsLast r.eventTime, r.sourceTopic)

/-- The rank of an impression in `w_ssai`. -/
def ssaiRank (r : ArchiveRow) : ℕ ×ₗ (WithTop ℤ ×ₗ WithBot String) :=
  toLex (prio ssaiPriority r.source, toLex (nullsLast r.eventTime, nullsFirst r.eventId))

theorem nullsLast_injective {α : Type*} : Function.Injective (nullsLast (α := α)) := by
  intro a b h
  cases a <;> cases b <;> simp_all [nullsLast]

theorem nullsFirst_injective {α : Type*} : Function.Injective (nullsFirst (α := α)) := by
  intro a b h
  cases a <;> cases b <;> simp_all [nullsFirst]

theorem ltNullsLast_iff {α : Type*} [LinearOrder α] (a b : Option α) :
    ltNullsLast a b = true ↔ nullsLast a < nullsLast b := by
  cases a <;> cases b <;> simp [ltNullsLast, nullsLast]

theorem ltNullsFirst_iff {α : Type*} [LinearOrder α] (a b : Option α) :
    ltNullsFirst a b = true ↔ nullsFirst a < nullsFirst b := by
  cases a <;> cases b <;> simp [ltNullsFirst, nullsFirst]

theorem eventOrder_iff (r s : ArchiveRow) : eventOrder r s = true ↔ eventRank r < eventRank s := by
  rw [eventRank, eventRank, Prod.Lex.toLex_lt_toLex, eventOrder, Bool.or_eq_true,
    Bool.and_eq_true, ltNullsLast_iff, decide_eq_true_eq, decide_eq_true_eq,
    nullsLast_injective.eq_iff]

theorem ssaiOrder_iff (r s : ArchiveRow) :
    ssaiOrder ssaiPriority r s = true ↔ ssaiRank ssaiPriority r < ssaiRank ssaiPriority s := by
  rw [ssaiRank, ssaiRank, Prod.Lex.toLex_lt_toLex, Prod.Lex.toLex_lt_toLex, ssaiOrder,
    Bool.or_eq_true, Bool.and_eq_true, Bool.or_eq_true, Bool.and_eq_true, ltNullsLast_iff,
    ltNullsFirst_iff, decide_eq_true_eq, decide_eq_true_eq, decide_eq_true_eq,
    nullsLast_injective.eq_iff]

/-! ## Tied copies -/

/-- No copy of the event comes before the row in `w_evt`. -/
def FirstCopy (r : ArchiveRow) : Prop :=
  ∀ s ∈ raw archive, s.eventId = r.eventId → eventOrder s r = false

/-- The day and campaign of a row with a property, null keys left out as in a join. -/
def joinedKey (q : ArchiveRow → Bool) (r : ArchiveRow) : Option GroupKey :=
  if q r && keyed (dayKey r) then some (dayKey r) else none

/-- The settlement reads the same of both rows. -/
structure ReadAlike (r r' : ArchiveRow) : Prop where
  impression : isImpression r = isImpression r'
  day : isImpression r = true → dayKey r = dayKey r'
  click : joinedKey isClick r = joinedKey isClick r'
  complete : joinedKey isComplete r = joinedKey isComplete r'
  request : joinedKey isRequest r = joinedKey isRequest r'
  group : isImpression r = true → grp r = grp r'
  source : isImpression r = true → prio ssaiPriority r.source = prio ssaiPriority r'.source
  late : isImpression r = true → keyed (dayKey r) = true →
    (r.late = some true ↔ r'.late = some true)

/-- Copies of an event that tie for the first place are read alike. -/
def TiesAlike : Prop :=
  ∀ r ∈ raw archive, ∀ r' ∈ raw archive, r.eventId = r'.eventId → FirstCopy archive r →
    FirstCopy archive r' → ReadAlike ssaiPriority r r'

/-- What corresponding rows of two orders have in common. -/
structure SameCopy (r r' : ArchiveRow) : Prop extends ReadAlike ssaiPriority r r' where
  eventId : r.eventId = r'.eventId
  eventTime : r.eventTime = r'.eventTime

variable {ssaiPriority rates archive} {archive' : List ArchiveRow}

theorem firstCopy_of_rank {m : ArchiveRow}
    (h : ∀ r ∈ raw archive, r.eventId = m.eventId → eventRank m ≤ eventRank r) :
    FirstCopy archive m := by
  intro s hs hid
  by_contra hlt
  rw [Bool.not_eq_false, eventOrder_iff] at hlt
  exact absurd (h s hs hid) (not_le.2 hlt)

/-! ## The same rows twice -/

/-- The deduplicated rows of two archives with the same rows correspond. -/
theorem reordered_dedup (h : TiesAlike ssaiPriority archive)
    (hsame : ∀ r, r ∈ archive ↔ r ∈ archive') :
    Reordered (SameCopy ssaiPriority) (dedup archive) (dedup archive') := by
  have hraw : ∀ r, r ∈ raw archive ↔ r ∈ raw archive' := fun r => by rw [mem_raw, mem_raw, hsame]
  refine rowNumberOne_of_mem_iff eventOrder_iff hraw ?_
  intro m hm m' hm' hid hfirst hfirst'
  have hrank : eventRank m = eventRank m' :=
    le_antisymm (hfirst m' hm' hid.symm) (hfirst' m hm hid)
  have htime : nullsLast m.eventTime = nullsLast m'.eventTime :=
    congrArg (fun rank => (ofLex rank).1) hrank
  exact ⟨h m hm m' hm' hid (firstCopy_of_rank hfirst) (firstCopy_of_rank hfirst'), hid,
    nullsLast_injective htime⟩

/-- So do their impressions. -/
theorem reordered_impAll (h : TiesAlike ssaiPriority archive)
    (hsame : ∀ r, r ∈ archive ↔ r ∈ archive') :
    Reordered (fun r r' => SameCopy ssaiPriority r r' ∧ isImpression r = true) (impAll archive)
      (impAll archive') :=
  (reordered_dedup h hsame).filter fun _ _ hrr => hrr.impression

/-- So do the impressions that the SSAI merge keeps. -/
theorem reordered_imp (h : TiesAlike ssaiPriority archive)
    (hsame : ∀ r, r ∈ archive ↔ r ∈ archive') :
    Reordered (fun r r' => SameCopy ssaiPriority r r' ∧ isImpression r = true)
      (imp ssaiPriority archive) (imp ssaiPriority archive') := by
  refine (reordered_impAll h hsame).rowNumberOne (ssaiOrder_iff ssaiPriority) ?_ ?_ ?_
  · intro r r' hrr
    exact hrr.1.group hrr.2
  · intro r r' s s' hrr hss
    rw [ssaiOrder, ssaiOrder, hrr.1.source hrr.2, hss.1.source hss.2, hrr.1.eventTime,
      hss.1.eventTime, hrr.1.eventId, hss.1.eventId]
  · intro r hr s hs _ hrank
    have hid : nullsFirst r.eventId = nullsFirst s.eventId :=
      congrArg (fun rank => (ofLex (ofLex rank).2).2) hrank
    exact List.inj_on_of_nodup_map
      (nodup_key_rowNumberOne (fun r : ArchiveRow => r.eventId) eventOrder (raw archive'))
      (mem_impAll.1 hr).1 (mem_impAll.1 hs).1 (nullsFirst_injective hid)

/-! ## The daily table of the same rows -/

/-- A joined count counts the rows whose joined key it is. -/
theorem joinedCount_filter (q : ArchiveRow → Bool) (k : GroupKey) (rows : List ArchiveRow) :
    joinedCount k (rows.filter q) =
      if keyed k then rows.countP fun r => joinedKey q r = some k else 0 := by
  rw [joinedCount]
  split_ifs with hk
  · rw [List.countP_filter]
    apply List.countP_congr
    intro r _
    simp only [Bool.and_eq_true, decide_eq_true_eq, joinedKey, Option.ite_none_right_eq_some,
      Option.some.injEq]
    constructor
    · rintro ⟨rfl, hq⟩
      exact ⟨⟨hq, hk⟩, rfl⟩
    · rintro ⟨⟨hq, -⟩, rfl⟩
      exact ⟨rfl, hq⟩
  · rfl

/-- A metric on which tied copies agree has the same count in both archives. -/
theorem joinedCount_eq (h : TiesAlike ssaiPriority archive)
    (hsame : ∀ r, r ∈ archive ↔ r ∈ archive')
    {q : ArchiveRow → Bool}
    (hq : ∀ r r', SameCopy ssaiPriority r r' → joinedKey q r = joinedKey q r') (k : GroupKey) :
    joinedCount k ((dedup archive).filter q) = joinedCount k ((dedup archive').filter q) := by
  rw [joinedCount_filter, joinedCount_filter,
    (reordered_dedup h hsame).countP_eq fun r r' hrr => by rw [hq r r' hrr]]

/-- The columns of a row but for the number of copies removed. -/
def DailySettlement.withoutCopies (row : DailySettlement) : DailySettlement :=
  { row with dupesRemoved := 0 }

/-- But for the copies removed, the row of a day and campaign depends on which rows there are. -/
theorem withoutCopies_dayRow_eq (h : TiesAlike ssaiPriority archive)
    (hsame : ∀ r, r ∈ archive ↔ r ∈ archive') (k : GroupKey) :
    (dayRow ssaiPriority rates archive k).withoutCopies =
      (dayRow ssaiPriority rates archive' k).withoutCopies := by
  have hday : ∀ r r', SameCopy ssaiPriority r r' ∧ isImpression r = true →
      decide (dayKey r = k) = decide (dayKey r' = k) := by
    intro r r' hrr
    rw [hrr.1.day hrr.2]
  have hraw : (impAll archive).countP (fun r => dayKey r = k) =
      (impAll archive').countP fun r => dayKey r = k :=
    (reordered_impAll h hsame).countP_eq hday
  have himp : joinedCount k (imp ssaiPriority archive) =
      joinedCount k (imp ssaiPriority archive') := by
    rw [joinedCount, joinedCount, (reordered_imp h hsame).countP_eq hday]
  have hlate : joinedCount k ((imp ssaiPriority archive).filter fun r => r.late = some true) =
      joinedCount k ((imp ssaiPriority archive').filter fun r => r.late = some true) := by
    rw [joinedCount_filter, joinedCount_filter, (reordered_imp h hsame).countP_eq]
    rintro r r' ⟨hrr, himpression⟩
    rw [joinedKey, joinedKey, ← hrr.day himpression]
    by_cases hkeyed : keyed (dayKey r) = true
    · rw [decide_eq_decide.2 (hrr.late himpression hkeyed)]
    · simp only [hkeyed, Bool.and_false, Bool.false_eq_true, if_false]
  simp only [DailySettlement.withoutCopies, dayRow]
  rw [hraw, himp, hlate, joinedCount_eq h hsame (fun r r' hrr => hrr.request),
    joinedCount_eq h hsame (fun r r' hrr => hrr.click),
    joinedCount_eq h hsame (fun r r' hrr => hrr.complete)]

/-- In another order there are as many copies to remove. -/
theorem dayRow_eq (h : TiesAlike ssaiPriority archive) (hperm : archive.Perm archive')
    (k : GroupKey) :
    dayRow ssaiPriority rates archive k = dayRow ssaiPriority rates archive' k := by
  have hcolumns : (dayRow ssaiPriority rates archive k).withoutCopies =
      (dayRow ssaiPriority rates archive' k).withoutCopies :=
    withoutCopies_dayRow_eq h (fun _ => hperm.mem_iff) k
  have hrows : joinedCount k
        (((raw archive).filter isImpression).filter fun r => r.campaignId.isSome) =
      joinedCount k
        (((raw archive').filter isImpression).filter fun r => r.campaignId.isSome) := by
    have hrawPerm : (raw archive).Perm (raw archive') := hperm.filter _
    rw [joinedCount, joinedCount, ((hrawPerm.filter isImpression).filter _).countP_eq]
  simp only [DailySettlement.withoutCopies, dayRow, DailySettlement.mk.injEq] at hcolumns ⊢
  obtain ⟨hrequests, himp, hclicks, hcompletes, hraw, -, hrest⟩ := hcolumns
  exact ⟨hrequests, himp, hclicks, hcompletes, hraw, by rw [hrows, hraw], hrest⟩

/-- The order of the rows does not matter when tied copies are read alike. -/
theorem rowOrderIrrelevant_of_tiesAlike (h : TiesAlike ssaiPriority archive) :
    RowOrderIrrelevant ssaiPriority rates archive := by
  intro archive' hperm
  have hkeys : ((impAll archive).map dayKey).Perm ((impAll archive').map dayKey) :=
    (reordered_impAll h fun _ => hperm.mem_iff).map_perm fun r r' hrr => hrr.1.day hrr.2
  rw [dailySettlement_eq, dailySettlement_eq]
  simp only [dayRow_eq h hperm]
  exact hkeys.dedup.map _

/-! ## Copies that are not read alike -/

/-- Two timed copies of an event that `w_evt` does not order. -/
structure TiedCopies (r r' : ArchiveRow) : Prop where
  eventId : r.eventId = r'.eventId
  identified : r.eventId.isSome = true
  eventTime : r.eventTime = r'.eventTime
  timed : r.eventTime.isSome = true
  sourceTopic : r.sourceTopic = r'.sourceTopic

theorem TiedCopies.symm {r r' : ArchiveRow} (h : TiedCopies r r') : TiedCopies r' r :=
  ⟨h.eventId.symm, h.eventId ▸ h.identified, h.eventTime.symm, h.eventTime ▸ h.timed,
    h.sourceTopic.symm⟩

theorem TiedCopies.eventOrder_eq_false {r r' : ArchiveRow} (h : TiedCopies r r') :
    eventOrder r' r = false := by
  rw [← Bool.not_eq_true, eventOrder_iff, not_lt, eventRank, eventRank, h.eventTime, h.sourceTopic]

theorem ReadAlike.refl (r : ArchiveRow) : ReadAlike ssaiPriority r r :=
  ⟨rfl, fun _ => rfl, rfl, rfl, rfl, fun _ => rfl, fun _ => rfl, fun _ _ => Iff.rfl⟩

theorem ReadAlike.symm {r r' : ArchiveRow} (h : ReadAlike ssaiPriority r r') :
    ReadAlike ssaiPriority r' r := by
  have himpression : ∀ {b : Bool}, isImpression r' = b → isImpression r = b := by
    intro b hb
    rw [h.impression, hb]
  refine ⟨h.impression.symm, fun hi => (h.day (himpression hi)).symm, h.click.symm,
    h.complete.symm, h.request.symm, fun hi => (h.group (himpression hi)).symm,
    fun hi => (h.source (himpression hi)).symm, fun hi hkeyed => ?_⟩
  rw [← h.day (himpression hi)] at hkeyed
  exact (h.late (himpression hi) hkeyed).symm

/-- Two copies among rows of other events, each seen once. -/
theorem tiesAlike_of_copies {r r' : ArchiveRow} {others : List ArchiveRow}
    (h : ReadAlike ssaiPriority r r') (hid : r.eventId = r'.eventId)
    (hnodup : (others.map fun x => x.eventId).Nodup)
    (hother : ∀ x ∈ others, x.eventId ≠ r.eventId) :
    TiesAlike ssaiPriority (r :: r' :: others) := by
  intro a ha b hb hab _ _
  have hcases : ∀ {x}, x ∈ raw (r :: r' :: others) → x = r ∨ x = r' ∨ x ∈ others := by
    intro x hx
    simpa using (mem_raw.1 hx).1
  rcases hcases ha with rfl | rfl | hao <;> rcases hcases hb with rfl | rfl | hbo
  · exact .refl _
  · exact h
  · exact absurd hab.symm (hother b hbo)
  · exact h.symm
  · exact .refl _
  · exact absurd (hab.symm.trans hid.symm) (hother b hbo)
  · exact absurd hab (hother a hao)
  · exact absurd (hab.trans hid.symm) (hother a hao)
  · rw [List.inj_on_of_nodup_map hnodup hao hbo hab]
    exact .refl _

/-- In an archive whose order is irrelevant every order has the same rows. -/
theorem RowOrderIrrelevant.dayRow_eq (h : RowOrderIrrelevant ssaiPriority rates archive)
    (hperm : archive.Perm archive') {k : GroupKey} (hk : k ∈ (impAll archive).map dayKey) :
    dayRow ssaiPriority rates archive k = dayRow ssaiPriority rates archive' k := by
  have hmem : (k, dayRow ssaiPriority rates archive k) ∈
      dailySettlement ssaiPriority rates archive := by
    rw [dailySettlement_eq]
    exact List.mem_map_of_mem (List.mem_dedup.2 hk)
  have hmem' := (h archive' hperm).mem_iff.1 hmem
  rw [dailySettlement_eq] at hmem'
  obtain ⟨k', -, hkk⟩ := List.mem_map.1 hmem'
  simp only [Prod.mk.injEq] at hkk
  obtain ⟨rfl, hrow⟩ := hkk
  exact hrow.symm

/-! An impression of another event next to the copies shows what was read of the copy kept. -/

section

variable {r r' x : ArchiveRow}

/-- Of two tied copies the first one seen is kept. -/
theorem dedup_copies (h : TiedCopies r r') (hx : x.eventId.isSome = true)
    (hne : x.eventId ≠ r.eventId) : dedup [r, r', x] = [r, x] := by
  have hraw : raw [r, r', x] = [r, r', x] := by
    rw [raw, List.filter_eq_self]
    intro s hs
    simp only [List.mem_cons, List.not_mem_nil, or_false] at hs
    rcases hs with rfl | rfl | rfl
    · exact h.identified
    · exact h.symm.identified
    · exact hx
  have hcopies : rowNumberOne (fun s => s.eventId) eventOrder [r, r', x] =
      [if eventOrder r' r then r' else r, x] := rowNumberOne_copies h.eventId hne
  rw [dedup, hraw, hcopies, if_neg (by simp [h.eventOrder_eq_false])]

/-- Both orders of the copies have the same row for the day and campaign of the impression. -/
theorem dayRow_copies (h : TiedCopies r r') (hx : x.eventId.isSome = true)
    (hne : x.eventId ≠ r.eventId) (himp : isImpression x = true)
    (hirr : RowOrderIrrelevant ssaiPriority rates [r, r', x]) :
    dayRow ssaiPriority rates [r, r', x] (dayKey x) =
      dayRow ssaiPriority rates [r', r, x] (dayKey x) := by
  refine hirr.dayRow_eq (.swap _ _ _) (List.mem_map_of_mem (mem_impAll.2 ⟨?_, himp⟩))
  rw [dedup_copies h hx hne]
  simp

/-- A count that is the same with either copy has both copies or neither. -/
theorem joinedKey_iff {q : ArchiveRow → Bool} {k : GroupKey} (hk : keyed k = true)
    (h : joinedCount k ([r, x].filter q) = joinedCount k ([r', x].filter q)) :
    joinedKey q r = some k ↔ joinedKey q r' = some k := by
  rw [joinedCount_filter, joinedCount_filter, if_pos hk, if_pos hk] at h
  simp only [List.countP_cons, List.countP_nil, decide_eq_true_eq] at h
  by_cases hr : joinedKey q r = some k <;> by_cases hr' : joinedKey q r' = some k <;>
    simp [hr, hr'] at h ⊢

/-- The impressions of two events, merged. -/
theorem imp_copies (h : TiedCopies r r') (hx : x.eventId.isSome = true)
    (hne : x.eventId ≠ r.eventId) (himp : isImpression r = true) (himpx : isImpression x = true) :
    imp ssaiPriority [r, r', x] = rowNumberOne grp (ssaiOrder ssaiPriority) [r, x] := by
  rw [imp, impAll, dedup_copies h hx hne, List.filter_cons_of_pos himp,
    List.filter_cons_of_pos himpx, List.filter_nil]

end

/-- An impression of a day and campaign. -/
def probe (eventId adRequestId : String) (campaignId source : Option String) (eventTime : ℤ) :
    ArchiveRow :=
  archiveRow .impression
    { eventId := some eventId, eventType := some "impression", campaignId := campaignId,
      adRequestId := some adRequestId, quartile := none, source := source, ssaiTwinOf := none,
      fill := none, late := none, eventTime := some eventTime }

theorem isImpression_probe {r : ArchiveRow} (h : inCampaign r = true)
    (eventId adRequestId : String) (source : Option String) (eventTime : ℤ) :
    isImpression (probe eventId adRequestId r.campaignId source eventTime) = true := by
  rw [isImpression, Bool.and_eq_true]
  exact ⟨rfl, h⟩

/-- A longer text is another one. -/
theorem append_ne (s : String) : s ++ "+" ≠ s := by
  intro h
  have hlength := congrArg String.length h
  simp at hlength

variable {r r' : ArchiveRow}

theorem eventId_probe_ne {e : String} (he : r.eventId = some e) (adRequestId : String)
    (campaignId source : Option String) (eventTime : ℤ) :
    (probe (e ++ "+") adRequestId campaignId source eventTime).eventId ≠ r.eventId := by
  rw [he]
  exact fun heq => append_ne e (Option.some.inj heq)

/-- The order is irrelevant next to any one row of another event. -/
def SafeNextTo (ssaiPriority : List String) (rates : Rates) (r r' : ArchiveRow) : Prop :=
  ∀ x, x.eventId ≠ r.eventId → RowOrderIrrelevant ssaiPriority rates [r, r', x]

theorem SafeNextTo.symm (h : SafeNextTo ssaiPriority rates r r') (hid : r.eventId = r'.eventId) :
    SafeNextTo ssaiPriority rates r' r := by
  intro x hx archive' hperm
  have hswap : [r, r', x].Perm [r', r, x] := .swap _ _ _
  have hirr := h x (hid ▸ hx)
  exact (hirr _ hswap).symm.trans (hirr _ (hswap.trans hperm))

/-- A metric that shows as a column has the same key in both copies. -/
theorem SafeNextTo.joinedKey_eq (h : SafeNextTo ssaiPriority rates r r') (htied : TiedCopies r r')
    {q : ArchiveRow → Bool} (hq : ∀ s, q s = true → inCampaign s = true)
    {f : DailySettlement → ℕ}
    (hf : ∀ archive k, keyed k = true →
      f (dayRow ssaiPriority rates archive k) = joinedCount k ((dedup archive).filter q)) :
    joinedKey q r = joinedKey q r' := by
  obtain ⟨e, he⟩ := Option.isSome_iff_exists.1 htied.identified
  -- the key of one copy is that of the other, by an impression of that day and campaign
  have hkey : ∀ s k, joinedKey q s = some k →
      (joinedKey q r = some k ↔ joinedKey q r' = some k) := by
    intro s k hs
    rw [joinedKey, Option.ite_none_right_eq_some, Bool.and_eq_true] at hs
    obtain ⟨⟨hqs, hkeyed⟩, hk⟩ := hs
    obtain rfl := Option.some.inj hk
    obtain ⟨t, ht⟩ : ∃ t, s.eventTime = some t := by
      refine Option.isSome_iff_exists.1 ?_
      simp only [keyed, dayKey, Bool.and_eq_true, Option.isSome_map] at hkeyed
      exact hkeyed.1
    have hx : dayKey (probe (e ++ "+") "" s.campaignId none t) = dayKey s := by
      rw [dayKey, dayKey, ht]
      rfl
    have hne := eventId_probe_ne he "" s.campaignId none t
    have himp := isImpression_probe (hq s hqs) (e ++ "+") "" none t
    have hrow := congrArg f (dayRow_copies htied rfl hne himp (h _ hne))
    rw [hx, hf _ _ hkeyed, hf _ _ hkeyed, dedup_copies htied rfl hne,
      dedup_copies htied.symm rfl (htied.eventId ▸ hne)] at hrow
    exact joinedKey_iff hkeyed hrow
  refine Option.ext fun k => ?_
  constructor
  · intro hr
    exact (hkey r k hr).1 hr
  · intro hr'
    exact (hkey r' k hr').2 hr'

theorem inCampaign_of_isImpression {s : ArchiveRow} (h : isImpression s = true) :
    inCampaign s = true :=
  (Bool.and_eq_true_iff.1 h).2

theorem inCampaign_of_inBase {s : ArchiveRow} {b : Bool} (h : (inBase s && b) = true) :
    inCampaign s = true :=
  (Bool.and_eq_true_iff.1 (Bool.and_eq_true_iff.1 h).1).1

/-- A timed impression has a key without nulls. -/
theorem joinedKey_isImpression {s : ArchiveRow} (htimed : s.eventTime.isSome = true)
    (h : isImpression s = true) : joinedKey isImpression s = some (dayKey s) := by
  have hcampaign : s.campaignId.isSome = true := by
    have hin := inCampaign_of_isImpression h
    rw [inCampaign] at hin
    cases hc : s.campaignId with
    | none =>
        rw [hc] at hin
        cases hin
    | some c => rfl
  rw [joinedKey, if_pos]
  simp [h, keyed, dayKey, htimed, hcampaign]

/-- Both copies are impressions of one day and campaign, or neither is one. -/
theorem SafeNextTo.impression (h : SafeNextTo ssaiPriority rates r r') (htied : TiedCopies r r') :
    isImpression r = isImpression r' ∧ (isImpression r = true → dayKey r = dayKey r') := by
  have hraw : joinedKey isImpression r = joinedKey isImpression r' := by
    refine h.joinedKey_eq htied (fun _ => inCampaign_of_isImpression)
      (f := DailySettlement.rawImpressions) fun archive k hk => ?_
    rw [joinedCount, if_pos hk]
    rfl
  have himp : ∀ {s k}, joinedKey isImpression s = some k →
      isImpression s = true ∧ dayKey s = k := by
    intro s k hs
    rw [joinedKey, Option.ite_none_right_eq_some, Bool.and_eq_true] at hs
    exact ⟨hs.1.1, Option.some.inj hs.2⟩
  have hfrom : isImpression r = true → isImpression r' = true ∧ dayKey r' = dayKey r := by
    intro hr
    exact himp (hraw.symm.trans (joinedKey_isImpression htied.timed hr))
  have hto : isImpression r' = true → isImpression r = true := by
    intro hr'
    exact (himp (hraw.trans (joinedKey_isImpression htied.symm.timed hr'))).1
  refine ⟨?_, fun hr => (hfrom hr).2.symm⟩
  rw [Bool.eq_iff_iff]
  exact ⟨fun hr => (hfrom hr).1, hto⟩

/-- The impressions billed to a day and campaign, of one row or two. -/
theorem impressions_dayRow {archive rows : List ArchiveRow} {k : GroupKey} (hk : keyed k = true)
    (h : imp ssaiPriority archive = rows) :
    (dayRow ssaiPriority rates archive k).impressions = rows.countP fun r => dayKey r = k := by
  show joinedCount k (imp ssaiPriority archive) = _
  rw [h, joinedCount, if_pos hk]

/-- Another day of the same campaign. -/
theorem dayKey_probe_ne {s : ArchiveRow} {t : ℤ} (ht : s.eventTime = some t)
    (eventId adRequestId : String) (source : Option String) {t' : ℤ}
    (ht' : t' / 86400000 ≠ t / 86400000) :
    dayKey s ≠ dayKey (probe eventId adRequestId s.campaignId source t') := by
  intro h
  have hday := congrArg Prod.fst h
  simp only [dayKey, probe, archiveRow, ht, Option.map_some, Option.some.injEq] at hday
  exact ht' hday.symm

theorem exists_grp (h : r.eventId.isSome = true) : ∃ g, grp r = some g := by
  obtain ⟨e, he⟩ := Option.isSome_iff_exists.1 h
  rw [grp, he]
  cases r.adRequestId with
  | none => exact ⟨e, rfl⟩
  | some a => exact ⟨a, rfl⟩

theorem keyed_of_isImpression {s : ArchiveRow} (htimed : s.eventTime.isSome = true)
    (h : isImpression s = true) : keyed (dayKey s) = true := by
  have hkey := joinedKey_isImpression htimed h
  rw [joinedKey, Option.ite_none_right_eq_some, Bool.and_eq_true] at hkey
  exact hkey.1.2

/-- Both copies are in one group: an impression of the first one's group on the next day is billed
exactly when the copy kept is in another group. -/
theorem SafeNextTo.group (h : SafeNextTo ssaiPriority rates r r') (htied : TiedCopies r r')
    (hr : isImpression r = true) (hr' : isImpression r' = true) (hday : dayKey r = dayKey r') :
    grp r = grp r' := by
  by_contra hgrp
  obtain ⟨e, he⟩ := Option.isSome_iff_exists.1 htied.identified
  obtain ⟨t, ht⟩ := Option.isSome_iff_exists.1 htied.timed
  obtain ⟨g, hg⟩ := exists_grp htied.identified
  let x := probe (e ++ "+") g r.campaignId r.source (t + 86400000)
  have hne : x.eventId ≠ r.eventId := eventId_probe_ne he _ _ _ _
  have himpx : isImpression x = true :=
    isImpression_probe (inCampaign_of_isImpression hr) _ _ _ _
  have hgx : grp x = some g := rfl
  have hkey : dayKey r ≠ dayKey x := dayKey_probe_ne ht _ _ _ (by omega)
  have hkeyed : keyed (dayKey x) = true := keyed_of_isImpression rfl himpx
  -- the copy seen first wins its group from the later impression
  have hlose : ssaiOrder ssaiPriority x r = false := by
    have hxs : x.source = r.source := rfl
    have hxt : x.eventTime = some (t + 86400000) := rfl
    simp [ssaiOrder, hxs, hxt, ht, ltNullsLast]
  have hone : imp ssaiPriority [r, r', x] = [r] := by
    rw [imp_copies htied rfl hne hr himpx, rowNumberOne_of_eq (hg.trans hgx.symm),
      if_neg (by simp [hlose])]
  have htwo : imp ssaiPriority [r', r, x] = [r', x] := by
    rw [imp_copies htied.symm rfl (htied.eventId ▸ hne) hr' himpx, rowNumberOne_of_ne]
    rw [hgx, ← hg]
    exact fun heq => hgrp heq.symm
  have hrow := congrArg DailySettlement.impressions (dayRow_copies htied rfl hne himpx (h x hne))
  rw [impressions_dayRow hkeyed hone, impressions_dayRow hkeyed htwo] at hrow
  simp [hkey, ← hday] at hrow

/-- The second copy's source has no later priority: an earlier impression of the group with that
source loses to the first copy alone. -/
theorem SafeNextTo.prio_le (h : SafeNextTo ssaiPriority rates r r') (htied : TiedCopies r r')
    (hr : isImpression r = true) (hr' : isImpression r' = true)
    (hgrp : grp r = grp r') : prio ssaiPriority r'.source ≤ prio ssaiPriority r.source := by
  by_contra hlt
  rw [not_le] at hlt
  obtain ⟨e, he⟩ := Option.isSome_iff_exists.1 htied.identified
  obtain ⟨t, ht⟩ := Option.isSome_iff_exists.1 htied.timed
  obtain ⟨g, hg⟩ := exists_grp htied.identified
  let x := probe (e ++ "+") g r.campaignId r'.source (t - 86400000)
  have hne : x.eventId ≠ r.eventId := eventId_probe_ne he _ _ _ _
  have himpx : isImpression x = true :=
    isImpression_probe (inCampaign_of_isImpression hr) _ _ _ _
  have hgx : grp x = some g := rfl
  have hxs : x.source = r'.source := rfl
  have hxt : x.eventTime = some (t - 86400000) := rfl
  have hkey : dayKey r ≠ dayKey x := dayKey_probe_ne ht _ _ _ (by omega)
  have hkeyed : keyed (dayKey x) = true := keyed_of_isImpression rfl himpx
  have hlose : ssaiOrder ssaiPriority x r = false := by
    simp [ssaiOrder, hxs, hlt.le, hlt.ne']
  have hwin : ssaiOrder ssaiPriority x r' = true := by
    have ht' : r'.eventTime = some t := htied.eventTime.symm.trans ht
    simp [ssaiOrder, hxs, hxt, ht', ltNullsLast]
  have hone : imp ssaiPriority [r, r', x] = [r] := by
    rw [imp_copies htied rfl hne hr himpx, rowNumberOne_of_eq (hg.trans hgx.symm),
      if_neg (by simp [hlose])]
  have htwo : imp ssaiPriority [r', r, x] = [x] := by
    rw [imp_copies htied.symm rfl (htied.eventId ▸ hne) hr' himpx,
      rowNumberOne_of_eq ((hgrp.symm.trans hg).trans hgx.symm), if_pos hwin]
  have hrow := congrArg DailySettlement.impressions (dayRow_copies htied rfl hne himpx (h x hne))
  rw [impressions_dayRow hkeyed hone, impressions_dayRow hkeyed htwo] at hrow
  simp [hkey] at hrow

/-- The late flag of an impression shows next to an impression of another group. -/
theorem SafeNextTo.late (h : SafeNextTo ssaiPriority rates r r') (htied : TiedCopies r r')
    (hr : isImpression r = true) (hr' : isImpression r' = true) (hday : dayKey r = dayKey r')
    (hgrp : grp r = grp r') : r.late = some true ↔ r'.late = some true := by
  obtain ⟨e, he⟩ := Option.isSome_iff_exists.1 htied.identified
  obtain ⟨t, ht⟩ := Option.isSome_iff_exists.1 htied.timed
  obtain ⟨g, hg⟩ := exists_grp htied.identified
  let x := probe (e ++ "+") (g ++ "+") r.campaignId none t
  have hne : x.eventId ≠ r.eventId := eventId_probe_ne he _ _ _ _
  have himpx : isImpression x = true :=
    isImpression_probe (inCampaign_of_isImpression hr) _ _ _ _
  have hgx : grp r ≠ grp x := by
    rw [hg]
    exact fun heq => append_ne g (Option.some.inj heq).symm
  have hkey : dayKey r = dayKey x := by
    rw [dayKey, dayKey, ht]
    rfl
  have hkeyed : keyed (dayKey x) = true := keyed_of_isImpression rfl himpx
  have hone : imp ssaiPriority [r, r', x] = [r, x] := by
    rw [imp_copies htied rfl hne hr himpx, rowNumberOne_of_ne hgx]
  have htwo : imp ssaiPriority [r', r, x] = [r', x] := by
    rw [imp_copies htied.symm rfl (htied.eventId ▸ hne) hr' himpx,
      rowNumberOne_of_ne (hgrp ▸ hgx)]
  have hrow : joinedCount (dayKey x)
        ((imp ssaiPriority [r, r', x]).filter fun s => s.late = some true) =
      joinedCount (dayKey x)
        ((imp ssaiPriority [r', r, x]).filter fun s => s.late = some true) :=
    congrArg DailySettlement.lateImpressions (dayRow_copies htied rfl hne himpx (h x hne))
  rw [hone, htwo] at hrow
  have hiff := joinedKey_iff hkeyed hrow
  simpa [joinedKey, ← hday, hkey, hkeyed] using hiff

/-- Tied copies that are safe next to any row of another event are read alike. -/
theorem SafeNextTo.readAlike (h : SafeNextTo ssaiPriority rates r r') (htied : TiedCopies r r') :
    ReadAlike ssaiPriority r r' := by
  obtain ⟨himp, hday⟩ := h.impression htied
  have hgroup : isImpression r = true → grp r = grp r' := fun hr =>
    h.group htied hr (himp ▸ hr) (hday hr)
  constructor
  · exact himp
  · exact hday
  · refine h.joinedKey_eq htied (fun _ => inCampaign_of_inBase) (f := DailySettlement.clicks) ?_
    exact fun _ _ _ => rfl
  · refine h.joinedKey_eq htied (fun _ => inCampaign_of_inBase) (f := DailySettlement.completes) ?_
    exact fun _ _ _ => rfl
  · refine h.joinedKey_eq htied (fun _ => inCampaign_of_inBase) (f := DailySettlement.requests) ?_
    exact fun _ _ _ => rfl
  · exact hgroup
  · intro hr
    have hr' : isImpression r' = true := himp ▸ hr
    refine le_antisymm ?_ (h.prio_le htied hr hr' (hgroup hr))
    exact (h.symm htied.eventId).prio_le htied.symm hr' hr (hgroup hr).symm
  · intro hr _
    exact h.late htied hr (himp ▸ hr) (hday hr) (hgroup hr)

/-- The order of the rows does not matter when tied copies of events are read alike. And of two
timed copies of an event nothing less will do: they have to be read alike for the order not to
matter next to every set of rows of other events. -/
theorem rowOrder_irrelevant :
    (TiesAlike ssaiPriority archive → RowOrderIrrelevant ssaiPriority rates archive) ∧
    ∀ r r', TiedCopies r r' → (ReadAlike ssaiPriority r r' ↔
      ∀ others : List ArchiveRow, (others.map fun x => x.eventId).Nodup →
        (∀ x ∈ others, x.eventId ≠ r.eventId) →
        RowOrderIrrelevant ssaiPriority rates (r :: r' :: others)) := by
  refine ⟨rowOrderIrrelevant_of_tiesAlike, fun r r' htied => ?_⟩
  constructor
  · intro halike others hnodup hother
    exact rowOrderIrrelevant_of_tiesAlike
      (tiesAlike_of_copies halike htied.eventId hnodup hother)
  · intro h
    have hsafe : SafeNextTo ssaiPriority rates r r' := by
      intro x hx
      refine h [x] (by simp) ?_
      simpa using hx
    exact hsafe.readAlike htied

/-- A batch copy of an impression with its late mark. -/
def lateRow : ArchiveRow := { impressionRow "e1" (some "a1") "c1" "client" with late := some true }

/-- The pixel copy, which has none. -/
def pixelRow : ArchiveRow := impressionRow "e1" (some "a1") "c1" "client"

/-- A batch copy that says that it is not late, and names its twin. -/
def punctualRow : ArchiveRow := { pixelRow with late := some false, ssaiTwinOf := some "e2" }

/-- The twin of the event, another impression, which is late, and a click. -/
def otherRows : List ArchiveRow :=
  [impressionRow "e2" (some "a1") "c1" "server",
    { impressionRow "e3" (some "a3") "c1" "client" with late := some true },
    { impressionRow "e4" (some "a1") "c1" "client" with
      eventType := some "click", sourceTopic := "ad.click" }]

/-- The copies tie and differ, but nowhere that the settlement reads. So the click may come first
and the pixel copy be the one that is kept and wins over the twin. -/
theorem rowOrder_irrelevant_copies :
    punctualRow ≠ pixelRow ∧ TiedCopies punctualRow pixelRow ∧
    RowOrderIrrelevant ["client", "server"] noRates (punctualRow :: pixelRow :: otherRows) ∧
    punctualRow ∈ imp ["client", "server"] (punctualRow :: pixelRow :: otherRows) ∧
    pixelRow ∈ imp ["client", "server"] (otherRows.reverse ++ [pixelRow, punctualRow]) ∧
    (dailySettlement ["client", "server"] noRates (punctualRow :: pixelRow :: otherRows)).Perm
      (dailySettlement ["client", "server"] noRates
        (otherRows.reverse ++ [pixelRow, punctualRow])) ∧
    (dailySettlement ["client", "server"] noRates (punctualRow :: pixelRow :: otherRows)).map
      (fun row => (row.2.impressions, row.2.dupesRemoved, row.2.lateImpressions)) =
        [(2, 1, 1)] := by
  have halike : ReadAlike ["client", "server"] punctualRow pixelRow :=
    ⟨rfl, fun _ => rfl, rfl, rfl, rfl, fun _ => rfl, fun _ => rfl, fun _ _ => by decide⟩
  have hirrelevant : RowOrderIrrelevant ["client", "server"] noRates
      (punctualRow :: pixelRow :: otherRows) :=
    rowOrder_irrelevant.1 (tiesAlike_of_copies halike rfl (by decide) (by decide))
  have hperm : (punctualRow :: pixelRow :: otherRows).Perm
      (otherRows.reverse ++ [pixelRow, punctualRow]) := by decide
  exact ⟨by decide, ⟨rfl, rfl, rfl, rfl, rfl⟩, hirrelevant, by decide, by decide,
    hirrelevant _ hperm, by decide⟩

/-- The two orders of the copies give different late impressions. -/
theorem late_impressions_differ :
    dailySettlement ["server", "client"] noRates
      [lateRow, impressionRow "e1" (some "a1") "c1" "client"] ≠
    dailySettlement ["server", "client"] noRates
      [impressionRow "e1" (some "a1") "c1" "client", lateRow] ∧
    ¬ RowOrderIrrelevant ["server", "client"] noRates
      [lateRow, impressionRow "e1" (some "a1") "c1" "client"] := by
  refine ⟨by decide, fun h => ?_⟩
  have hperm := h [impressionRow "e1" (some "a1") "c1" "client", lateRow] (.swap _ _ _)
  revert hperm
  decide

end AdPipeline.Settlement
