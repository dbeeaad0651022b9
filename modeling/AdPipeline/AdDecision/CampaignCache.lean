import AdPipeline.Lib.Draw
import AdPipeline.Lib.Keyed
import AdPipeline.Platform.Text
import Mathlib.Algebra.Order.Field.Rat

/-!
# The campaign cache

`CampaignCache.kt` keeps the active campaigns and their creatives in two references that `refresh`
replaces, and chooses a campaign by its budget. The choice is exact, but its comparison is closed at
zero, so that a campaign without a budget is drawn when it is the first of the list
(`exactChoice_iff`).

Budgets and draws are rational numbers. A draw of `nextInt` is a natural number, of which the
remainder counts.
-/

namespace AdPipeline.AdDecision

open Lib

structure Campaign where
  campaignId : String
  advertiser : String
  name : String
  vertical : String
  dailyBudget : ℚ
  cpm : ℚ
deriving DecidableEq

/-- The creatives of a campaign, at least one. -/
structure Creatives where
  names : List String
  ne : names ≠ []

/-- The two references. -/
structure CampaignCache where
  cache : List Campaign
  creatives : List (String × Creatives)

/-- The two creatives of a campaign. -/
def creativesOf (campaignId : String) : Creatives where
  names :=
    [Text.replace campaignId "cmp" "crt" ++ "-a", Text.replace campaignId "cmp" "crt" ++ "-b"]
  ne := List.cons_ne_nil _ _

/-- The map that `refresh` sets. Campaigns with the same id have the same creatives. -/
def associateCreatives (rows : List Campaign) : List (String × Creatives) :=
  rows.map fun c => (c.campaignId, creativesOf c.campaignId)

/-- `nextInt(bound)`. -/
def nextInt (draw bound : ℕ) : ℕ := draw % bound

/-- `pick` on the list it has read. -/
def pick (draw : ℕ) (nextDouble : ℚ) (list : List Campaign) : Option Campaign :=
  if list = [] then none
  else
    let total := (list.map Campaign.dailyBudget).sum
    if total ≤ 0 then list[nextInt draw list.length]?
    else
      match drawFrom Campaign.dailyBudget (nextDouble * total) list with
      | some c => some c
      | none => list.getLast?

/-- `byId` on the list it has read. -/
def byId (campaignId : Option String) (list : List Campaign) : Option Campaign :=
  match campaignId with
  | none => none
  | some id => if Text.isBlank id then none else list.find? fun c => c.campaignId = id

/-- `creativeFor` on the map it has read. -/
def creativeFor (draw : ℕ) (campaignId : String) (creatives : List (String × Creatives)) : String :=
  match entry campaignId creatives with
  | none => "crt-unknown"
  | some list => list.names.get
      ⟨nextInt draw list.names.length, Nat.mod_lt _ (List.length_pos_iff.2 list.ne)⟩

/-- `pick` finds nothing in an empty list only. -/
theorem pick_eq_none {draw : ℕ} {nextDouble : ℚ} {list : List Campaign}
    (h : pick draw nextDouble list = none) : list = [] := by
  by_contra hne
  have hlen : 0 < list.length := List.length_pos_iff.2 hne
  simp only [pick, if_neg hne] at h
  split_ifs at h
  · exact absurd (Nat.mod_lt draw hlen) (not_lt.2 (List.getElem?_eq_none_iff.1 h))
  · split at h
    · cases h
    · exact hne (List.getLast?_eq_none_iff.1 h)

/-! ## The choice by budget -/

/-- The place in the list where the loop of `pick` stops. -/
def pickAt (nextDouble : ℚ) (list : List Campaign) : Option ℕ :=
  drawAt Campaign.dailyBudget (nextDouble * (list.map Campaign.dailyBudget).sum) list

/-- The choice by budget is exact. -/
structure ExactChoice (list : List Campaign) : Prop where
  /-- The loop stops at a campaign with a budget, and `pick` returns it. -/
  positive : ∀ draw u, 0 ≤ u → u < 1 → ∃ i, ∃ hi : i < list.length, pickAt u list = some i ∧
    pick draw u list = some list[i] ∧ 0 < list[i].dailyBudget
  /-- The draws for a place form an interval, with the share of the budget as its length. -/
  share : ∀ i (hi : i < list.length), IsIntervalOfLength
    {u : ℚ | (0 ≤ u ∧ u < 1) ∧ pickAt u list = some i}
    (list[i].dailyBudget / (list.map Campaign.dailyBudget).sum)

/-- With a positive total `pick` returns the campaign where its loop stops. -/
theorem pick_eq_of_pickAt {list : List Campaign} (hpos : 0 < (list.map Campaign.dailyBudget).sum)
    (draw : ℕ) {u : ℚ} {i : ℕ} (hi : i < list.length) (h : pickAt u list = some i) :
    pick draw u list = some list[i] := by
  have hne : list ≠ [] := List.ne_nil_of_length_pos (Nat.zero_lt_of_lt hi)
  have hloop : drawFrom Campaign.dailyBudget (u * (list.map Campaign.dailyBudget).sum) list =
      some list[i] := by
    rw [drawFrom_eq]
    rw [pickAt] at h
    rw [h, Option.bind_some, List.getElem?_eq_getElem hi]
  simp only [pick, if_neg hne, if_neg (not_le.2 hpos), hloop]

/-- A campaign that is drawn has a budget unless it is the first one. -/
theorem budget_pos_of_pickAt {list : List Campaign} (hbudget : ∀ c ∈ list, 0 ≤ c.dailyBudget)
    {u : ℚ} {i : ℕ} (hi : i < list.length) (h : pickAt u list = some i) (hne : i ≠ 0) :
    0 < list[i].dailyBudget := by
  obtain ⟨-, hlow, hhigh⟩ := (drawAt_eq_some_iff hbudget _ _).1 h
  have hlt := (hlow.resolve_left hne).trans_le hhigh
  rw [weightBefore_succ Campaign.dailyBudget hi] at hlt
  exact pos_of_lt_add_right hlt

/-- The choice is exact just when the first campaign of the list has a budget. -/
theorem exactChoice_iff {list : List Campaign} (hne : list ≠ [])
    (hbudget : ∀ c ∈ list, 0 ≤ c.dailyBudget)
    (hpos : 0 < (list.map Campaign.dailyBudget).sum) :
    ExactChoice list ↔ 0 < (list.head hne).dailyBudget := by
  have hlen : 0 < list.length := List.length_pos_iff.2 hne
  have hhead : list.head hne = list[0] := List.head_eq_getElem hne
  constructor
  · intro h
    -- the draw zero stops at the first campaign
    have hzero : pickAt 0 list = some 0 := by
      refine (drawAt_eq_some_iff hbudget _ _).2 ⟨hlen, .inl rfl, ?_⟩
      rw [zero_mul]
      exact weightBefore_nonneg hbudget 1
    obtain ⟨i, hi, hplace, -, hpositive⟩ := h.positive 0 0 le_rfl one_pos
    obtain rfl : 0 = i := Option.some.inj (hzero.symm.trans hplace)
    rw [hhead]
    exact hpositive
  · intro hfirst
    refine ⟨fun draw u hu hu1 => ?_, fun i hi => isIntervalOfLength_drawAt hbudget hpos hi⟩
    have hdraw : u * (list.map Campaign.dailyBudget).sum ≤ (list.map Campaign.dailyBudget).sum :=
      mul_le_of_le_one_left hpos.le hu1.le
    obtain ⟨i, hi⟩ := exists_drawAt hne hdraw
    have hlt := ((drawAt_eq_some_iff hbudget _ _).1 hi).1
    refine ⟨i, hlt, hi, pick_eq_of_pickAt hpos draw hlt hi, ?_⟩
    by_cases hi0 : i = 0
    · subst hi0
      rw [← hhead]
      exact hfirst
    · exact budget_pos_of_pickAt hbudget hlt hi hi0

/-- A campaign with a budget, of which only that counts. -/
def sampleCampaign (campaignId : String) (dailyBudget : ℚ) : Campaign :=
  ⟨campaignId, "", "", "", dailyBudget, 0⟩

/-- Campaigns without a budget are not drawn behind one that has a budget. -/
theorem exactChoice_first :
    ExactChoice [sampleCampaign "cmp-1" 3, sampleCampaign "cmp-tr-1" 0, sampleCampaign "cmp-2" 1] :=
  (exactChoice_iff (List.cons_ne_nil _ _) (by decide) (by simp [sampleCampaign, add_pos])).2
    (by decide)

/-- The draw zero returns a campaign without a budget that is the first one. -/
theorem pick_zero_budget :
    0 < ([sampleCampaign "cmp-tr-1" 0, sampleCampaign "cmp-1" 3].map Campaign.dailyBudget).sum ∧
    pick 0 0 [sampleCampaign "cmp-tr-1" 0, sampleCampaign "cmp-1" 3] =
      some (sampleCampaign "cmp-tr-1" 0) ∧
    ¬ ExactChoice [sampleCampaign "cmp-tr-1" 0, sampleCampaign "cmp-1" 3] := by
  have hpick : pick 0 0 [sampleCampaign "cmp-tr-1" 0, sampleCampaign "cmp-1" 3] =
      some (sampleCampaign "cmp-tr-1" 0) := by
    simp [pick, drawFrom, sampleCampaign]
  refine ⟨by simp [sampleCampaign], hpick, fun h => ?_⟩
  obtain ⟨i, hi, -, hreturned, hpositive⟩ := h.positive 0 0 le_rfl one_pos
  rw [hpick] at hreturned
  rw [← Option.some.inj hreturned] at hpositive
  exact absurd hpositive (by decide)

end AdPipeline.AdDecision
