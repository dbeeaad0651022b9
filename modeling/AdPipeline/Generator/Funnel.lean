import AdPipeline.Collector.PixelTransport
import AdPipeline.Generator.Users
import AdPipeline.Lib.Precedence
import Mathlib.Data.Fintype.Option

/-!
# The funnel of the generated traffic

Every event of an ad needs an earlier one: an impression its response, a quartile the one before it,
a click the midpoint. Whatever the draws, whenever `stop_event` is set or a viewer is cancelled, and
however the viewers interleave, the traffic so far has at least as many of the earlier events as of
those that need them (`funnel`), for every choice of ads. The Collector routes each of these events
to a topic by its type (`routed_event`), so the same goes for the topics.
-/

namespace AdPipeline.Generator

open Collector Lib

/-! ## Stages of an ad -/

/-- What can happen to an ad that is shown. -/
inductive Stage where
  | response
  | impression
  | quartile (i : Fin 5)
  | click
deriving DecidableEq

/-- The name of a quartile. -/
def quartileName (i : Fin 5) : String := quartileNames[i.val]

/-- The event of a stage. -/
def Stage.event (c : AdFields) : Stage → ViewerEvent
  | response => .adResponse c
  | impression => .impression c
  | quartile i => .quartile (quartileName i) c
  | click => .click c

/-- The ad that an event is about, once it is shown. -/
def ViewerEvent.common : ViewerEvent → Option AdFields
  | adResponse c => some c
  | impression c => some c
  | quartile _ c => some c
  | click c => some c
  | _ => none

/-- An event of a stage, of one of the ads chosen. -/
def Stage.at (ads : AdFields → Bool) (s : Stage) (e : ViewerEvent) : Bool :=
  e.common.any fun c => ads c && e = s.event c

/-- The request of one of the ads chosen. -/
def ViewerEvent.requests (ids : String → Bool) : ViewerEvent → Bool
  | adRequest id _ _ _ => ids id
  | _ => false

/-- Each stage with the one it needs before it. Where ad-decision answers, the responses are not
the viewer's. -/
def needs (adDecision : Bool) : List (Stage × Stage) :=
  (if adDecision then [] else [(.response, .impression)]) ++
    [(.impression, .quartile 0), (.quartile 0, .quartile 1), (.quartile 1, .quartile 2),
      (.quartile 2, .quartile 3), (.quartile 3, .quartile 4), (.quartile 2, .click)]

/-- The stages of a shown ad. -/
def stages (adDecision : Bool) (dropFrom : Option (Fin 4)) (click : Bool) : List Stage :=
  let reached := (List.finRange 5).take (dropFrom.elim 5 fun i => i.val + 1)
  (if adDecision then [] else [.response]) ++ .impression :: reached.map .quartile ++
    if 2 ≤ reached.length - 1 ∧ click then [.click] else []

theorem shownAd_eq (adDecision : Bool) (d : AdDraws) (c : AdFields) :
    shownAd adDecision d c = (stages adDecision d.dropFrom d.click).map (Stage.event c) := by
  have hnames : quartileNames = (List.finRange 5).map quartileName := by decide
  have hreached : d.quartiles =
      ((List.finRange 5).take (d.dropFrom.elim 5 fun i => i.val + 1)).map quartileName := by
    rw [AdDraws.quartiles, List.map_take, ← hnames]
    rfl
  unfold shownAd stages
  simp only [hreached, List.length_map, List.map_append, List.map_cons, List.map_map]
  congr 1
  · cases adDecision <;> rfl
  · split_ifs <;> rfl

/-! ## One ad -/

theorem quartileName_injective : Function.Injective quartileName := by
  intro i j
  revert i j
  decide

theorem Stage.event_injective (c : AdFields) : Function.Injective (Stage.event c) := by
  intro s s' h
  cases s <;> cases s' <;> simp_all [Stage.event, quartileName_injective.eq_iff]

/-- Which of the events of one ad are of a stage. -/
theorem Stage.at_event (ads : AdFields → Bool) (s s' : Stage) (c : AdFields) :
    s.at ads (s'.event c) = (ads c && decide (s' = s)) := by
  have hcommon : (s'.event c).common = some c := by cases s' <;> rfl
  rw [Stage.at, hcommon, Option.any_some]
  simp only [(Stage.event_injective c).eq_iff]

/-- What a click needs, step by step. -/
theorem mem_needs (adDecision : Bool) : ∀ x ∈ [(Stage.impression, Stage.quartile 0),
    (.quartile 0, .quartile 1), (.quartile 1, .quartile 2), (.quartile 2, .click)],
      x ∈ needs adDecision := by
  revert adDecision
  decide

/-- The stages of a shown ad come in order. -/
theorem leads_stages (adDecision : Bool) (dropFrom : Option (Fin 4)) (click : Bool) :
    ∀ x ∈ needs adDecision,
      Leads (fun s => decide (s = x.1)) (fun s => decide (s = x.2))
        (stages adDecision dropFrom click) := by
  revert adDecision dropFrom click
  decide

/-- No event but those of ads is of a stage. -/
theorem Stage.at_of_common {e : ViewerEvent} (h : e.common = none) (ads : AdFields → Bool)
    (s : Stage) : s.at ads e = false := by
  rw [Stage.at, h, Option.any_none]

theorem leads_shownAd (adDecision : Bool) (d : AdDraws) (c : AdFields) (ads : AdFields → Bool)
    {x : Stage × Stage} (hx : x ∈ needs adDecision) :
    Leads (x.1.at ads) (x.2.at ads) (shownAd adDecision d c) := by
  rw [shownAd_eq]
  cases hads : ads c with
  | false =>
      refine .of_none fun e he => ?_
      obtain ⟨s, -, rfl⟩ := List.mem_map.1 he
      rw [Stage.at_event, hads, Bool.false_and]
  | true =>
      refine .map ?_
      simp only [Stage.at_event, hads, Bool.true_and]
      exact leads_stages adDecision d.dropFrom d.click x hx

/-- An ad is requested, and then perhaps shown. -/
theorem oneAd_eq (adDecision : Bool) (podId : String) (slot playhead : ℕ) (d : AdDraws) :
    ∃ shown, oneAd adDecision podId slot playhead d =
        .adRequest d.adRequestId podId slot playhead :: shown ∧
      (shown = [] ∨ ∃ c : AdFields, c.adRequestId = d.adRequestId ∧
        shown = shownAd adDecision d c) := by
  refine ⟨_, rfl, ?_⟩
  cases d.decision adDecision with
  | none => exact .inl rfl
  | some decided =>
      obtain ⟨campaign, creative, length⟩ := decided
      dsimp only
      split_ifs
      · exact .inl rfl
      · exact .inr ⟨_, rfl, rfl⟩

theorem leads_oneAd (adDecision : Bool) (podId : String) (slot playhead : ℕ) (d : AdDraws)
    (ads : AdFields → Bool) {x : Stage × Stage} (hx : x ∈ needs adDecision) :
    Leads (x.1.at ads) (x.2.at ads) (oneAd adDecision podId slot playhead d) := by
  obtain ⟨shown, heq, hshown⟩ := oneAd_eq adDecision podId slot playhead d
  rw [heq]
  have hrequest : Leads (x.1.at ads) (x.2.at ads)
      [.adRequest d.adRequestId podId slot playhead] :=
    .of_none fun e he => by
      obtain rfl := List.mem_singleton.1 he
      exact Stage.at_of_common rfl ads x.2
  have hpixels : Leads (x.1.at ads) (x.2.at ads) shown := ?_
  · exact hrequest.append hpixels
  rcases hshown with rfl | ⟨c, -, rfl⟩
  · exact .nil
  · exact leads_shownAd adDecision d c ads hx

/-- Each stage comes once. -/
theorem countP_stages_le_one (adDecision : Bool) (dropFrom : Option (Fin 4)) (click : Bool) :
    ∀ s, (stages adDecision dropFrom click).countP (fun s' => decide (s' = s)) ≤ 1 := by
  have hnodup : ∀ adDecision dropFrom click, (stages adDecision dropFrom click).Nodup := by decide
  intro s
  refine le_trans (le_of_eq ?_) (List.nodup_iff_count_le_one.1 (hnodup adDecision dropFrom click) s)
  rw [List.count_eq_countP]
  exact List.countP_congr fun s' _ => by simp

/-- Every stage of an ad needs the request. -/
theorem leads_request_oneAd (adDecision : Bool) (podId : String) (slot playhead : ℕ) (d : AdDraws)
    (ids : String → Bool) (s : Stage) :
    Leads (ViewerEvent.requests ids) (s.at fun c => ids c.adRequestId)
      (oneAd adDecision podId slot playhead d) := by
  obtain ⟨shown, heq, hshown⟩ := oneAd_eq adDecision podId slot playhead d
  rw [heq]
  rcases hshown with rfl | ⟨c, hid, rfl⟩
  · refine .of_none fun e he => ?_
    obtain rfl := List.mem_singleton.1 he
    exact Stage.at_of_common rfl _ s
  cases hids : ids d.adRequestId with
  | false =>
      refine .of_none fun e he => ?_
      rcases List.mem_cons.1 he with rfl | he
      · exact Stage.at_of_common rfl _ s
      · rw [shownAd_eq] at he
        obtain ⟨s', -, rfl⟩ := List.mem_map.1 he
        rw [Stage.at_event, hid, hids, Bool.false_and]
  | true =>
      refine .cons_of_le_one hids (Stage.at_of_common rfl _ s) ?_
      rw [shownAd_eq, List.countP_map]
      refine le_trans (le_of_eq (List.countP_congr fun s' _ => ?_))
        (countP_stages_le_one adDecision d.dropFrom d.click s)
      rw [Function.comp, Stage.at_event, hid, hids, Bool.true_and]

/-! ## What a viewer does -/

/-- Events as a viewer makes them: those of ads, ad by ad, with others between them. -/
inductive Made (adDecision : Bool) : List ViewerEvent → Prop
  | nil : Made adDecision []
  | other {e : ViewerEvent} {events : List ViewerEvent} (h : e.common = none)
      (hrest : Made adDecision events) : Made adDecision (e :: events)
  | ad (podId : String) (slot playhead : ℕ) (d : AdDraws) {events : List ViewerEvent}
      (hrest : Made adDecision events) :
      Made adDecision (oneAd adDecision podId slot playhead d ++ events)

theorem Made.append {adDecision : Bool} {events events' : List ViewerEvent}
    (h : Made adDecision events) (h' : Made adDecision events') :
    Made adDecision (events ++ events') := by
  induction h with
  | nil => exact h'
  | other hcommon _ ih => exact ih.other hcommon
  | ad podId slot playhead d _ ih =>
      rw [List.append_assoc]
      exact ih.ad podId slot playhead d

theorem made_slots (adDecision : Bool) (pod : PodDraws) (playhead n : ℕ) (l : List ℕ) :
    Made adDecision (slots adDecision pod playhead n l).1 := by
  fun_induction slots adDecision pod playhead n l with
  | case1 n => exact .nil
  | case2 slot rest => exact .nil
  | case3 n slot rest events n' hrest ih =>
      rw [hrest] at ih
      exact ih.ad pod.podId slot playhead (pod.ads slot)

theorem made_visit (adDecision : Bool) (d : SessionDraws) (n : ℕ) (l : List Mark) :
    Made adDecision (visit adDecision d n l).1 := by
  fun_induction visit adDecision d n l with
  | case1 => exact .nil
  | case2 n => exact .other rfl (.other rfl .nil)
  | case3 n m rest hbefore ih => exact ih
  | case4 m rest hbefore => exact .nil
  | case5 m rest hbefore n habandon => exact .other rfl .nil
  | case6 m rest hbefore n habandon hkind events n' hrest ih =>
      rw [hrest] at ih
      exact .other rfl ih
  | case7 m rest hbefore n habandon hkind ads n' hads events n'' hrest ih =>
      rw [hrest] at ih
      have hbreak := made_slots adDecision (d.pods m.time) m.time n
        (List.range ((d.pods m.time).size.val + 1))
      rw [← adBreak, hads] at hbreak
      exact hbreak.append ih

theorem made_run (adDecision : Bool) (n : ℕ) (sessions : List SessionDraws) :
    Made adDecision (run adDecision n sessions) := by
  induction sessions generalizing n with
  | nil => exact .nil
  | cons d sessions ih =>
      cases n with
      | zero => exact .nil
      | succ n =>
          exact ((made_visit adDecision d n (marks d.content)).other rfl).append (ih _)

/-- What holds of every ad holds of a viewer. -/
theorem Made.leads {adDecision : Bool} {events : List ViewerEvent} {q p : ViewerEvent → Bool}
    (h : Made adDecision events) (hother : ∀ e : ViewerEvent, e.common = none → p e = false)
    (had : ∀ podId slot playhead d, Leads q p (oneAd adDecision podId slot playhead d)) :
    Leads q p events := by
  induction h with
  | nil => exact .nil
  | @other e events hcommon _ ih =>
      have hfirst : Leads q p [e] := .of_none fun e' he' => by
        obtain rfl := List.mem_singleton.1 he'
        exact hother _ hcommon
      exact hfirst.append ih
  | ad podId slot playhead d _ ih => exact (had podId slot playhead d).append ih

/-! ## Topics -/

namespace ViewerEvent

def campaignId : ViewerEvent → String
  | adRequest _ _ _ _ => "pending"
  | adResponse c => c.campaignId
  | impression c => c.campaignId
  | quartile _ c => c.campaignId
  | click c => c.campaignId
  | _ => "none"

/-- The topic of an event. -/
def topic : ViewerEvent → Topic
  | adRequest _ _ _ _ => .request
  | adResponse _ => .request
  | impression _ => .impression
  | quartile _ _ => .quartile
  | click _ => .click
  | _ => .behavior

end ViewerEvent

theorem topicFor_eventType (e : ViewerEvent) : topicFor e.eventType = some e.topic := by
  cases e <;> simp only [ViewerEvent.eventType, ViewerEvent.topic] <;> decide

/-- An event of a viewer is one that pixels can carry. -/
theorem mappable_event {b : Base} {tenths : ℚ → EventValue} {e : ViewerEvent}
    (hid : Text.isBlank b.eventId = false) (hcampaign : Text.isBlank e.campaignId = false)
    (hbounds : Text.longMin ≤ b.eventTime ∧ b.eventTime ≤ Text.longMax) :
    PixelTransport.Mappable (b.event tenths e) b.eventTime where
  identified := by
    have htype : Text.isBlank e.eventType = false := by
      cases e <;> simp only [ViewerEvent.eventType] <;> decide
    simp only [List.forall_mem_cons]
    refine ⟨⟨_, rfl, hid⟩, ⟨_, rfl, htype⟩, ⟨_, ?_, hcampaign⟩, fun _ h => absurd h (by simp)⟩
    cases e <;> rfl
  time := .inl rfl
  bounds := hbounds
  optional := by
    simp only [List.forall_mem_cons]
    refine ⟨?_, ?_, ?_, .inr ⟨_, rfl⟩, .inr ⟨_, rfl⟩, fun _ h => absurd h (by simp)⟩
    all_goals
      cases e with
      | sessionEnd playhead reason => cases playhead <;> exact .inl rfl
      | _ => first | exact .inl rfl | exact .inr ⟨_, rfl⟩

/-- The Collector routes an event of a viewer, sent as it is, to its topic. -/
theorem routed_event {b : Base} {tenths : ℚ → EventValue} {e : ViewerEvent}
    (hid : Text.isBlank b.eventId = false) (hcampaign : Text.isBlank e.campaignId = false)
    (hbounds : Text.longMin ≤ b.eventTime ∧ b.eventTime ≤ Text.longMax) {now : Instant}
    (hahead : ¬ EventValidator.TooFarAhead now (.ofEpochMilli b.eventTime)) :
    EventIngestService.Routed now (.obj (b.event tenths e).json) (.ofEpochMilli b.eventTime)
      e.topic := by
  have hmappable : PixelTransport.Mappable (b.event tenths e) b.eventTime :=
    mappable_event hid hcampaign hbounds
  obtain ⟨essentials, htime, hcarries⟩ := PixelTransport.exists_essentials hmappable
  have htype : essentials.eventType = e.eventType := by
    have hget : (b.event tenths e).get "event_type" = some (.str e.eventType) := rfl
    rw [hcarries.eventType] at hget
    exact EventValue.str.inj (Option.some.inj hget)
  refine (PixelTransport.describes_json hmappable hcarries htime).routed_iff.2
    ⟨by rwa [htime], htime.symm, ?_⟩
  rw [htype, topicFor_eventType]

/-! ## Any number of viewers -/

section

variable {ι : Type*} [Fintype ι] [DecidableEq ι]

/-- The traffic so far is an interleaving of what the viewers have done so far: each has run some
sessions, up to where it is. -/
def Traffic (adDecision : Bool) (viewers : ι → ℕ × List SessionDraws)
    (t : List (ι × ViewerEvent)) : Prop :=
  ∀ i, projection i t <+: run adDecision (viewers i).1 (viewers i).2

/-- How many events of a kind there are. -/
def occurrences (p : ViewerEvent → Bool) (t : List (ι × ViewerEvent)) : ℕ :=
  t.countP fun x => p x.2

omit [Fintype ι] [DecidableEq ι] in
theorem topic_click (t : List (ι × ViewerEvent)) :
    occurrences (fun e => e.topic = .click) t = occurrences (Stage.click.at fun _ => true) t := by
  refine List.countP_congr fun x _ => ?_
  cases x with
  | mk i e => cases e <;> simp [ViewerEvent.topic, Stage.at, ViewerEvent.common, Stage.event]

omit [Fintype ι] [DecidableEq ι] in
theorem topic_impression (t : List (ι × ViewerEvent)) :
    occurrences (fun e => e.topic = .impression) t =
      occurrences (Stage.impression.at fun _ => true) t := by
  refine List.countP_congr fun x _ => ?_
  cases x with
  | mk i e => cases e <;> simp [ViewerEvent.topic, Stage.at, ViewerEvent.common, Stage.event]

/-- The funnel: for any choice of ads there are at least as many events of a stage as of those that
need it, and at least as many requests as events of any stage, and so it goes for the topics. An ad
requested once has each stage at most once. -/
structure Funnel (adDecision : Bool) (t : List (ι × ViewerEvent)) : Prop where
  stages : ∀ ads : AdFields → Bool, ∀ x ∈ needs adDecision,
    occurrences (x.2.at ads) t ≤ occurrences (x.1.at ads) t
  requests : ∀ (ids : String → Bool) (s : Stage),
    occurrences (s.at fun c => ids c.adRequestId) t ≤ occurrences (ViewerEvent.requests ids) t
  topics : occurrences (fun e => e.topic = .click) t ≤
      occurrences (fun e => e.topic = .impression) t ∧
    occurrences (fun e => e.topic = .impression) t ≤ occurrences (fun e => e.topic = .request) t
  once : ∀ id, occurrences (ViewerEvent.requests fun id' => id' = id) t ≤ 1 →
    ∀ s : Stage, occurrences (s.at fun c => c.adRequestId = id) t ≤ 1

omit [Fintype ι] [DecidableEq ι] in
/-- Whatever the viewers do, in whatever order, the traffic is a funnel. -/
theorem funnel [Fintype ι] [DecidableEq ι] (adDecision : Bool)
    (viewers : ι → ℕ × List SessionDraws) {t : List (ι × ViewerEvent)}
    (h : Traffic adDecision viewers t) : Funnel adDecision t := by
  have hleads : ∀ {q p : ViewerEvent → Bool},
      (∀ e : ViewerEvent, e.common = none → p e = false) →
      (∀ podId slot playhead d, Leads q p (oneAd adDecision podId slot playhead d)) →
      occurrences p t ≤ occurrences q t := by
    intro q p hother had
    have hviewer : ∀ i, Leads q p (projection i t) := fun i =>
      ((made_run adDecision _ _).leads hother had).of_isPrefix (h i)
    exact (Leads.interleave hviewer).countP_le
  have hrequests : ∀ (ids : String → Bool) (s : Stage),
      occurrences (s.at fun c => ids c.adRequestId) t ≤
        occurrences (ViewerEvent.requests ids) t := by
    intro ids s
    exact hleads (fun e he => Stage.at_of_common he _ s) fun podId slot playhead d =>
      leads_request_oneAd adDecision podId slot playhead d ids s
  have hstages : ∀ ads : AdFields → Bool, ∀ x ∈ needs adDecision,
      occurrences (x.2.at ads) t ≤ occurrences (x.1.at ads) t := by
    intro ads x hx
    exact hleads (fun e he => Stage.at_of_common he ads x.2) fun podId slot playhead d =>
      leads_oneAd adDecision podId slot playhead d ads hx
  -- a click needs an impression by way of the quartiles between them
  have hclick : occurrences (Stage.click.at fun _ => true) t ≤
      occurrences (Stage.impression.at fun _ => true) t :=
    calc occurrences (Stage.click.at fun _ => true) t
        ≤ occurrences ((Stage.quartile 2).at fun _ => true) t :=
          hstages _ _ (mem_needs adDecision (.quartile 2, .click) (by decide))
      _ ≤ occurrences ((Stage.quartile 1).at fun _ => true) t :=
          hstages _ _ (mem_needs adDecision (.quartile 1, .quartile 2) (by decide))
      _ ≤ occurrences ((Stage.quartile 0).at fun _ => true) t :=
          hstages _ _ (mem_needs adDecision (.quartile 0, .quartile 1) (by decide))
      _ ≤ occurrences (Stage.impression.at fun _ => true) t :=
          hstages _ _ (mem_needs adDecision (.impression, .quartile 0) (by decide))
  refine ⟨hstages, hrequests, ⟨?_, ?_⟩, fun id hid s => ?_⟩
  · rwa [topic_click, topic_impression]
  · rw [topic_impression]
    refine (hrequests (fun _ => true) .impression).trans ?_
    exact List.countP_mono_left fun x _ hx => by
      cases x with
      | mk i e => cases e <;> first | rfl | cases hx
  · exact (hrequests (fun id' => id' = id) s).trans hid

end

/-- An ad that ad-decision fills. -/
def sampleAd (id : String) (dropFrom : Option (Fin 4)) : AdDraws where
  adRequestId := id
  reply := some ⟨true, "cmp-1001", none, some 15⟩
  campaign := ⟨0, by decide⟩
  creative := fun creatives => creatives.headD ""
  adLength := ⟨0, by decide⟩
  dropImpression := false
  dropFrom := dropFrom
  click := true

/-- A session with an ad break at its start and a ping. -/
def sampleSession (id : String) (dropFrom : Option (Fin 4)) : SessionDraws where
  content := ⟨"ct-1", "vod", 40, [0]⟩
  startPos := 0
  abandonAt := none
  pods := fun _ => ⟨"pod-1", ⟨0, by decide⟩, fun _ => sampleAd id dropFrom⟩

/-- Two viewers, one of whom leaves the ad after its first quartile. -/
def sampleViewers : Bool → ℕ × List SessionDraws
  | true => (9, [sampleSession "req-1" none])
  | false => (9, [sampleSession "req-2" (some 1)])

/-- The second viewer shows up in the middle of the session of the first, and is cancelled. -/
def sampleTraffic : List (Bool × ViewerEvent) :=
  let events := fun i => run true (sampleViewers i).1 (sampleViewers i).2
  ((events true).take 4).map (Prod.mk true) ++ ((events false).take 5).map (Prod.mk false) ++
    ((events true).drop 4).map (Prod.mk true)

theorem funnel_cancelled : Funnel true sampleTraffic ∧
    occurrences (fun e => e.topic = .click) sampleTraffic = 1 ∧
    occurrences (fun e => e.topic = .impression) sampleTraffic = 2 ∧
    occurrences (Stage.at (fun _ => true) (.quartile 2)) sampleTraffic = 1 := by
  refine ⟨funnel true sampleViewers fun i => ?_, by decide, by decide, by decide⟩
  cases i <;> decide

end AdPipeline.Generator
