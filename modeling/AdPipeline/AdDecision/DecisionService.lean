import AdPipeline.AdDecision.CampaignCache
import AdPipeline.Lib.Transition
import AdPipeline.Platform.Json
import Mathlib.Logic.Function.Basic

/-!
# Ad decisions

`decide` of `DecisionService.kt` reads the campaign cache up to three times, while `refresh` sets
its two references one after the other. Every read and every set is a step of its own, so that a
run is one interleaving of any number of calls with the refreshes.

What a call says of its ad is coherent unless the creatives it reads do not know the campaign, the
slot is shorter than 15 seconds, or the list it found empty is no longer empty when it is asked for
the reason (`coherent_iff`).
-/

namespace AdPipeline.AdDecision

open Lib

structure AdRequest where
  adRequestId : Option String
  sessionId : Option String
  userId : Option String
  contentId : Option String
  device : Option String
  adPodId : Option String
  adSlot : ℤ
  playheadS : Double
  maxDurationS : ℤ
  preferCampaignId : Option String
  forceNoFill : Bool

structure TrackingEvent where
  event : String
  quartile : Option String
  offsetPct : ℚ

structure AdResponse where
  adRequestId : String
  fill : Bool
  noFillReason : Option String
  campaignId : Option String
  campaignName : Option String
  advertiser : Option String
  vertical : Option String
  cpm : Option ℚ
  creativeId : Option String
  adDurationS : Option ℤ
  skippableAfterS : Option ℤ
  clickThroughUrl : Option String
  trackingEvents : List TrackingEvent

structure AdDecisionProperties where
  noFillRate : ℚ
  skippableAfterS : ℤ

/-- What the random generator gives a call. -/
structure Draws where
  fill : ℚ
  pickInt : ℕ
  pickDouble : ℚ
  creative : ℕ
  longer : Bool

/-- A call of `decide`: its request, its draws, and the ids and the time it makes up. -/
structure Call where
  req : AdRequest
  draws : Draws
  newRequestId : String
  eventId : String
  eventTime : String

/-- The row inserted into `event_outbox`. -/
structure OutboxInsert where
  eventId : String
  eventType : String
  aggregateId : String
  payload : Fields

/-- What a call has committed and returned. The list of campaigns that it saw is kept for
reference: the one `pick` read, or else the one `size` read. -/
structure Decision where
  request : AdRequest
  response : AdResponse
  outbox : OutboxInsert
  seen : Option (List Campaign)

/-- The beacons of a filled response. -/
def trackingEvents : List TrackingEvent :=
  [⟨"impression", none, 0⟩, ⟨"quartile", some "start", 0⟩,
    ⟨"quartile", some "first_quartile", 1 / 4⟩, ⟨"quartile", some "midpoint", 1 / 2⟩,
    ⟨"quartile", some "third_quartile", 3 / 4⟩, ⟨"quartile", some "complete", 1⟩]

variable (props : AdDecisionProperties)

/-- `wantFill`. -/
def wantFill (call : Call) : Bool :=
  !call.req.forceNoFill && props.noFillRate ≤ call.draws.fill

/-- The reason of a response without an ad, on the list that `size` has read. -/
def noFillReason (call : Call) (cache : List Campaign) : String :=
  if call.req.forceNoFill then "policy"
  else if cache.length = 0 then "no_campaign"
  else "budget_exhausted"

/-- `duration`. -/
def duration (call : Call) (filled : Bool) : Option ℤ :=
  if filled then (if 30 ≤ call.req.maxDurationS && call.draws.longer then some 30 else some 15)
  else none

/-- `arid`. -/
def arid (call : Call) : String := call.req.adRequestId.getD call.newRequestId

/-- The payload of the outbox row. -/
def payload (call : Call) (campaign : Option Campaign) (creative : Option String) : Fields :=
  let text : Option String → Json := fun s => s.elim .null .str
  [("event_id", .str call.eventId),
    ("event_type", .str "ad_response"),
    ("campaign_id", .str ((campaign.map Campaign.campaignId).getD "nofill")),
    ("event_time", .str call.eventTime),
    ("ad_request_id", .str (arid call)),
    ("creative_id", text creative),
    ("ad_duration_s", (duration call campaign.isSome).elim .null .int),
    ("fill", .bool campaign.isSome),
    ("session_id", text call.req.sessionId),
    ("user_id", text call.req.userId),
    ("content_id", text call.req.contentId),
    ("device", text call.req.device),
    ("ad_pod_id", text call.req.adPodId),
    ("ad_slot", .int call.req.adSlot),
    ("playhead_s", .double call.req.playheadS),
    ("source", .str "server"),
    ("transport", .str "outbox")]

/-- The insert and the response at the end of `decide`. -/
def finish (call : Call) (campaign : Option Campaign) (reason creative : Option String)
    (seen : Option (List Campaign)) : Decision where
  request := call.req
  response :=
    { adRequestId := arid call
      fill := campaign.isSome
      noFillReason := reason
      campaignId := campaign.map Campaign.campaignId
      campaignName := campaign.map Campaign.name
      advertiser := campaign.map Campaign.advertiser
      vertical := campaign.map Campaign.vertical
      cpm := campaign.map Campaign.cpm
      creativeId := creative
      adDurationS := duration call campaign.isSome
      skippableAfterS := if campaign.isSome then some props.skippableAfterS else none
      clickThroughUrl := campaign.map fun c =>
        "https://ads.example.com/click/" ++ c.campaignId ++ "?arid=" ++ arid call
      trackingEvents := if campaign.isSome then trackingEvents else [] }
  outbox :=
    { eventId := call.eventId
      eventType := "ad_response"
      aggregateId := arid call
      payload := payload call campaign creative }
  seen := seen

/-! ## Steps -/

/-- The read of the cache that a call does next. -/
inductive Phase where
  | idle
  /-- `byId`. -/
  | preferring (call : Call)
  /-- `pick`. -/
  | picking (call : Call)
  /-- `creativeFor`. -/
  | choosing (call : Call) (campaign : Campaign)
  /-- `size`, behind a `pick` that found nothing in the list it saw or without one. -/
  | reasoning (call : Call) (seen : Option (List Campaign))

/-- A call up to its first read. -/
def begin (call : Call) : Phase × Option Decision :=
  if wantFill props call then
    if call.req.preferCampaignId.all Text.isBlank then (.picking call, none)
    else (.preferring call, none)
  else if call.req.forceNoFill then
    (.idle, some (finish props call none (some "policy") none none))
  else (.reasoning call none, none)

/-- A call from one read up to the next. -/
def resume (caches : CampaignCache) : Phase → Option (Phase × Option Decision)
  | .idle => none
  | .preferring call =>
    match byId call.req.preferCampaignId caches.cache with
    | some campaign => some (.choosing call campaign, none)
    | none => some (.picking call, none)
  | .picking call =>
    match pick call.draws.pickInt call.draws.pickDouble caches.cache with
    | some campaign => some (.choosing call campaign, none)
    | none => some (.reasoning call (some caches.cache), none)
  | .choosing call campaign =>
    let creative := creativeFor call.draws.creative campaign.campaignId caches.creatives
    some (.idle, some (finish props call (some campaign) none (some creative) none))
  | .reasoning call seen =>
    let reason := noFillReason call caches.cache
    some (.idle, some (finish props call none (some reason) none (some (seen.getD caches.cache))))

/-- The cache, the rows of a refresh that has not set the creatives yet, the calls, and the
decisions made. -/
structure State (D : Type) where
  caches : CampaignCache
  refreshing : Option (List Campaign)
  phases : D → Phase
  decisions : List Decision

inductive Action (D : Type) where
  | start (d : D) (call : Call)
  | read (d : D)
  /-- `refresh` has read the active campaigns and sets the list. -/
  | setCache (rows : List Campaign)
  | setCreatives

variable {D : Type} [DecidableEq D]

/-- A call has moved on. -/
def State.move (s : State D) (d : D) (x : Phase × Option Decision) : State D :=
  { s with phases := Function.update s.phases d x.1, decisions := x.2.toList ++ s.decisions }

def step (s : State D) : Action D → Option (State D)
  | .start d call =>
    match s.phases d with
    | .idle => some (s.move d (begin props call))
    | _ => none
  | .read d => (resume props s.caches (s.phases d)).map (s.move d)
  | .setCache rows =>
    match s.refreshing with
    | none => some { s with caches := { s.caches with cache := rows }, refreshing := some rows }
    | some _ => none
  | .setCreatives => s.refreshing.map fun rows =>
    { s with caches := { s.caches with creatives := associateCreatives rows }, refreshing := none }

/-- The service, started with empty references. -/
def service (D : Type) [DecidableEq D] : System (State D) (Action D) where
  init := ⟨⟨[], []⟩, none, fun _ => .idle, []⟩
  step := step props

/-! ## Coherent decisions -/

/-- What a response says makes up an ad or none, and the payload says the same. -/
structure Coherent (x : Decision) : Prop where
  filled : x.response.fill = true → ∃ campaignId creativeId adDurationS,
    x.response.campaignId = some campaignId ∧ x.response.creativeId = some creativeId ∧
    creativeId ∈ (creativesOf campaignId).names ∧ creativeId ≠ "crt-unknown" ∧
    x.response.adDurationS = some adDurationS ∧ adDurationS ≤ x.request.maxDurationS ∧
    x.outbox.payload.get "campaign_id" = some (.str campaignId) ∧
    x.outbox.payload.get "creative_id" = some (.str creativeId) ∧
    x.outbox.payload.get "ad_duration_s" = some (.int adDurationS) ∧
    x.outbox.payload.get "fill" = some (.bool true)
  unfilled : x.response.fill = false →
    x.response.creativeId = none ∧ x.response.adDurationS = none ∧
    x.outbox.payload.get "campaign_id" = some (.str "nofill") ∧
    x.outbox.payload.get "fill" = some (.bool false) ∧
    (x.response.noFillReason = some "no_campaign" ↔
      x.seen = some [] ∧ x.request.forceNoFill = false)

/-- A read that leads to a coherent decision: `creativeFor` finds the campaign that was chosen, for
a request that admits 15 seconds, and after a `pick` in an empty list `size` finds it empty too. -/
def CoherentStep (s : State D) : Action D → Prop
  | .read d =>
    match s.phases d with
    | .choosing call campaign =>
      campaign.campaignId ∈ s.caches.creatives.map Prod.fst ∧ 15 ≤ call.req.maxDurationS
    | .reasoning _ (some _) => s.caches.cache = []
    | _ => True
  | _ => True

/-- A creative of a campaign is a known one. -/
theorem ne_unknown {campaignId name : String} (h : name ∈ (creativesOf campaignId).names) :
    name ≠ "crt-unknown" := by
  rintro rfl
  have hlast : ∀ s : String, "crt-unknown" = s ++ "-a" ∨ "crt-unknown" = s ++ "-b" → False := by
    rintro s (h | h)
    · have hend := Text.endsWith_append s "-a"
      rw [← h] at hend
      exact absurd hend (by decide)
    · have hend := Text.endsWith_append s "-b"
      rw [← h] at hend
      exact absurd hend (by decide)
  simp only [creativesOf, List.mem_cons, List.not_mem_nil, or_false] at h
  exact hlast _ h

/-- What `refresh` keeps: the creatives of a campaign follow from its id. -/
def CreativesOk (creatives : List (String × Creatives)) : Prop :=
  ∀ x ∈ creatives, x.2 = creativesOf x.1

/-- A known campaign has one of its creatives chosen, an unknown one has none. -/
theorem creativeFor_mem_iff {creatives : List (String × Creatives)} (h : CreativesOk creatives)
    (draw : ℕ) (campaignId : String) :
    creativeFor draw campaignId creatives ∈ (creativesOf campaignId).names ↔
      campaignId ∈ creatives.map Prod.fst := by
  unfold creativeFor
  cases hentry : entry campaignId creatives with
  | none =>
      refine iff_of_false (fun hmem => ne_unknown hmem rfl) ?_
      exact entry_eq_none_iff.1 hentry
  | some list =>
      have hmem := mem_of_entry hentry
      obtain rfl : list = creativesOf campaignId := h _ hmem
      exact iff_of_true (List.get_mem _ _) (List.mem_map_of_mem hmem)

/-- The duration of an ad fits in the slot exactly when 15 seconds do. -/
theorem duration_le_iff (call : Call) :
    ∃ seconds, duration call true = some seconds ∧
      (seconds ≤ call.req.maxDurationS ↔ 15 ≤ call.req.maxDurationS) := by
  rw [duration, if_pos rfl]
  split_ifs with hlong
  · simp only [Bool.and_eq_true, decide_eq_true_eq] at hlong
    exact ⟨30, rfl, by omega⟩
  · exact ⟨15, rfl, Iff.rfl⟩

/-- A filled decision is coherent when its campaign is known to have the creative and the slot
admits 15 seconds. -/
theorem coherent_filled_iff (call : Call) (campaign : Campaign) (creative : String) :
    Coherent (finish props call (some campaign) none (some creative) none) ↔
      creative ∈ (creativesOf campaign.campaignId).names ∧ 15 ≤ call.req.maxDurationS := by
  obtain ⟨seconds, hseconds, hfits⟩ := duration_le_iff call
  constructor
  · intro h
    obtain ⟨campaignId, creativeId, adDurationS, hcampaign, hcreative, hmem, -, hduration, hle,
      -⟩ := h.filled rfl
    obtain rfl := Option.some.inj hcampaign
    obtain rfl := Option.some.inj hcreative
    obtain rfl := Option.some.inj (hseconds.symm.trans hduration)
    exact ⟨hmem, hfits.1 hle⟩
  · rintro ⟨hmem, hmax⟩
    refine ⟨fun _ => ⟨campaign.campaignId, creative, seconds, rfl, rfl, hmem, ne_unknown hmem,
      hseconds, hfits.2 hmax, rfl, rfl, ?_, rfl⟩, fun hfill => absurd hfill.symm Bool.false_ne_true⟩
    show some ((duration call true).elim Json.null Json.int) = _
    rw [hseconds]
    rfl

/-- The reason of a request that was not forced says whether `size` found no campaign. -/
theorem noFillReason_eq_iff {call : Call} (h : call.req.forceNoFill = false)
    (cache : List Campaign) : noFillReason call cache = "no_campaign" ↔ cache = [] := by
  rw [noFillReason, h, if_neg Bool.false_ne_true]
  split_ifs with hempty
  · exact iff_of_true rfl (List.length_eq_zero_iff.1 hempty)
  · exact iff_of_false (by decide) fun hnil => hempty (List.length_eq_zero_iff.2 hnil)

/-- A decision without an ad is coherent when its reason is right. -/
theorem coherent_unfilled_iff (call : Call) (reason : String) (seen : Option (List Campaign)) :
    Coherent (finish props call none (some reason) none seen) ↔
      (reason = "no_campaign" ↔ seen = some [] ∧ call.req.forceNoFill = false) := by
  constructor
  · intro h
    obtain ⟨-, -, -, -, hreason⟩ := h.unfilled rfl
    exact Option.some_inj.symm.trans hreason
  · intro h
    refine ⟨fun hfill => absurd hfill Bool.false_ne_true, fun _ => ⟨rfl, rfl, rfl, rfl, ?_⟩⟩
    exact Option.some_inj.trans h

/-! ## Runs -/

/-- What a call knows between two reads. -/
def Phase.Ok : Phase → Prop
  | .idle => True
  | .preferring call => call.req.forceNoFill = false
  | .picking call => call.req.forceNoFill = false
  | .choosing _ _ => True
  | .reasoning call seen => call.req.forceNoFill = false ∧ ∀ list, seen = some list → list = []

/-- What holds of the references and the calls in every run. -/
structure Inv (s : State D) : Prop where
  creatives : CreativesOk s.caches.creatives
  phases : ∀ d, (s.phases d).Ok

theorem creativesOk_associateCreatives (rows : List Campaign) :
    CreativesOk (associateCreatives rows) := by
  intro x hx
  obtain ⟨c, -, rfl⟩ := List.mem_map.1 hx
  rfl

theorem not_forced_of_wantFill {call : Call} (h : wantFill props call = true) :
    call.req.forceNoFill = false := by
  rw [wantFill, Bool.and_eq_true, Bool.not_eq_true'] at h
  exact h.1

theorem begin_ok (call : Call) : (begin props call).1.Ok := by
  unfold begin
  split_ifs with hwant hblank hforce
  · exact not_forced_of_wantFill props hwant
  · exact not_forced_of_wantFill props hwant
  · trivial
  · exact ⟨Bool.not_eq_true _ ▸ hforce, fun list h => by cases h⟩

theorem resume_ok {caches : CampaignCache} {phase : Phase} (h : phase.Ok)
    {x : Phase × Option Decision} (hx : resume props caches phase = some x) : x.1.Ok := by
  cases phase with
  | idle => cases hx
  | preferring call =>
      simp only [resume] at hx
      split at hx
      · obtain rfl := Option.some.inj hx
        trivial
      · obtain rfl := Option.some.inj hx
        exact h
  | picking call =>
      simp only [resume] at hx
      split at hx
      · obtain rfl := Option.some.inj hx
        trivial
      · rename_i hnone
        obtain rfl := Option.some.inj hx
        refine ⟨h, fun list hlist => ?_⟩
        rw [← Option.some.inj hlist]
        exact pick_eq_none hnone
  | choosing call campaign =>
      obtain rfl := Option.some.inj hx
      trivial
  | reasoning call seen =>
      obtain rfl := Option.some.inj hx
      trivial

theorem Inv.move {s : State D} (h : Inv s) (d : D) {x : Phase × Option Decision} (hx : x.1.Ok) :
    Inv (s.move d x) := by
  refine ⟨h.creatives, fun d' => ?_⟩
  show (Function.update s.phases d x.1 d').Ok
  by_cases hd : d' = d
  · subst hd
    rwa [Function.update_self]
  · rw [Function.update_of_ne hd]
    exact h.phases d'

/-- The decision that a step makes. -/
def made (s : State D) : Action D → Option Decision
  | .start _ call => (begin props call).2
  | .read d => (resume props s.caches (s.phases d)).bind Prod.snd
  | _ => none

/-- A step keeps the invariant and adds the decision that it makes. -/
theorem step_spec {s t : State D} {a : Action D} (h : Inv s) (hst : step props s a = some t) :
    Inv t ∧ t.decisions = (made props s a).toList ++ s.decisions := by
  cases a with
  | start d call =>
      simp only [step] at hst
      split at hst
      · obtain rfl := Option.some.inj hst
        exact ⟨h.move d (begin_ok props call), rfl⟩
      · cases hst
  | read d =>
      obtain ⟨x, hx, rfl⟩ := Option.map_eq_some_iff.1 hst
      refine ⟨h.move d (resume_ok props (h.phases d) hx), ?_⟩
      rw [made, hx]
      rfl
  | setCache rows =>
      simp only [step] at hst
      split at hst
      · obtain rfl := Option.some.inj hst
        exact ⟨⟨h.creatives, h.phases⟩, rfl⟩
      · cases hst
  | setCreatives =>
      obtain ⟨rows, -, rfl⟩ := Option.map_eq_some_iff.1 hst
      exact ⟨⟨creativesOk_associateCreatives rows, h.phases⟩, rfl⟩

omit [DecidableEq D] in
/-- A decision is coherent exactly when the read that leads to it is. -/
theorem coherent_made_iff {s : State D} {a : Action D} (h : Inv s) {x : Decision}
    (hx : made props s a = some x) : Coherent x ↔ CoherentStep s a := by
  cases a with
  | start d call =>
      refine iff_of_true ?_ trivial
      simp only [made, begin] at hx
      split_ifs at hx
      · obtain rfl := Option.some.inj hx
        refine (coherent_unfilled_iff props call "policy" none).2 (iff_of_false (by decide) ?_)
        rintro ⟨hseen, -⟩
        cases hseen
  | read d =>
      have hphase := h.phases d
      simp only [made] at hx
      simp only [CoherentStep]
      cases hd : s.phases d with
      | idle =>
          rw [hd] at hx
          cases hx
      | preferring call =>
          simp only [hd, resume] at hx
          split at hx <;> cases hx
      | picking call =>
          simp only [hd, resume] at hx
          split at hx <;> cases hx
      | choosing call campaign =>
          rw [hd] at hx
          obtain rfl := Option.some.inj hx
          exact (coherent_filled_iff props call campaign _).trans
            (and_congr_left' (creativeFor_mem_iff h.creatives _ _))
      | reasoning call seen =>
          rw [hd] at hx hphase
          obtain rfl := Option.some.inj hx
          obtain ⟨hforce, hempty⟩ := hphase
          refine (coherent_unfilled_iff props call _ _).trans ?_
          rw [noFillReason_eq_iff hforce]
          cases seen with
          | none => simp [hforce]
          | some list =>
              obtain rfl := hempty list rfl
              simp [hforce]
  | setCache rows => cases hx
  | setCreatives => cases hx

/-- A step that makes no decision has nothing to be coherent about. -/
theorem coherentStep_of_made_none {s t : State D} {a : Action D}
    (hst : step props s a = some t) (h : made props s a = none) : CoherentStep s a := by
  cases a with
  | start d call => trivial
  | read d =>
      simp only [CoherentStep]
      cases hd : s.phases d with
      | idle => trivial
      | preferring call => trivial
      | picking call => trivial
      | choosing call campaign =>
          simp only [made, hd, resume] at h
          cases h
      | reasoning call seen =>
          simp only [made, hd, resume] at h
          cases h
  | setCache rows => trivial
  | setCreatives => trivial

theorem inv_of_reaches {ok : State D → Action D → Prop} {s : State D}
    (h : (service props D).Reaches ok s) : Inv s := by
  refine System.Reaches.invariant (I := Inv) ?_ ?_ h
  · exact ⟨fun x hx => absurd hx List.not_mem_nil, fun d => trivial⟩
  · intro s a t _ hs _ hst
    exact (step_spec props hs hst).1

/-- In every run the decisions made are coherent exactly when every step was. -/
theorem coherent_iff {s : State D} (h : (service props D).Reachable s) :
    (∀ x ∈ s.decisions, Coherent x) ↔ (service props D).Reaches CoherentStep s := by
  constructor
  · intro hall
    induction h with
    | init => exact .init
    | @step s t a hs _ hst ih =>
        have hinv := inv_of_reaches props hs
        obtain ⟨-, hadded⟩ := step_spec props hinv hst
        rw [hadded] at hall
        refine .step (ih fun x hx => hall x (List.mem_append_right _ hx)) ?_ hst
        -- the decision that the step makes is among them
        cases hmade : made props s a with
        | none => exact coherentStep_of_made_none props hst hmade
        | some x =>
            refine (coherent_made_iff props hinv hmade).1 (hall x (List.mem_append_left _ ?_))
            rw [hmade]
            exact List.mem_singleton_self x
  · intro hreach
    refine System.Reaches.invariant (I := fun s => ∀ x ∈ s.decisions, Coherent x) ?_ ?_ hreach
    · exact fun x hx => absurd hx List.not_mem_nil
    · intro s a t hs hall hok hst x hx
      have hinv := inv_of_reaches props hs
      rw [(step_spec props hinv hst).2] at hx
      rcases List.mem_append.1 hx with hnew | hold
      · refine (coherent_made_iff props hinv ?_).2 hok
        exact Option.mem_toList.1 hnew
      · exact hall x hold

/-- A request for a slot, for a campaign or for any. -/
def sampleCall (maxDurationS : ℤ) (preferCampaignId : Option String) : Call where
  req :=
    { adRequestId := some "req-1", sessionId := none, userId := none, contentId := none,
      device := none, adPodId := none, adSlot := 0, playheadS := .finite 0 "0.0",
      maxDurationS := maxDurationS, preferCampaignId := preferCampaignId, forceNoFill := false }
  draws := ⟨1, 0, 0, 0, false⟩
  newRequestId := "req-new"
  eventId := "evt-outbox-1"
  eventTime := "2026-01-01T00:00:00Z"

def sampleProps : AdDecisionProperties := ⟨0, 5⟩

/-- A run that decides for the campaign preferred. -/
theorem coherent_preferred :
    ∃ s : State Unit, s.decisions.map (fun x => x.response.creativeId) = [some "crt-1-a"] ∧
      ∀ x ∈ s.decisions, Coherent x := by
  have h0 : (service sampleProps Unit).Reaches CoherentStep (service sampleProps Unit).init := .init
  have h1 := h0.take (.setCache [sampleCampaign "cmp-1" 3]) trivial rfl
  have h2 := h1.take .setCreatives trivial rfl
  have h3 := h2.take (.start () (sampleCall 30 (some "cmp-1"))) trivial rfl
  have h4 := h3.take (.read ()) trivial rfl
  have h5 := h4.take (.read ()) (by exact ⟨List.mem_singleton_self _, by decide⟩) rfl
  exact ⟨_, by decide, (coherent_iff sampleProps h5.reachable).2 h5⟩

/-- An ad longer than its slot, an unknown creative between the two sets of a refresh, and a budget
said to be exhausted when the list that `pick` saw was empty. -/
theorem incoherent_decisions :
    (∃ s, (service sampleProps Unit).Reachable s ∧ ∃ x ∈ s.decisions, ¬ Coherent x ∧
      x.request.maxDurationS = 10 ∧ x.response.adDurationS = some 15) ∧
    (∃ s, (service sampleProps Unit).Reachable s ∧ ∃ x ∈ s.decisions, ¬ Coherent x ∧
      x.response.creativeId = some "crt-unknown") ∧
    ∃ s, (service sampleProps Unit).Reachable s ∧ ∃ x ∈ s.decisions, ¬ Coherent x ∧
      x.seen = some [] ∧ x.response.noFillReason = some "budget_exhausted" := by
  have h0 : (service sampleProps Unit).Reachable (service sampleProps Unit).init := .init
  have hset := h0.step (a := .setCache [sampleCampaign "cmp-1" 3]) rfl
  refine ⟨?_, ?_, ?_⟩
  · have h1 := hset.step (a := .setCreatives) rfl
    have h2 := h1.step (a := .start () (sampleCall 10 (some "cmp-1"))) rfl
    have h3 := h2.step (a := .read ()) rfl
    refine ⟨_, h3.step (a := .read ()) rfl, _, List.mem_cons_self, ?_, rfl, rfl⟩
    exact fun h => absurd ((coherent_filled_iff _ _ _ _).1 h).2 (by decide)
  · have h1 := hset.step (a := .start () (sampleCall 30 (some "cmp-1"))) rfl
    have h2 := h1.step (a := .read ()) rfl
    refine ⟨_, h2.step (a := .read ()) rfl, _, List.mem_cons_self, ?_, rfl⟩
    exact fun h => absurd rfl (ne_unknown ((coherent_filled_iff _ _ _ _).1 h).1)
  · have h1 := h0.step (a := .start () (sampleCall 30 none)) rfl
    have h2 := h1.step (a := .read ()) rfl
    have h3 := h2.step (a := .setCache [sampleCampaign "cmp-1" 3]) rfl
    refine ⟨_, h3.step (a := .read ()) rfl, _, List.mem_cons_self, ?_, rfl, rfl⟩
    exact fun h => absurd (((coherent_unfilled_iff _ _ _ _).1 h).2 ⟨rfl, rfl⟩) (by decide)

end AdPipeline.AdDecision
