import AdPipeline.Collector.PixelSender
import Mathlib.Data.List.Sort
import Mathlib.Data.Rat.Defs

/-!
# The viewers of the traffic generator

A viewer watches one content after the other. Progress pings and ad breaks lie on one timeline, an
ad break shows up to three ads, and each ad goes from its request to a click as far as the draws let
it. `watch` is the list of events that a session hands to `emit`, in order.

What is random, and what ad-decision answers, is given with the session. `stop_event` is set once
and for all: a run is given the number of its checks that still find it unset. Times are seconds of
the content, and the sleeps between the events are left out.
-/

namespace AdPipeline.Generator

open Collector (Event EventValue)

/-! ## The catalog -/

/-- `Content`. -/
structure Content where
  contentId : String
  kind : String
  durationS : ℕ
  adBreaks : List ℕ

/-- `range(start, stop, step)`. -/
def range (start stop step : ℕ) : List ℕ :=
  List.range' start ((stop - start + step - 1) / step) step

/-- `CATALOG`. -/
def catalog : List Content :=
  [⟨"ct-kbo-0912", "live", 10800, range 600 10800 600⟩,
    ⟨"ct-drama-201", "vod", 3600, [0, 900, 1800, 2700]⟩,
    ⟨"ct-movie-77", "vod", 7200, [0, 1800, 3600, 5400]⟩,
    ⟨"ct-var-33", "vod", 4500, [0, 1200, 2400, 3600]⟩,
    ⟨"ct-news-live", "live", 10800, range 900 10800 900⟩]

/-- `CAMPAIGN_IDS`. -/
def campaignIds : List String := ["cmp-1001", "cmp-1002", "cmp-1003", "cmp-1004", "cmp-1005"]

/-- `CREATIVES.get(campaign, ["crt-unknown"])`. -/
def creativesOf (campaign : String) : List String :=
  match campaign with
  | "cmp-1001" => ["crt-1001-a", "crt-1001-b"]
  | "cmp-1002" => ["crt-1002-a", "crt-1002-b"]
  | "cmp-1003" => ["crt-1003-a", "crt-1003-b"]
  | "cmp-1004" => ["crt-1004-a", "crt-1004-b"]
  | "cmp-1005" => ["crt-1005-a", "crt-1005-b"]
  | _ => ["crt-unknown"]

/-- `AD_LENGTHS`. -/
def adLengths : List ℕ := [15, 15, 15, 30]

/-- The names of `QUARTILES`. -/
def quartileNames : List String :=
  ["start", "first_quartile", "midpoint", "third_quartile", "complete"]

/-- `PROGRESS_INTERVAL_S`. -/
def progressInterval : ℕ := 30

/-! ## Events -/

/-- `common`, what the events of a shown ad have in common. -/
structure AdFields where
  campaignId : String
  adRequestId : String
  creativeId : String
  adPodId : String
  adSlot : ℕ
  adDurationS : ℕ
  playheadS : ℕ
deriving DecidableEq

/-- The events of a viewer, with what `_base` is given for each. -/
inductive ViewerEvent where
  | sessionStart (contentKind : String) (playheadS : ℚ)
  | progress (playheadS : ℕ)
  | contentEnd (playheadS : ℕ)
  | sessionEnd (playheadS : Option ℚ) (reason : String)
  | adRequest (adRequestId adPodId : String) (adSlot playheadS : ℕ)
  | adResponse (common : AdFields)
  | impression (common : AdFields)
  | quartile (name : String) (common : AdFields)
  | click (common : AdFields)
deriving DecidableEq

namespace ViewerEvent

def eventType : ViewerEvent → String
  | sessionStart _ _ => "session_start"
  | progress _ => "progress"
  | contentEnd _ => "content_end"
  | sessionEnd _ _ => "session_end"
  | adRequest _ _ _ _ => "ad_request"
  | adResponse _ => "ad_response"
  | impression _ => "impression"
  | quartile _ _ => "quartile"
  | click _ => "click"

/-- The fields of `common`. -/
def commonFields (c : AdFields) : Event :=
  [("campaign_id", .str c.campaignId), ("ad_request_id", .str c.adRequestId),
    ("creative_id", .str c.creativeId), ("ad_pod_id", .str c.adPodId), ("ad_slot", .int c.adSlot),
    ("ad_duration_s", .int c.adDurationS), ("playhead_s", .int c.playheadS)]

/-- The fields an event has besides those of `_base`. `tenths` is what `round(.., 1)` makes of a
position that is no whole second. -/
def extra (tenths : ℚ → EventValue) : ViewerEvent → Event
  | sessionStart kind playhead =>
    [("campaign_id", .str "none"), ("content_kind", .str kind), ("playhead_s", tenths playhead)]
  | progress playhead => [("campaign_id", .str "none"), ("playhead_s", .int playhead)]
  | contentEnd playhead => [("campaign_id", .str "none"), ("playhead_s", .int playhead)]
  | sessionEnd playhead reason =>
    ("campaign_id", .str "none") ::
      (playhead.map fun p => ("playhead_s", tenths p)).toList ++ [("reason", .str reason)]
  | adRequest arid podId slot playhead =>
    [("campaign_id", .str "pending"), ("ad_request_id", .str arid), ("ad_pod_id", .str podId),
      ("ad_slot", .int slot), ("playhead_s", .int playhead)]
  | adResponse common => ("fill", .other "True" (.bool true)) :: commonFields common
  | impression common => commonFields common
  | quartile name common => ("quartile", .str name) :: commonFields common
  | click common => commonFields common

/-- `allow_pixel` of the call of `emit`. -/
def allowPixel : ViewerEvent → Bool
  | impression _ => true
  | quartile _ _ => true
  | click _ => true
  | _ => false

end ViewerEvent

/-- A viewer during a session, and the id and time of an event. -/
structure Base where
  eventId : String
  eventTime : ℤ
  userId : String
  sessionId : String
  device : String
  contentId : String

/-- `_base`. -/
def Base.event (b : Base) (tenths : ℚ → EventValue) (e : ViewerEvent) : Event :=
  [("event_id", .str b.eventId), ("event_type", .str e.eventType), ("event_time", .int b.eventTime),
    ("user_id", .str b.userId), ("session_id", .str b.sessionId), ("device", .str b.device),
    ("content_id", .str b.contentId), ("source", .str "client")] ++ e.extra tenths

/-! ## One ad -/

/-- What the client reads of an answer of ad-decision. -/
structure Reply where
  fill : Bool
  campaignId : String
  creativeId : Option String
  adDurationS : Option ℕ

/-- What is random in an ad. -/
structure AdDraws where
  adRequestId : String
  /-- The answer of ad-decision, or that the call failed. -/
  reply : Option Reply
  campaign : Fin campaignIds.length
  /-- `rng.choice` on the creatives of a campaign. -/
  creative : List String → String
  adLength : Fin adLengths.length
  dropImpression : Bool
  /-- `drop_from`, from one to four. -/
  dropFrom : Option (Fin 4)
  click : Bool

/-- The campaign, the creative and the length that are decided, if an ad is. A reply that is empty
or zero is passed over by `or`. -/
def AdDraws.decision (d : AdDraws) (adDecision : Bool) : Option (String × String × ℕ) :=
  if adDecision then
    d.reply.bind fun r =>
      if r.fill then
        some (r.campaignId,
          (r.creativeId.filter fun c => c ≠ "").getD (d.creative (creativesOf r.campaignId)),
          (r.adDurationS.filter fun s => s ≠ 0).getD adLengths[d.adLength])
      else none
  else
    some (campaignIds[d.campaign], d.creative (creativesOf campaignIds[d.campaign]),
      adLengths[d.adLength])

/-- The quartiles reached before the viewer leaves. -/
def AdDraws.quartiles (d : AdDraws) : List String :=
  quartileNames.take (d.dropFrom.elim quartileNames.length fun i => i.val + 1)

/-- `one_ad`, behind the request. -/
def shownAd (adDecision : Bool) (d : AdDraws) (common : AdFields) : List ViewerEvent :=
  (if adDecision then [] else [.adResponse common]) ++
    .impression common :: (d.quartiles.map fun name => .quartile name common) ++
      -- `reached` is the index of the last quartile
      if 2 ≤ d.quartiles.length - 1 ∧ d.click then [.click common] else []

/-- `one_ad`. -/
def oneAd (adDecision : Bool) (podId : String) (slot playhead : ℕ) (d : AdDraws) :
    List ViewerEvent :=
  .adRequest d.adRequestId podId slot playhead ::
    match d.decision adDecision with
    | none => []
    | some (campaign, creative, length) =>
      if d.dropImpression then []
      else shownAd adDecision d ⟨campaign, d.adRequestId, creative, podId, slot, length, playhead⟩

/-! ## Ad breaks -/

/-- What is random in an ad break. -/
structure PodDraws where
  podId : String
  size : Fin 3
  ads : ℕ → AdDraws

/-- The loop over the slots. Behind the events stands how many checks still find `stop_event`
unset. -/
def slots (adDecision : Bool) (pod : PodDraws) (playhead : ℕ) :
    ℕ → List ℕ → List ViewerEvent × ℕ
  | n, [] => ([], n)
  | 0, _ :: _ => ([], 0)
  | n + 1, slot :: rest =>
    let (events, n) := slots adDecision pod playhead n rest
    (oneAd adDecision pod.podId slot playhead (pod.ads slot) ++ events, n)

/-- `ad_break`. -/
def adBreak (adDecision : Bool) (pod : PodDraws) (playhead n : ℕ) : List ViewerEvent × ℕ :=
  slots adDecision pod playhead n (List.range (pod.size.val + 1))

/-! ## Sessions -/

/-- The two kinds of marks, in the order of their names. -/
inductive MarkKind where
  | adBreak
  | ping
deriving DecidableEq

/-- A mark on the timeline of a content. -/
structure Mark where
  time : ℕ
  kind : MarkKind
deriving DecidableEq

/-- The order of the tuples. -/
def Mark.le (m m' : Mark) : Prop :=
  m.time < m'.time ∨ (m.time = m'.time ∧ (m.kind = .adBreak ∨ m'.kind = .ping))

instance : DecidableRel Mark.le := fun _ _ => inferInstanceAs (Decidable (_ ∨ _))

/-- The pings of a content. -/
def pings (c : Content) : List ℕ := range progressInterval c.durationS progressInterval

/-- `marks`, the sorted set of pings and breaks. -/
def marks (c : Content) : List Mark :=
  ((pings c).map (fun t => Mark.mk t .ping) ++
    c.adBreaks.map fun t => Mark.mk t .adBreak).dedup.insertionSort Mark.le

/-- What is random in a session. The ad breaks are given by their positions. -/
structure SessionDraws where
  content : Content
  startPos : ℚ
  abandonAt : Option ℚ
  pods : ℕ → PodDraws

/-- The viewer has left before the mark. -/
def SessionDraws.abandons (d : SessionDraws) (m : Mark) : Bool :=
  d.abandonAt.any fun a => a < (m.time : ℚ)

/-- The loop over the marks, and what follows it. -/
def visit (adDecision : Bool) (d : SessionDraws) : ℕ → List Mark → List ViewerEvent × ℕ
  | 0, [] => ([], 0)
  | n + 1, [] => ([.contentEnd d.content.durationS, .sessionEnd none "completed"], n)
  | n, m :: rest =>
    if (m.time : ℚ) < d.startPos then visit adDecision d n rest
    else
      match n with
      -- the event stays set, so nothing follows the loop either
      | 0 => ([], 0)
      | n + 1 =>
        if d.abandons m then ([.sessionEnd d.abandonAt "abandon"], n)
        else
          match m.kind with
          | .ping =>
            let (events, n) := visit adDecision d n rest
            (.progress m.time :: events, n)
          | .adBreak =>
            let (ads, n) := adBreak adDecision (d.pods m.time) m.time n
            let (events, n) := visit adDecision d n rest
            (ads ++ events, n)

/-- `watch`. -/
def watch (adDecision : Bool) (d : SessionDraws) (n : ℕ) : List ViewerEvent × ℕ :=
  let (events, n) := visit adDecision d n (marks d.content)
  (.sessionStart d.content.kind d.startPos :: events, n)

/-- `run`, as far as the sessions given. -/
def run (adDecision : Bool) : ℕ → List SessionDraws → List ViewerEvent
  | _, [] => []
  | 0, _ :: _ => []
  | n + 1, d :: sessions =>
    let (events, n) := watch adDecision d n
    events ++ run adDecision n sessions

end AdPipeline.Generator
