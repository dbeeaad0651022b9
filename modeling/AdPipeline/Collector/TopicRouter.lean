import AdPipeline.Platform.Text

/-!
# Topics and routing

The topics of the pipeline, the outcome of handling one event, and the map from event types to
topics.
-/

namespace AdPipeline.Collector

/-- The constants of `Topics`. -/
inductive Topic where
  | impression
  | quartile
  | click
  | request
  | behavior
  | dlq
deriving DecidableEq, Repr

/-- The name of a topic in Kafka. -/
def Topic.name : Topic → String
  | impression => "ad.impression"
  | quartile => "ad.quartile"
  | click => "ad.click"
  | request => "ad.request"
  | behavior => "user.behavior"
  | dlq => "dlq.invalid"

/-- The outcome of one event: published, written to the fallback file, or invalid. -/
inductive Outcome where
  | accepted
  | fallback
  | invalid
deriving DecidableEq, Repr

/-- The event types of each data topic, in lower case. -/
def Topic.eventTypes : Topic → List String
  | impression => ["impression", "ad_impression"]
  | quartile =>
    ["quartile", "start", "first_quartile", "firstquartile", "midpoint", "third_quartile",
      "thirdquartile", "complete"]
  | click => ["click", "ad_click", "clickthrough"]
  | request => ["ad_request", "request", "ad_response", "response"]
  | behavior =>
    ["progress", "play", "pause", "resume", "seek", "session_start", "session_end",
      "content_start", "content_end"]
  | dlq => []

/-- `TopicRouter.topicFor`: null for an unknown event type. -/
def topicFor (eventType : String) : Option Topic :=
  [Topic.impression, .quartile, .click, .request, .behavior].find? fun topic =>
    Text.lowercase eventType ∈ topic.eventTypes

/-- A routed event type is one of its topic's, up to letter case. -/
theorem mem_eventTypes_of_topicFor {eventType : String} {topic : Topic}
    (h : topicFor eventType = some topic) : Text.lowercase eventType ∈ topic.eventTypes := by
  simpa using List.find?_some h

/-- No event type is routed to the dead letter queue. -/
theorem topicFor_ne_dlq (eventType : String) : topicFor eventType ≠ some .dlq := by
  intro h
  have := mem_eventTypes_of_topicFor h
  simp [Topic.eventTypes] at this

end AdPipeline.Collector
