import AdPipeline.Lib.Transition
import AdPipeline.Lib.Grouping
import AdPipeline.Lib.Join
import AdPipeline.Lib.Delimited
import AdPipeline.Lib.Keyed
import AdPipeline.Lib.Window
import AdPipeline.Lib.Watermark
import AdPipeline.Lib.Steps
import AdPipeline.Lib.Draw
import AdPipeline.Lib.Slices
import AdPipeline.Lib.Lines
import AdPipeline.Lib.Feedback
import AdPipeline.Platform.Text
import AdPipeline.Platform.Time
import AdPipeline.Platform.Calendar
import AdPipeline.Platform.TimeText
import AdPipeline.Platform.Decimal
import AdPipeline.Platform.Json
import AdPipeline.Platform.JsonText
import AdPipeline.Platform.DateTime
import AdPipeline.Collector.TopicRouter
import AdPipeline.Collector.EventValidator
import AdPipeline.Collector.EpochTime
import AdPipeline.Collector.EventIngestService
import AdPipeline.Collector.EventController
import AdPipeline.Collector.SignatureVerifier
import AdPipeline.Collector.TrackController
import AdPipeline.Collector.PixelEvent
import AdPipeline.Collector.PixelSender
import AdPipeline.Collector.PixelTransport
import AdPipeline.Collector.FallbackDirectory
import AdPipeline.Collector.FallbackText
import AdPipeline.Collector.FallbackReplay
import AdPipeline.Collector.ReplayCall
import AdPipeline.Collector.ReplayDrain
import AdPipeline.Collector.ReplayBacklog
import AdPipeline.Collector.PendingGauge
import AdPipeline.Generator.Emitter
import AdPipeline.Generator.Reporter
import AdPipeline.AdDecision.CampaignCache
import AdPipeline.AdDecision.DecisionService
import AdPipeline.Outbox.OutboxWorker
import AdPipeline.Outbox.Delivery
import AdPipeline.Outbox.Exclusivity
import AdPipeline.Outbox.KeyOrder
import AdPipeline.Stream.Tables
import AdPipeline.Stream.Realtime
import AdPipeline.Stream.Accounting
import AdPipeline.Stream.LateRoster
import AdPipeline.Stream.Sources
import AdPipeline.Stream.LongTime
import AdPipeline.RedisWriter.Store
import AdPipeline.RedisWriter.Summary
import AdPipeline.RedisWriter.Exactness
import AdPipeline.RedisWriter.Consumer
import AdPipeline.Settlement.Batch
import AdPipeline.Settlement.Classification
import AdPipeline.Settlement.Retransmission
import AdPipeline.Settlement.SsaiGroups
import AdPipeline.Settlement.Daily
import AdPipeline.Settlement.RowOrder
import AdPipeline.Settlement.Reconcile
import AdPipeline.Settlement.LikelyCause
import AdPipeline.Settlement.Identity
import AdPipeline.Settlement.ReconScope
import AdPipeline.Settlement.SsaiWinner
import AdPipeline.Settlement.Minutes
import AdPipeline.Settlement.Consistency
import AdPipeline.Generator.Conservation
import AdPipeline.RedisWriter.Serving
import AdPipeline.RedisWriter.ServedReconciliation
import AdPipeline.Settlement.RowSet
import AdPipeline.Settlement.FailOpen
import AdPipeline.Settlement.Decisions
import AdPipeline.Settlement.Kinds
import AdPipeline.Lib.Precedence
import AdPipeline.Generator.Users
import AdPipeline.Lib.Checks
import AdPipeline.Generator.Funnel
import AdPipeline.Generator.Timeline
import AdPipeline.Settlement.Punctuality
import AdPipeline.Tracer.Send
import AdPipeline.Tracer.Expectations
import AdPipeline.Tracer.Records
import AdPipeline.Settlement.Alerts
import AdPipeline.Lib.Cursor
import AdPipeline.Tracer.Scan
import AdPipeline.Lib.Repeats
import AdPipeline.Outbox.Metrics
import AdPipeline.Lib.Renewal
import AdPipeline.RedisWriter.Feeds
import AdPipeline.RedisWriter.FeedLoop
import AdPipeline.RedisWriter.FeedAccounts
