import Doover.IndexMap
import Doover.StepRuns
import Doover.TagsOverlap
import Doover.TagsReadBack
import Doover.TagsRetry
import Doover.TagsFailedFlush
import Doover.TagsSettled
import Doover.TypedTags
import Doover.UiCommandWrites
import Doover.RpcCancellation
import Doover.RpcCalls
import Doover.HubCoherence
import Doover.ProcessorRunner
import Doover.WriteGuard
import Doover.AppConfig
import Doover.UiSchema
import Doover.UiTree
import Doover.ProcessorOverlap
import Doover.SchemaAgreement
import Doover.DiffRoundTrip
import Doover.NoOpWrites
import Doover.BufferedWrites
import Doover.TriggerRepeats
import Doover.HubIsolation
import Doover.HubSync
import Doover.RpcInflight
import Doover.RemoteRepublish
import Doover.RemoteTags
import Doover.TagLogs
import Doover.GrowingDiffs
import Doover.Hysteresis
import Doover.TriggerRuns
import Doover.MockBackend
import Doover.StripPaths
import Doover.UiPositions
import Doover.ConfigRefs
import Doover.ProcessorBuffers
import Doover.ProcessorScope
import Doover.RpcResponses
import Doover.ListingBounds
import Doover.Doubles
import Doover.CommandExpiry
import Doover.ControllerDefaults
import Doover.PingConnection
import Doover.PulseListeners
import Doover.ConfigValues
import Doover.LegacyStruct
import Doover.SharedChannel
import Doover.ConfigCache
import Doover.SchemaExport
import Doover.RpcExchange
import Doover.RpcWiring
import Doover.Startup
import Doover.InvocationSummary
import Doover.UiExport
import Doover.Notifications
import Doover.LiveTags
import Doover.AgentWire
import Doover.MainLoop
