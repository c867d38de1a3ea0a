import ForkliftSafety.Library.Transition
import ForkliftSafety.Library.Throttle
import ForkliftSafety.Library.Greedy
import ForkliftSafety.Application.SafetyZone
import ForkliftSafety.Application.RiskDetection
import ForkliftSafety.Application.DangerZone
import ForkliftSafety.Application.Cooldown
import ForkliftSafety.Infrastructure.YoloV8Postprocessor
import ForkliftSafety.Application.FailureIsolation
import ForkliftSafety.Application.ForkliftMasking
import ForkliftSafety.Shared.ThreadPool
import ForkliftSafety.Library.Threads
import ForkliftSafety.Shared.ConcurrentQueue
import ForkliftSafety.Application.Pipeline
import ForkliftSafety.Application.RateLimit
import ForkliftSafety.Application.CooldownFilter
import ForkliftSafety.Application.EngineSharing
import ForkliftSafety.Infrastructure.VideoSource
import ForkliftSafety.Application.FreshestFrame
import ForkliftSafety.Application.AlertIds
import ForkliftSafety.Infrastructure.MjpegStreamServer
import ForkliftSafety.Library.GeneralFormat
import ForkliftSafety.Infrastructure.AlertJson
import ForkliftSafety.Infrastructure.WebSocketAlertPublisher
import ForkliftSafety.Infrastructure.YamlConfigLoader
import ForkliftSafety.Infrastructure.AnchorDecoding
import ForkliftSafety.Shared.QueueHistory
import ForkliftSafety.Library.Monitor
import ForkliftSafety.Shared.QueueThreads
import ForkliftSafety.Shared.QueueConsumers
import ForkliftSafety.Shared.QueueProducers
import ForkliftSafety.Shared.ThreadPoolDrain
import ForkliftSafety.Infrastructure.Dashboard
import ForkliftSafety.Infrastructure.DetectionStream
import ForkliftSafety.Infrastructure.UnmappedClasses
import ForkliftSafety.Infrastructure.MjpegStream
import ForkliftSafety.Application.EnforcedZones
import ForkliftSafety.Infrastructure.DetectionFreshness
import ForkliftSafety.Interface.Main
import ForkliftSafety.Library.JsonArray
import ForkliftSafety.Library.FixedFormat
import ForkliftSafety.Infrastructure.ViewerDocuments
import ForkliftSafety.Infrastructure.ViewerOutput
import ForkliftSafety.Application.Playback
import ForkliftSafety.Infrastructure.ServerStart
import ForkliftSafety.Application.ViewOrder
import ForkliftSafety.Application.LifeCycle
import ForkliftSafety.Application.StartStop
import ForkliftSafety.Domain.BoxOverlap
import ForkliftSafety.Infrastructure.ClassMap
import ForkliftSafety.Infrastructure.SessionWrites
import ForkliftSafety.Infrastructure.VideoPacing
import ForkliftSafety.Infrastructure.ImageTensor
import ForkliftSafety.Library.JsonLocal
import ForkliftSafety.Infrastructure.CameraListing
import ForkliftSafety.Infrastructure.CameraSlots
import ForkliftSafety.Infrastructure.HttpSession
import ForkliftSafety.Infrastructure.HttpStreams
import ForkliftSafety.Infrastructure.AlertFeed
import ForkliftSafety.Interface.AlertDelivery
import ForkliftSafety.Infrastructure.DetectionOverlay
import ForkliftSafety.Infrastructure.DetectionPanels
import ForkliftSafety.Infrastructure.LiveStreams
import ForkliftSafety.Interface.LiveDelivery
import ForkliftSafety.Interface.Process
