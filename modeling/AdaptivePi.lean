import AdaptivePi.Core.PayloadLifetimes
import AdaptivePi.Core.ResultRefinement
import AdaptivePi.Esbmc.CommandTransport
import AdaptivePi.Esbmc.ConcurrentInstallers
import AdaptivePi.Esbmc.CoverageManifest
import AdaptivePi.Esbmc.GateHistory
import AdaptivePi.Esbmc.SettingRoundTrip
import AdaptivePi.Log.BufferBounds
import AdaptivePi.Log.Concurrency
import AdaptivePi.Log.ConsoleDecoder
import AdaptivePi.Log.Delivery
import AdaptivePi.Log.IntegerRendering
import AdaptivePi.Log.PayloadDecoder
import AdaptivePi.Log.RecordCapacity
import AdaptivePi.Log.RegistryTeardown
import AdaptivePi.Log.Routing
import AdaptivePi.Log.TimestampOrder
import AdaptivePi.Report.PageMetrics
import AdaptivePi.Report.PropertyRoundTrip
import AdaptivePi.Report.Ratio
import AdaptivePi.Report.RunManifest
import AdaptivePi.Report.SafetyEvidence
import AdaptivePi.Report.SourceView
import AdaptivePi.Yocto.InstallationRollback
import AdaptivePi.Yocto.PublicationRetry
import AdaptivePi.Yocto.ReleaseInterleaving
