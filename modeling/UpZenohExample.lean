import UpZenohExample.Utils
import UpZenohExample.Lib.Run
import UpZenohExample.PubTest
import UpZenohExample.Wire
import UpZenohExample.Acceptance
import UpZenohExample.Ledger
import UpZenohExample.ListenerRuns
import UpZenohExample.RunTests
import UpZenohExample.StepFrame
import UpZenohExample.Schedules
import UpZenohExample.Barrier
import UpZenohExample.Handshake
import UpZenohExample.ExitTest
import UpZenohExample.PayloadSize
import UpZenohExample.PortList
import UpZenohExample.Creation
import UpZenohExample.Lib.WordBytes
import UpZenohExample.Rpc
import UpZenohExample.PubSub
import UpZenohExample.FileSys
import UpZenohExample.Lib.Loop
import UpZenohExample.Report
import UpZenohExample.ResultDir
import UpZenohExample.Lib.NameOrder
import UpZenohExample.Retention
import UpZenohExample.Lib.HexText
import UpZenohExample.UriText
import UpZenohExample.Lib.Interpolation
import UpZenohExample.Percentiles
import UpZenohExample.Lib.Sample
import UpZenohExample.Moments
import UpZenohExample.Divisions
import UpZenohExample.Lib.Fair
import UpZenohExample.Stuck
import UpZenohExample.Liveness
import UpZenohExample.TestRun
import UpZenohExample.Lib.KeySet
import UpZenohExample.UriWiring
import UpZenohExample.SeveralRuns
import UpZenohExample.Lib.Traced
import UpZenohExample.Lifecycle
import UpZenohExample.ReportText
import UpZenohExample.Rescaling
import UpZenohExample.LoopSamples
import UpZenohExample.CommandLine
import UpZenohExample.ExampleMains
import UpZenohExample.Latency
import UpZenohExample.Unmapped
