import NanoRos.Alloc.HeapStats
import NanoRos.Log.HandOff
import NanoRos.Log.RosoutPump
import NanoRos.Node.AgeRuns
import NanoRos.Node.ArenaRun
import NanoRos.Node.BandScheduler
import NanoRos.Node.CancelOutcome
import NanoRos.Node.DispatchOrder
import NanoRos.Node.EdfOrder
import NanoRos.Node.GoalReuse
import NanoRos.Node.HazardTiming
import NanoRos.Node.ParamSizingExact
import NanoRos.Node.ParkBound
import NanoRos.Node.PromiseRuns
import NanoRos.Node.RateDetection
import NanoRos.Node.RouteRuns
import NanoRos.Node.ServiceClient
import NanoRos.Node.SetWithoutReply
import NanoRos.Node.SporadicBandwidth
import NanoRos.Node.SpscInterleaving
import NanoRos.Node.TimeTriggered
import NanoRos.Node.TimerClock
import NanoRos.Node.TriggerViews
import NanoRos.Node.TripleInterleaving
import NanoRos.Node.TypedMirror
import NanoRos.Node.WakeFanout
import NanoRos.Orchestration.Levels
import NanoRos.Orchestration.RtosRealizer
import NanoRos.Params.DryRun
import NanoRos.Params.IntegerLattice
import NanoRos.Params.Replay
import NanoRos.Params.TypedStore
import NanoRos.Rmw.BridgeLoop
import NanoRos.Rmw.Crc32
import NanoRos.Rmw.KeyedClient
import NanoRos.Rmw.SafetyValidator
import NanoRos.Rmw.UnkeyedClient
import NanoRos.Rosidl.ConstantValues
import NanoRos.Rosidl.Sections
import NanoRos.Rosidl.SynthesisedTypes
import NanoRos.Serdes.Checked
import NanoRos.Serdes.Measure
import NanoRos.Serdes.Packed
import NanoRos.Serdes.Unbounded
import NanoRos.Zenoh.BumpCursor
import NanoRos.Zenoh.MessageLost
import NanoRos.Zenoh.PendingGets
import NanoRos.Zenoh.PendingReplies
import NanoRos.Zenoh.QosToken
import NanoRos.Zenoh.ReplyLeaks
import NanoRos.Zenoh.ReplyRouting
import NanoRos.Zenoh.ServiceMatch
