import RtosXrce.Library.Transition
import RtosXrce.Library.SequenceWindow
import RtosXrce.Library.Bytes
import RtosXrce.Xrce.ReliableStream
import RtosXrce.Xrce.ReliableRuns
import RtosXrce.Xrce.ReliableWindows
import RtosXrce.Library.Crc
import RtosXrce.Library.Fallible
import RtosXrce.Library.Fips180
import RtosXrce.Library.Format
import RtosXrce.Library.Framing
import RtosXrce.Library.Machine
import RtosXrce.Library.Rfc2104
import RtosXrce.Library.Ring
import RtosXrce.Xrce.SerialTransport
import RtosXrce.Xrce.SerialFrames
import RtosXrce.Xrce.SerialBuffer
import RtosXrce.Xrce.SerialStreams
import RtosXrce.Xrce.SerialEncoder
import RtosXrce.Xrce.SerialCrc
import RtosXrce.Xrce.Sha256
import RtosXrce.Xrce.Sha256Standard
import RtosXrce.Xrce.Hmac
import RtosXrce.Xrce.HmacStandard
import RtosXrce.Xrce.SecureTransport
import RtosXrce.Xrce.SecureFrames
import RtosXrce.Xrce.SecureCounters
import RtosXrce.Xrce.SecureLink
import RtosXrce.Xrce.Cdr
import RtosXrce.Xrce.CdrLayout
import RtosXrce.Xrce.CdrFields
import RtosXrce.Xrce.Msgs
import RtosXrce.Xrce.MsgsRoundTrip
import RtosXrce.Xrce.MsgsNormal
import RtosXrce.Xrce.MsgsCounts
import RtosXrce.Xrce.Session
import RtosXrce.Xrce.SessionMessages
import RtosXrce.Xrce.SessionRoundTrip
import RtosXrce.Xrce.SessionRuns
import RtosXrce.Xrce.ReaderMemory
import RtosXrce.Xrce.ReaderSafety
import RtosXrce.Xrce.LengthFields
import RtosXrce.Xrce.SessionReplies
import RtosXrce.Xrce.SessionControl
import RtosXrce.Xrce.Samples
import RtosXrce.Kernel.Globals
import RtosXrce.Kernel.Machine
import RtosXrce.Kernel.Steps
import RtosXrce.Kernel.Control
import RtosXrce.Kernel.MutualExclusion
import RtosXrce.Kernel.SavedPriorities
import RtosXrce.Kernel.Wakeups
import RtosXrce.Kernel.LostWakeups
import RtosXrce.Kernel.BoundedQueue
import RtosXrce.Kernel.QueueFifo
import RtosXrce.Kernel.Inheritance
import RtosXrce.Kernel.Dispatch
import RtosXrce.Kernel.WaitLists
import RtosXrce.Kernel.Inversion
import RtosXrce.Library.Cyclic
import RtosXrce.Kernel.RoundRobin
import RtosXrce.Kernel.TaskStates
import RtosXrce.Kernel.Sleep
import RtosXrce.Kernel.Canary
import RtosXrce.Kernel.PromptSends
import RtosXrce.Kernel.Handovers
import RtosXrce.Kernel.Spawns
import RtosXrce.Kernel.LockOrder
import RtosXrce.Kernel.Semaphores
import RtosXrce.Host.PriorityDemo
import RtosXrce.Host.LiveDiagnostics
import RtosXrce.Host.SecureGateway
import RtosXrce.Host.LiveAction
import RtosXrce.Host.GoalLifecycle
import RtosXrce.Host.GoalResults
import RtosXrce.Host.BenchQos
import RtosXrce.Host.BenchQosRounds
import RtosXrce.Library.Processors
import RtosXrce.Arm.KernelArm
import RtosXrce.Arm.ContextSwitch
import RtosXrce.Arm.Preemption
import RtosXrce.Arm.Ros2Demo
import RtosXrce.Arm.Ros2Line
import RtosXrce.Arm.Ros2Topics
import RtosXrce.Arm.EndToEnd
