import AmiKaya.Places
import AmiKaya.Steps
import AmiKaya.Runs
import AmiKaya.Wakeup
import AmiKaya.Fifo
import AmiKaya.Traps
import AmiKaya.Rendezvous
import AmiKaya.Bodies
import AmiKaya.Requests
import AmiKaya.SoftBlock
import AmiKaya.Idle
import AmiKaya.Rings
import AmiKaya.Tree
import AmiKaya.Dispatch
import AmiKaya.ManagerSet
import AmiKaya.Invariants
import AmiKaya.Clock
import AmiKaya.Pool
import AmiKaya.Acknowledge
import AmiKaya.Frames
import AmiKaya.MessageSlots
import AmiKaya.Subtree
import AmiKaya.Orderly
import AmiKaya.Growth
import AmiKaya.Targets
import AmiKaya.Kinship
import AmiKaya.Unqueued
import AmiKaya.NamedManagers
import AmiKaya.DeviceStatus
import AmiKaya.DeadTargets
import AmiKaya.Overtaking
import AmiKaya.SendRecv
import AmiKaya.SliceTimer
import AmiKaya.Preemption
import AmiKaya.Uproot
import AmiKaya.Creation
import AmiKaya.Intervals
import AmiKaya.Readings
import AmiKaya.CpuTime
import AmiKaya.PseudoClock
import AmiKaya.Roused
import AmiKaya.SsiThread
import AmiKaya.Identity
import AmiKaya.Deadline
import AmiKaya.Elapsed
import AmiKaya.EvalOrder
import AmiKaya.RingFamily
import AmiKaya.NodeHeap
import AmiKaya.Queues
import AmiKaya.Posting
import AmiKaya.Tokens
import AmiKaya.Asking
import AmiKaya.Answers
import AmiKaya.Serving
import AmiKaya.Returns
import AmiKaya.LinkedRuns
import AmiKaya.FixedManagers
import AmiKaya.Response
import AmiKaya.Causes
import AmiKaya.Settling
import AmiKaya.Entrances
import AmiKaya.LostMessages
import AmiKaya.NestedCharges
