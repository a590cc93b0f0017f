import Timeshare.Main
import Timeshare.Kernel.Request
import Timeshare.Policy.Override
import Timeshare.Scheduler.Consistency
import Timeshare.Proofs.LittleEndian
import Timeshare.Proofs.Memory.ByteMap
import Timeshare.Proofs.Cpu.Run
import Timeshare.Proofs.Machine.Settled
import Timeshare.Proofs.Machine.Transparent
import Timeshare.Proofs.Program.Bytes
import Timeshare.Proofs.Memory.Padding
import Timeshare.Proofs.Machine.Starvation
import Timeshare.Proofs.Machine.Ledger
import Timeshare.Proofs.Cpu.Faults
import Timeshare.Proofs.Memory.Conservation
import Timeshare.Proofs.Kernel.Lifecycle
import Timeshare.Proofs.Cpu.Halting
import Timeshare.Proofs.Machine.Jobs
import Timeshare.Proofs.Machine.Workload
import Timeshare.Proofs.Memory.Pinning
import Timeshare.Proofs.Policy.HeadFirst
import Timeshare.Proofs.Machine.Steps
import Timeshare.Proofs.Machine.Served
import Timeshare.Proofs.Machine.RoundRobin
import Timeshare.Proofs.Machine.RealTime
import Timeshare.Proofs.Policy.Timeless
import Timeshare.Proofs.Scheduler.UpToTime
import Timeshare.Proofs.Machine.Delayed
import Timeshare.Proofs.Memory.Atomic
import Timeshare.Proofs.Scheduler.Census
import Timeshare.Proofs.Scheduler.Killed
import Timeshare.Proofs.Kernel.Launched
import Timeshare.Proofs.Kernel.Boots
import Timeshare.Proofs.Policy.Promotion
import Timeshare.Proofs.Cpu.Straight
import Timeshare.Proofs.Policy.LeastRemaining
import Timeshare.Proofs.Machine.Levels
import Timeshare.Proofs.Machine.ShortestJobFirst
import Timeshare.Proofs.Scheduler.Drift
import Timeshare.Proofs.Machine.Feedback
import Timeshare.Proofs.Scheduler.Feedback
import Timeshare.Proofs.Cpu.Frame
import Timeshare.Proofs.Machine.WorkConserving
import Timeshare.Proofs.Machine.Coincidence
import Timeshare.Proofs.Scheduler.ExactSlices
import Timeshare.Proofs.Program.Cuts
import Timeshare.Proofs.Console.History
import Timeshare.Proofs.Scheduler.Expirations
import Timeshare.Proofs.ReadyQueues
import Timeshare.Proofs.Scheduler.Disagreement
import Timeshare.Proofs.Machine.Completion
import Timeshare.Proofs.Scheduler.LastWord
