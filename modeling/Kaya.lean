import Kaya.Phase1.AslRuns
import Kaya.Phase1.Kin
import Kaya.Phase1.OutBlocked
import Kaya.Phase1.ProcQRuns
import Kaya.Phase1.Sentinels
import Kaya.Phase1.Trees
import Kaya.Phase2.Answers
import Kaya.Phase2.Context
import Kaya.Phase2.CpuTime
import Kaya.Phase2.Descriptors
import Kaya.Phase2.DeviceInterrupt
import Kaya.Phase2.Footprint
import Kaya.Phase2.Idle
import Kaya.Phase2.IoStatus
import Kaya.Phase2.Placement
import Kaya.Phase2.RoundRobin
import Kaya.Phase2.SemaphoreRuns
import Kaya.Phase2.Subtree
import Kaya.Phase2.TerminalRuns
import Kaya.Phase2.Terminals
import Kaya.Phase2.Traps
import Kaya.Phase2.Vectors
import Kaya.Phase3.Accesses
import Kaya.Phase3.AdlNodes
import Kaya.Phase3.AvslRuns
import Kaya.Phase3.CharOutput
import Kaya.Phase3.Confinement
import Kaya.Phase3.DelayRuns
import Kaya.Phase3.DelayTimes
import Kaya.Phase3.DiskTrips
import Kaya.Phase3.FrameContents
import Kaya.Phase3.Isolation
import Kaya.Phase3.Layout
import Kaya.Phase3.LineInput
import Kaya.Phase3.LoadRuns
import Kaya.Phase3.LoadedMemory
import Kaya.Phase3.LockOrder
import Kaya.Phase3.MutexRuns
import Kaya.Phase3.OnNucleus
import Kaya.Phase3.Served
import Kaya.Phase3.Shutdown
import Kaya.Phase3.SleepCode
import Kaya.Phase3.SleeperRuns
import Kaya.Phase3.Sleepers
import Kaya.Phase3.VSemVirt
import Kaya.Queues.Sleepers
