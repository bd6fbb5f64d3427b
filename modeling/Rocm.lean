import Rocm.Properties.FrameOwnership
import Rocm.Properties.Accounted
import Rocm.Properties.ClockTick
import Rocm.Properties.Confinement
import Rocm.Properties.HandlerSafety
import Rocm.Properties.Context
import Rocm.Properties.CreateProcess
import Rocm.Properties.CriticalSections
import Rocm.Properties.DispatchOrder
import Rocm.Properties.KillTree
import Rocm.Properties.Levels
import Rocm.Properties.Links
import Rocm.Properties.LiveBits
import Rocm.Properties.PageContents
import Rocm.Properties.PageEntries
import Rocm.Properties.PagerFailures
import Rocm.Properties.Replacement
import Rocm.Properties.Scheduler
import Rocm.Properties.SemaphoreLaw
import Rocm.Properties.SemaphoreList
import Rocm.Properties.TermProcess
import Rocm.Properties.Terminal
import Rocm.Properties.TimeSlice
import Rocm.Properties.SupportLocks
import Rocm.Properties.TlbUpdate
import Rocm.Properties.NoOvertaking
import Rocm.Properties.PassUp
import Rocm.Properties.PoolLock
import Rocm.Properties.PidLookup
import Rocm.Properties.ProcessQueues
import Rocm.Properties.ExceptionStacks
import Rocm.Properties.ProcessTree
import Rocm.Properties.ProcessorTime
import Rocm.Properties.DeviceAddresses
import Rocm.Properties.CharacterDevices
import Rocm.Properties.SyscallReturn
