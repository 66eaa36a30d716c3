import Psutil.Lib.Cut
import Psutil.Lib.Dict
import Psutil.Lib.Run
import Psutil.Lib.Fold
import Psutil.Lib.Unwrap
import Psutil.Lib.Backoff
import Psutil.Lib.Tolerance
import Psutil.Lib.Search
import Psutil.Lib.Forest
import Psutil.Lib.Follow
import Psutil.Lib.Pattern
import Psutil.Lib.Utf8
import Psutil.Lib.Effect
import Psutil.Lib.Ledger
import Psutil.Lib.Blocks
import Psutil.Lib.Sorted
import Psutil.Lib.Double
import Psutil.Lib.Group
import Psutil.Lib.Loop
import Psutil.Lib.Space
import Psutil.Exc
import Psutil.Common.Environ
import Psutil.Common.Text
import Psutil.Common.Columns
import Psutil.Common.C
import Psutil.Nowrap.WrapNumbers
import Psutil.Nowrap.Spec
import Psutil.Nowrap.History
import Psutil.Nowrap.Counters
import Psutil.Nowrap.Devices
import Psutil.Nowrap.Threads
import Psutil.Nowrap.Alias
import Psutil.Nowrap.Memory
import Psutil.Proc.World
import Psutil.Proc.Process
import Psutil.Proc.System
import Psutil.Proc.Spec
import Psutil.Proc.PidReuse
import Psutil.Proc.Iter
import Psutil.Proc.Stale
import Psutil.Proc.Running
import Psutil.Proc.Tree
import Psutil.Proc.Parents
import Psutil.Proc.Clock
import Psutil.Proc.AdjustCreateTime
import Psutil.Proc.Prefetch
import Psutil.Proc.MemoryMaps
import Psutil.Proc.LowestPid
import Psutil.Proc.Identity
import Psutil.Proc.Cache
import Psutil.Linux.Bytes
import Psutil.Linux.Text
import Psutil.Linux.ProcFiles
import Psutil.Linux.StatText
import Psutil.Linux.ThreadStat
import Psutil.Linux.SmapsText
import Psutil.Linux.MemoryMaps
import Psutil.Linux.StatusText
import Psutil.Linux.Footprint
import Psutil.Linux.PidExists
import Psutil.Linux.Cmdline
import Psutil.Linux.Affinity
import Psutil.Linux.Name
import Psutil.Linux.MemInfo
import Psutil.Linux.OpenFiles
import Psutil.Linux.DiskStats
import Psutil.Linux.NetDev
import Psutil.Linux.CpuList
import Psutil.Linux.AffinityMask
import Psutil.Oneshot.Getters
import Psutil.Oneshot.Spec
import Psutil.Oneshot.Readers
import Psutil.Oneshot.Snapshot
import Psutil.Oneshot.Threads
import Psutil.Oneshot.Dying
import Psutil.Wait.WaitPid
import Psutil.Wait.Target
import Psutil.Wait.Agree
import Psutil.Wait.Spec
import Psutil.Wait.Incarnation
import Psutil.Wait.Procs
import Psutil.Wait.Popen
import Psutil.Wait.Poll
import Psutil.Net.Conn
import Psutil.Net.ProcNet
import Psutil.Net.Views
import Psutil.Net.Unix
import Psutil.Net.Address
import Psutil.Net.FreeBsd
import Psutil.Net.NetBsd
import Psutil.Net.IfAddrs
import Psutil.Windows.OpenFiles
import Psutil.Windows.OpenFilesSpec
import Psutil.Windows.OpenFilesRun
import Psutil.Windows.Wait
import Psutil.Windows.MemoryMaps
import Psutil.Osx.Environ
import Psutil.Osx.Uss
import Psutil.Osx.ListFds
import Psutil.Bsd.Environ
import Psutil.Posix.Sysctl
import Psutil.Sunos.Environ
import Psutil.Cpu.Times
import Psutil.Cpu.PerCpu
import Psutil.Cpu.ProcPercent
import Psutil.Cpu.Platforms
import Psutil.Cpu.OldKernels
import Psutil.Cpu.Freq
import Psutil.Sensors.ThermalZone
import Psutil.Sensors.Fahrenheit
import Psutil.Lib.Apart
import Psutil.Cpu.Threads
import Psutil.Oneshot.Links
import Psutil.Common.Str
import Psutil.Bsd.DiskPartitions
import Psutil.Posix.Cmdline
import Psutil.Lib.Average
import Psutil.Windows.LoadAvg
import Psutil.Linux.CpuCores
import Psutil.Windows.Fallback
import Psutil.Linux.RootFs
import Psutil.Linux.Partitions
import Psutil.Lib.Lock
import Psutil.Posix.Users
import Psutil.Sunos.Args
import Psutil.Lib.Progress
import Psutil.Windows.ProcTable
import Psutil.Windows.Pids
import Psutil.Posix.Terminal
import Psutil.Lib.Versions
