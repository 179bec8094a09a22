import Idylla.Storage.BufferErrors
import Idylla.Storage.PartitionTable
import Idylla.Storage.Partitions
import Idylla.Mm.VmProtection
import Idylla.Tty.Canonical
import Idylla.Kernel.VcArguments
import Idylla.Kernel.VcCursor
import Idylla.Kernel.PipeWakeups
import Idylla.Kernel.WaitpidEnds
import Idylla.Kernel.Syscall
import Idylla.Kernel.RwlockSound
import Idylla.Vfs.WalkChecks
import Idylla.Vfs.PathSplit
import Idylla.Vfs.Chroot
import Idylla.Vfs.PipeCreate
import Idylla.Exec.Execve
import Idylla.Vfs.PathBuffers
import Idylla.Ramfs.DirectoryRuns
import Idylla.Vfs.GetdentsRuns
import Idylla.Vfs.SharedFile
import Idylla.Vfs.AccessRuns
import Idylla.Exec.Elf32Writes
import Idylla.Exec.Elf32Load
import Idylla.Mm.VmFaultsDefined
import Idylla.Mm.VmFrames
import Idylla.Mm.PageTableMap
import Idylla.Ramfs.Entries
import Idylla.Ramfs.Devices
import Idylla.Ramfs.SpaceUsed
import Idylla.Kernel.SchedulerRuns
import Idylla.Ext2.CreatUndone
import Idylla.Ext2.BitmapCounters
import Idylla.Ext2.GroupLocks
import Idylla.Ext2.MountSafe
import Idylla.Kernel.BlockDevices
import Idylla.Kernel.DeviceEvents
import Idylla.Vfs.VnodeCache
import Idylla.Vfs.VnodeLifetime
import Idylla.Mm.PhysClients
import Idylla.Mm.SmaFragments
import Idylla.Mm.KernelHeap
import Idylla.Mm.FaultFailures
import Idylla.Ext2.ZeroBlocks
import Idylla.Vfs.MountAllOrNothing
import Idylla.Kernel.ScrollUp
import Idylla.Kernel.VforkRuns
import Idylla.Storage.Pata
import Idylla.Exec.Elf32Relocate
import Idylla.Klib.Strncmp
import Idylla.Klib.MemoryCopy
import Idylla.Kernel.Bitops
import Idylla.Boot.Mptables
import Idylla.Kernel.Irq
