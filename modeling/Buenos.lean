import Buenos.Theory.Prog
import Buenos.Theory.Run
import Buenos.Theory.Refine
import Buenos.Theory.LoadLinked
import Buenos.Theory.Congruential
import Buenos.Theory.Exclusive
import Buenos.Theory.Linked
import Buenos.Theory.Threads
import Buenos.Theory.Balance
import Buenos.Lib.Libc
import Buenos.Lib.Bitmap
import Buenos.Kernel.Thread
import Buenos.Kernel.Placement
import Buenos.Kernel.Interleaving
import Buenos.Kernel.SleepQueue
import Buenos.Kernel.Semaphore
import Buenos.Fs.Vfs
import Buenos.Fs.VfsIdle
import Buenos.Fs.Disk
import Buenos.Fs.FlatFs
import Buenos.Fs.FlatMap
import Buenos.Fs.FlatAlloc
import Buenos.Fs.Tfs
import Buenos.Fs.DriverLocks
import Buenos.Proc.Process
import Buenos.Proc.Join
import Buenos.Proc.Wakeup
import Buenos.Fs.MountTable
import Buenos.Fs.OpenTable
import Buenos.Fs.Shutdown
import Buenos.Fs.VfsLocks
import Buenos.Fs.Drivers
import Buenos.Proc.Syscall
import Buenos.Proc.Isolation
import Buenos.Proc.OpenFiles
import Buenos.Proc.Arguments
import Buenos.Net.Pop
import Buenos.Net.PopPages
import Buenos.Net.PopDelivery
import Buenos.Net.PopFrames
import Buenos.Net.PopReceive
import Buenos.Theory.Reserve
import Buenos.Vm.Pagetable
import Buenos.Vm.Pagepool
import Buenos.Proc.Elf
import Buenos.Proc.Pages
import Buenos.Theory.Ring
import Buenos.Drivers.Tty
import Buenos.Drivers.TtyInput
import Buenos.Drivers.TtyOutput
import Buenos.Theory.Chain
import Buenos.Drivers.DiskQueue
import Buenos.Drivers.DiskRuns
import Buenos.Kernel.Kmalloc
import Buenos.Vm.PagepoolRuns
import Buenos.Vm.PageMap
import Buenos.Theory.Interval
import Buenos.Theory.Memory
import Buenos.Userland.Heap
import Buenos.Userland.Malloc
import Buenos.Userland.HeapRuns
import Buenos.Vm.AddressSpace
import Buenos.Theory.Ownership
import Buenos.Fs.Directory
import Buenos.Fs.TfsImage
import Buenos.Fs.TfsAlloc
import Buenos.Fs.TfsData
import Buenos.Fs.TfsFiles
import Buenos.Util.Tfstool
import Buenos.Util.TfstoolImage
import Buenos.Fs.TfsRuns
import Buenos.Fs.WriteOrder
import Buenos.Fs.TfsOrder
import Buenos.Fs.TfsRefusals
import Buenos.Util.TfstoolWrite
import Buenos.Util.TfstoolFiles
import Buenos.Fs.Path
import Buenos.Fs.Listing
import Buenos.Proc.OpenFailure
import Buenos.Fs.FlatGrow
import Buenos.Fs.FlatBlocks
import Buenos.Fs.FlatImage
import Buenos.Fs.FlatCreate
import Buenos.Fs.FlatRemove
import Buenos.Fs.FlatWritten
import Buenos.Theory.Scan
import Buenos.Lib.Memcopy
import Buenos.Kernel.KmallocRuns
import Buenos.Proc.ProcessIds
import Buenos.Proc.Spawn
import Buenos.Proc.ElfTable
import Buenos.Proc.ElfImage
import Buenos.Userland.Requests
import Buenos.Userland.Realloc
import Buenos.Net.PopTransfer
import Buenos.Net.PopSend
import Buenos.Net.Sockets
import Buenos.Fs.FlatRuns
import Buenos.Fs.FlatAccounts
import Buenos.Fs.Resolve
import Buenos.Util.TfstoolSpace
import Buenos.Util.TfstoolDelete
import Buenos.Lib.Atoi
import Buenos.Lib.XprintfUint
import Buenos.Lib.Cstring
import Buenos.Lib.Stringcopy
import Buenos.Userland.Strings
import Buenos.Userland.Lines
import Buenos.Fs.DirectoryNames
import Buenos.Fs.BlockBitmap
import Buenos.Fs.NewScan
import Buenos.Fs.SplitPath
import Buenos.Fs.NewInverse
import Buenos.Drivers.Bootargs
import Buenos.Fs.Mount
import Buenos.Util.TfstoolBitmap
import Buenos.Proc.FileList
import Buenos.Fs.FlatData
import Buenos.Fs.FlatFiles
import Buenos.Fs.FlatLifetime
import Buenos.Fs.Handles
import Buenos.Fs.VfsFiles
import Buenos.Theory.Fifo
import Buenos.Kernel.RoundRobin
import Buenos.Theory.Mips
import Buenos.Kernel.Cswitch
import Buenos.Kernel.CswitchBlocks
import Buenos.Kernel.CswitchRuns
import Buenos.Kernel.CswitchIntact
import Buenos.Kernel.CswitchReturn
import Buenos.Kernel.Spinlock
import Buenos.Lib.Rand
