import MiqOSoft.Machine.Memory
import MiqOSoft.Machine.Processor
import MiqOSoft.Machine.Descriptors
import MiqOSoft.Machine.InterruptController
import MiqOSoft.Tiling.Segments
import MiqOSoft.Tiling.FirstFit
import MiqOSoft.Transition.Run
import MiqOSoft.Transition.Loop
import MiqOSoft.Forest.Rooted
import MiqOSoft.Forest.Named
import MiqOSoft.Editing.Line
import MiqOSoft.Editing.Words
import MiqOSoft.Queue.Ring
import MiqOSoft.Numeral.Digits
import MiqOSoft.Teletype.Roll
import MiqOSoft.Sorting.Ranges
import MiqOSoft.Common.Memory
import MiqOSoft.Common.Strings
import MiqOSoft.Common.Format
import MiqOSoft.Kernel.Heap
import MiqOSoft.Kernel.HeapRefinement
import MiqOSoft.Kernel.HeapSpec
import MiqOSoft.Kernel.HeapRuns
import MiqOSoft.Kernel.HeapBlocks
import MiqOSoft.Kernel.HeapFree
import MiqOSoft.Kernel.Vfs
import MiqOSoft.Kernel.VfsTables
import MiqOSoft.Kernel.VfsInvariant
import MiqOSoft.Kernel.VfsHandlers
import MiqOSoft.Kernel.VfsRuns
import MiqOSoft.Kernel.VfsRead
import MiqOSoft.Kernel.VfsWrite
import MiqOSoft.Kernel.VfsErrors
import MiqOSoft.Kernel.VfsNames
import MiqOSoft.Kernel.VfsLedger
import MiqOSoft.Kernel.VfsAppend
import MiqOSoft.Kernel.VfsAccess
import MiqOSoft.Kernel.VfsFrame
import MiqOSoft.Kernel.Sleep
import MiqOSoft.Kernel.Keyboard
import MiqOSoft.Kernel.Scancodes
import MiqOSoft.Kernel.Dmesg
import MiqOSoft.Kernel.I8259
import MiqOSoft.Kernel.InterruptStubs
import MiqOSoft.Kernel.Gates
import MiqOSoft.Kernel.Irq
import MiqOSoft.Kernel.Vga
import MiqOSoft.Kernel.Printf
import MiqOSoft.Kernel.PrintfWidth
import MiqOSoft.Kernel.Sprintf
import MiqOSoft.Kernel.Snprintf
import MiqOSoft.Kernel.Syscalls
import MiqOSoft.Kernel.SyscallRuns
import MiqOSoft.Core.TextDevice
import MiqOSoft.Core.FormatBuffer
import MiqOSoft.Shell.RamFs
import MiqOSoft.Shell.RamFsSteps
import MiqOSoft.Shell.RamFsTree
import MiqOSoft.Shell.RamFsPath
import MiqOSoft.Shell.RamFsBuffers
import MiqOSoft.Shell.RamFsContents
import MiqOSoft.Shell.RamFsKernel
import MiqOSoft.Shell.RamFsSystem
import MiqOSoft.Shell.Files
import MiqOSoft.Shell.FilesSimulation
import MiqOSoft.Shell.CommandLine
import MiqOSoft.Shell.Screen
import MiqOSoft.Shell.Grep
import MiqOSoft.Shell.Edit
import MiqOSoft.Shell.ParseCommand
import MiqOSoft.Shell.Commands
import MiqOSoft.Shell.Terminal
import MiqOSoft.Shell.Session
import MiqOSoft.Shell.Numbers
import MiqOSoft.Boot.MemDetect
import MiqOSoft.Boot.Disk
import MiqOSoft.Boot.Fat
import MiqOSoft.Boot.FatSteps
import MiqOSoft.Boot.FatHandles
import MiqOSoft.Boot.FatLayout
import MiqOSoft.Boot.FatStream
import MiqOSoft.Boot.FatNames
import MiqOSoft.Boot.FatCache
import MiqOSoft.Boot.FatCalls
import MiqOSoft.Boot.FatSearch
import MiqOSoft.Boot.Elf
import MiqOSoft.Boot.ElfLoad
import MiqOSoft.Boot.ElfRead
import MiqOSoft.Boot.ElfSpec
import MiqOSoft.Boot.ElfHeader
import MiqOSoft.Boot.FatLockstep
import MiqOSoft.Boot.FatRuns
import MiqOSoft.Boot.FatShortName
import MiqOSoft.Boot.Unicode
import MiqOSoft.Boot.Qsort
import MiqOSoft.Linked.Chain
import MiqOSoft.Boot.FatChain
import MiqOSoft.Boot.FatDiskChain
import MiqOSoft.Boot.FatRequests
import MiqOSoft.Boot.FatFailures
import MiqOSoft.Boot.FatFile
import MiqOSoft.Boot.FatBounds
import MiqOSoft.Boot.FatRootDir
import MiqOSoft.Boot.FatEntries
import MiqOSoft.Tools.HostFat
import MiqOSoft.Boot.FatTurns
import MiqOSoft.Boot.ElfNull
