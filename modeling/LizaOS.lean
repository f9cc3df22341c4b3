import LizaOS.Logic.Exec
import LizaOS.Kernel.State
import LizaOS.Mm.Page
import LizaOS.Libc.Stdio
import LizaOS.Drivers.ScreenTerminal
import LizaOS.Mm.Alloc
import LizaOS.Mm.EarlyHeap
import LizaOS.Drivers.ScreenSafety
import LizaOS.Fs.Vfs
import LizaOS.Libc.String
import LizaOS.Drivers.Ramdisk
import LizaOS.Kernel.Watch
import LizaOS.Libc.StringRun
import LizaOS.Drivers.InodeRun
import LizaOS.Drivers.RamdiskMount
import LizaOS.Drivers.RamdiskInit
import LizaOS.Drivers.RamdiskCalls
import LizaOS.Drivers.RamdiskList
import LizaOS.Drivers.RamdiskRead
import LizaOS.Drivers.RamdiskSafety
import LizaOS.Drivers.ImageNames
import LizaOS.Drivers.RamdiskDirectory
import LizaOS.Misc.Initrd
import LizaOS.Misc.InitrdRoundTrip
import LizaOS.Machine.Mmu
import LizaOS.Kernel.Isr
import LizaOS.Mm.Paging
import LizaOS.Libc.Console
import LizaOS.Mm.PageTables
import LizaOS.Libc.Format
import LizaOS.Libc.FormatArgs
import LizaOS.Libc.FormatOutput
import LizaOS.Libc.PrintNumber
import LizaOS.Drivers.RamdiskWindow
import LizaOS.Machine.Cpu
import LizaOS.Asm.Exceptions
import LizaOS.Asm.Irq
import LizaOS.Asm.Boot
import LizaOS.Mm.PageMapRun
import LizaOS.Mm.BootSpace
import LizaOS.Mm.InitPaging
import LizaOS.Mm.OwnSpace
import LizaOS.Mm.AddressSpace
import LizaOS.Mm.Booted
import LizaOS.Mm.Calls
import LizaOS.Libc.FullScreen
import LizaOS.Mm.ScreenAlias
import LizaOS.Mm.RangeMap
import LizaOS.Libc.Memmove
import LizaOS.Libc.StringCopy
import LizaOS.Libc.Sprintf
import LizaOS.Drivers.Cursor
import LizaOS.Kernel.CrashDump
import LizaOS.Kernel.DispatchRun
import LizaOS.Kernel.Timer
import LizaOS.Kernel.TimerRun
import LizaOS.Libc.PrintString
import LizaOS.Kernel.Main
import LizaOS.Kernel.MainRun
import LizaOS.Mm.MapRuns
import LizaOS.Libc.PrintSign
import LizaOS.Machine.Descriptor
import LizaOS.Misc.InitrdSafety
import LizaOS.Kernel.Gdt
import LizaOS.Kernel.Idt
import LizaOS.Machine.Tlb
import LizaOS.Mm.CachedRuns
import LizaOS.Drivers.RamdiskFence
import LizaOS.Mm.HeapPages
import LizaOS.Kernel.BootModule
import LizaOS.Kernel.ModuleRun
import LizaOS.Drivers.Pic8259
import LizaOS.Kernel.IrqLines
import LizaOS.Kernel.Vectors
import LizaOS.Mm.KernelImage
import LizaOS.Kernel.Frequency
import LizaOS.Libc.ConsolePorts
import LizaOS.Kernel.BootRun
import LizaOS.Kernel.Startup
import LizaOS.Kernel.Fault
import LizaOS.Kernel.Clock
import LizaOS.Libc.ScreenOutput
import LizaOS.Kernel.ListingText
import LizaOS.Kernel.Listing
import LizaOS.Kernel.PackedListing
