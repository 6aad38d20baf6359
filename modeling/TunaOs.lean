import TunaOs.Pmm.Model
import TunaOs.Lib.Mem
import TunaOs.Pmm.Init
import TunaOs.Lib.Run
import TunaOs.Pmm.Exclusive
import TunaOs.Pmm.EntryStack
import TunaOs.Kheap.Model
import TunaOs.Lib.Tiling
import TunaOs.Kheap.Blocks
import TunaOs.Kheap.Refine
import TunaOs.Kheap.Spec
import TunaOs.Kheap.Safety
import TunaOs.Lib.Circular
import TunaOs.Task.Model
import TunaOs.Task.Safety
import TunaOs.Elf.Compose
import TunaOs.Kernel.Isolation
import TunaOs.Elf.Reach
import TunaOs.Elf.Reads
import TunaOs.Kernel.Calls
import TunaOs.Kernel.ExecFails
import TunaOs.Kernel.HeapMapped
import TunaOs.Kernel.Tlb
import TunaOs.Kheap.Canonical
import TunaOs.Kheap.Requests
import TunaOs.Kheap.Growth
import TunaOs.Kernel.Growth
import TunaOs.Task.Interrupts
import TunaOs.Task.Switch
import TunaOs.Task.Transparent
import TunaOs.Kernel.Privilege
import TunaOs.Kheap.Client
import TunaOs.Lib.Bytes
import TunaOs.Lib.Turns
import TunaOs.Multiboot2.Parse
import TunaOs.Ramfs.Model
import TunaOs.Ramfs.Store
import TunaOs.Task.Acknowledge
import TunaOs.Task.Memory
import TunaOs.Task.RoundRobin
import TunaOs.Kernel.Counts
import TunaOs.Kernel.Entry
import TunaOs.Kernel.LoadResult
import TunaOs.Kernel.RoundTrip
import TunaOs.Kernel.Segments
import TunaOs.Multiboot2.Robust
import TunaOs.Pmm.Counters
import TunaOs.Ramfs.Names
import TunaOs.Ramfs.Undo
import TunaOs.Task.Alignment
import TunaOs.Kernel.Sessions
import TunaOs.Lib.Numeral
import TunaOs.Lib.Terminal
import TunaOs.Ramfs.Listing
import TunaOs.Shell.Editor
import TunaOs.Gdt.Model
import TunaOs.Gdt.Tables
import TunaOs.Idt.Dispatch
import TunaOs.Idt.Protection
import TunaOs.Kernel.Confined
import TunaOs.Lib.Fair
import TunaOs.Lib.Port
import TunaOs.Lib.Uart
import TunaOs.Serial.Console
import TunaOs.Boot.Model
import TunaOs.Boot.Start
import TunaOs.Lib.Pic
import TunaOs.Pic.Driver
import TunaOs.Elf.Copies
import TunaOs.Kernel.Budget
import TunaOs.Kernel.Main
import TunaOs.Lib.Pit
import TunaOs.Multiboot2.Log
import TunaOs.Pit.Driver
import TunaOs.Task.Ids
import TunaOs.Kernel.Apart
import TunaOs.Kernel.Guarded
