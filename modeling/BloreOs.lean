import BloreOs.Lib.ByteMemory
import BloreOs.Lib.Loop
import BloreOs.Lib.Lock
import BloreOs.Lib.Interrupts
import BloreOs.Lib.Driver
import BloreOs.Lib.Stack
import BloreOs.Lib.Span
import BloreOs.Lib.Chain
import BloreOs.Lib.Ring
import BloreOs.Lib.Buffer
import BloreOs.Lib.CharBuffer
import BloreOs.Lib.Page
import BloreOs.Lib.RadixWalk
import BloreOs.Basic
import BloreOs.Bitmap
import BloreOs.Mem.Memmap
import BloreOs.Mem.Pmm
import BloreOs.Mem.Scan
import BloreOs.Mem.Alloc
import BloreOs.Mem.PageSet
import BloreOs.Mem.Memmove
import BloreOs.Mem.Stats
import BloreOs.Mem.Init
import BloreOs.Mem.Carve
import BloreOs.Mem.Exact
import BloreOs.Mem.Blocks
import BloreOs.Mem.Accounting
import BloreOs.Mem.Reach
import BloreOs.Mem.AnyFree
import BloreOs.Mem.AnySize
import BloreOs.Mem.Cpus
import BloreOs.Bump
import BloreOs.Bump.Null
import BloreOs.Slob.Basic
import BloreOs.Slob.Pool
import BloreOs.Slob.Init
import BloreOs.Slob.Runs
import BloreOs.Slob.Frame
import BloreOs.Slob.AnySize
import BloreOs.Slob.Tight
import BloreOs.Queue.Basic
import BloreOs.System.Cursor
import BloreOs.Queue.Shared
import BloreOs.Queue.Create
import BloreOs.System.Machine
import BloreOs.System.Overlap
import BloreOs.System.Starved
import BloreOs.System.Exhaust
import BloreOs.Mem.Capacity
import BloreOs.Slob.Lazy
import BloreOs.Slob.Cycle
import BloreOs.Slob.Wrapped
import BloreOs.Ps2
import BloreOs.Queue.Keyboard
import BloreOs.Ps2.Controller
import BloreOs.Str.Digits
import BloreOs.Str.IntMin
import BloreOs.Str.Numeral
import BloreOs.Str.Format
import BloreOs.Str.Fits
import BloreOs.Str.Reads
import BloreOs.Str.Exact
import BloreOs.Str.Binary
import BloreOs.Str.Log
import BloreOs.Serial
import BloreOs.Terminal.Basic
import BloreOs.Terminal.Pixels
import BloreOs.Terminal.Bytes
import BloreOs.Terminal.Position
import BloreOs.Terminal.Text
import BloreOs.Terminal.Bounds
import BloreOs.Terminal.Keys
import BloreOs.Terminal.Command
import BloreOs.Terminal.Input
import BloreOs.Terminal.Prompt
import BloreOs.Terminal.Draws
import BloreOs.Terminal.Colour
import BloreOs.Cpuid
import BloreOs.System.Console
import BloreOs.Vm
import BloreOs.Gdt
import BloreOs.Idt
import BloreOs.Isr
import BloreOs.Smp
import BloreOs.Acpi.Basic
import BloreOs.Acpi.Madt
import BloreOs.Acpi.Tables
import BloreOs.Acpi.IoApic
import BloreOs.Acpi.Redirect
import BloreOs.Irq
import BloreOs.Pci.Basic
import BloreOs.Pci.Config
import BloreOs.Pci.Scan
import BloreOs.Pci.Window
import BloreOs.Pci.Records
import BloreOs.Pci.Nvme
import BloreOs.Hpet
import BloreOs.System.Interrupts
import BloreOs.Lapic
