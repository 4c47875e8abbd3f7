import SimpleKernel.Lib.Lts
import SimpleKernel.Heap.Accounting
import SimpleKernel.Pmm.Firmware
import SimpleKernel.Rtc.Settle
import SimpleKernel.Rtc.Decode
import SimpleKernel.Vga.Terminal
import SimpleKernel.Pmm.Frames
import SimpleKernel.Input.Keyboard
import SimpleKernel.Shell.Model
import SimpleKernel.Shell.Parser
import SimpleKernel.Lib.Ring
import SimpleKernel.Shell.History
import SimpleKernel.Shell.Editing
import SimpleKernel.Shell.Editor
import SimpleKernel.Vga.Bounds
import SimpleKernel.Input.Queue
import SimpleKernel.Input.Serial
import SimpleKernel.Input.Scancodes
import SimpleKernel.Pmm.Counters
import SimpleKernel.Heap.Requests
import SimpleKernel.Lib.Stack
import SimpleKernel.Lib.Numeral
import SimpleKernel.Kstring.Numbers
import SimpleKernel.Pci.Model
import SimpleKernel.Pci.Enumerate
import SimpleKernel.Trap.Model
import SimpleKernel.Trap.Transparent
import SimpleKernel.Boot.Stage2
import SimpleKernel.Boot.Paging
import SimpleKernel.Boot.Handoff
import SimpleKernel.Boot.Load
import SimpleKernel.Lib.Tape
import SimpleKernel.Vga.Scrollback
import SimpleKernel.Pmm.Ranges
import SimpleKernel.Pmm.FrameZero
import SimpleKernel.Rtc.Snapshot
import SimpleKernel.Shell.Sleep
import SimpleKernel.Vga.Entry
import SimpleKernel.Heap.Alignment
import SimpleKernel.Heap.FirstFit
import SimpleKernel.Heap.RepeatedFree
import SimpleKernel.Heap.Calloc
import SimpleKernel.Shell.Screen
import SimpleKernel.Vga.Shift
import SimpleKernel.Idt
import SimpleKernel.Trap.Irq
import SimpleKernel.Trap.Init
import SimpleKernel.Boot.Entry
import SimpleKernel.Console.Model
import SimpleKernel.Cpuinfo
import SimpleKernel.Heap.Rest
import SimpleKernel.Lib.Format
import SimpleKernel.Shell.Allocdemo
import SimpleKernel.Shell.Answers
import SimpleKernel.Shell.Session
import SimpleKernel.Shell.Terminal
import SimpleKernel.Shell.Listings
