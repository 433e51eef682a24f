import MiniOS.Lib.Memory
import MiniOS.Lib.Outcome
import MiniOS.Lib.StateView
import MiniOS.Lib.AssignmentLog
import MiniOS.Lib.Tiling
import MiniOS.Lib.LinkedChain
import MiniOS.Lib.RecordedArray
import MiniOS.Lib.RingBuffer
import MiniOS.Lib.Scan
import MiniOS.Lib.RoundRobin
import MiniOS.Lib.X86
import MiniOS.Lib.X86Routine
import MiniOS.Lib.Pic8259
import MiniOS.Lib.Pit8254
import MiniOS.Lib.Tlb
import MiniOS.Kernel
import MiniOS.Mm.Pmm
import MiniOS.Mm.BootMemory
import MiniOS.Mm.BootSoundness
import MiniOS.Mm.BootFrames
import MiniOS.Mm.MemoryMapWalk
import MiniOS.Mm.SymbolTables
import MiniOS.Mm.Vmm
import MiniOS.Mm.Heap
import MiniOS.Mm.PageMap
import MiniOS.Mm.KernelImage
import MiniOS.Mm.HeapPaging
import MiniOS.Mm.HeapGrowth
import MiniOS.Mm.DirectMap
import MiniOS.Mm.EntryFormat
import MiniOS.Mm.HeapLoops
import MiniOS.Mm.GrowthLoop
import MiniOS.Mm.ChunkHeader
import MiniOS.Mm.ChunkList
import MiniOS.Mm.HeapOps
import MiniOS.Mm.HeapState
import MiniOS.Mm.Kmalloc
import MiniOS.Mm.Kfree
import MiniOS.Mm.HeapRun
import MiniOS.Mm.HeapRoom
import MiniOS.Mm.KmallocArithmetic
import MiniOS.Mm.HeapContract
import MiniOS.Mm.KmallocEffect
import MiniOS.Mm.OutOfFrames
import MiniOS.Mm.FrameDemand
import MiniOS.Mm.Gdt
import MiniOS.Mm.FreeOrder
import MiniOS.Mm.PageMapRefinement
import MiniOS.Mm.TlbCoherence
import MiniOS.Schedule.Process
import MiniOS.Schedule.Ring
import MiniOS.Schedule.Switchasm
import MiniOS.Schedule.ContextSwitch
import MiniOS.Schedule.Switch
import MiniOS.Schedule.SwitchSafety
import MiniOS.Schedule.Panic
import MiniOS.Schedule.ThreadExit
import MiniOS.Schedule.Rotation
import MiniOS.Schedule.ThreadMemory
import MiniOS.Schedule.ThreadHeap
import MiniOS.Schedule.KernelRun
import MiniOS.Boot.Entry
import MiniOS.Boot.KernInit
import MiniOS.Schedule.ProcName
import MiniOS.Trap.Idt
import MiniOS.Trap.Idtasm
import MiniOS.Trap.Interrupts
import MiniOS.Trap.Preemption
import MiniOS.Trap.PageFault
import MiniOS.Trap.Unhandled
import MiniOS.Debug.Printk
import MiniOS.Debug.Number
import MiniOS.Debug.NumberText
import MiniOS.Debug.FormatGrammar
import MiniOS.Debug.Directive
import MiniOS.Debug.Vsprintf
import MiniOS.Debug.FormatPointer
import MiniOS.Debug.PrintLength
import MiniOS.Debug.Elf
import MiniOS.Debug.SymbolLookup
import MiniOS.Debug.StackTrace
import MiniOS.Driver.Console
import MiniOS.Driver.Terminal
import MiniOS.Driver.KeyboardBuffer
import MiniOS.Driver.KeyboardCalls
import MiniOS.Driver.Keymap
import MiniOS.Driver.Keyboard
import MiniOS.Driver.KeySequence
import MiniOS.Driver.DecodeKey
import MiniOS.Driver.KeyStream
import MiniOS.Driver.Tty
import MiniOS.Driver.Printing
import MiniOS.Debug.PanicScreen
import MiniOS.Boot.BootLog
import MiniOS.Boot.MemoryMapScreen
import MiniOS.Debug.StringRoutines
import MiniOS.Driver.Modifiers
import MiniOS.Driver.ReadAhead
import MiniOS.Driver.Clock
