import MiniOS.Kernel

/-!
# Process control blocks

A PCB lies at the lowest addresses of the block that also holds the stack of
its thread.  The routines of `proc.c` and `sched.c` are state transformers
over the bytes of memory; blocks end at or below 4 GB, so that addresses of
fields do not wrap.  `kmalloc` is represented by the block it returns.
-/

namespace MiniOS

open ByteMemory

abbrev stackSize : Nat := 8192

/-! ## The layout of `proc_struct_t` -/

abbrev stateOffset : Nat := 0
abbrev contextOffset : Nat := 8
abbrev kstackOffset : Nat := 32
abbrev cr3Offset : Nat := 36
abbrev pidOffset : Nat := 40
abbrev nameOffset : Nat := 44
abbrev prevOffset : Nat := 68
abbrev nextOffset : Nat := 72

abbrev procSize : Nat := 76

abbrev procNameLen : Nat := 15

abbrev taskRunnable : Nat := 2

def procNext (mem : Mem) (proc : Nat) : Nat := load32 mem (proc + nextOffset)
def procPrev (mem : Mem) (proc : Nat) : Nat := load32 mem (proc + prevOffset)
def procPid (mem : Mem) (proc : Nat) : Nat := load32 mem (proc + pidOffset)

/-- The processor state that a switch touches; the first six are the words of
`context_t`. -/
structure Cpu where
  esp : Nat
  ebp : Nat
  ebx : Nat
  esi : Nat
  edi : Nat
  eflags : Nat
  cr3 : Nat
  esp0 : Nat

/-- Memory, the static variables of `proc.c` and `sched.c`, and the processor. -/
structure Sched where
  mem : Mem
  nowPid : Nat
  runningProcHead : Nat
  current : Nat
  cpu : Cpu

/-! ## Names -/

/-- `strcpy` from a string with the characters `src` before its NUL. -/
def strcpy (mem : Mem) (dest : Nat) : List UInt8 → Mem
  | [] => store8 mem dest 0
  | char :: src => strcpy (store8 mem dest char) (dest + 1) src

def setProcName (mem : Mem) (proc : Nat) (name : List UInt8) : Mem :=
  strcpy (fill mem (proc + nameOffset) 0 (procNameLen + 1)) (proc + nameOffset)
    name

/-! ## `sched.c` -/

/-- `kern_stack_top` of `entry.c`. -/
def kernStackTop (kernStack : Nat) : Nat :=
  uint32 (kernStack + stackSize) &&& 0xFFFFFFF0

def idleProc (kernStack : Nat) : Nat := kernStackTop kernStack - stackSize

def initSched (kernStack pgdKern : Nat) (s : Sched) : Sched :=
  let current := idleProc kernStack
  let mem := store32 s.mem (current + stateOffset) taskRunnable
  let mem := store32 mem (current + pidOffset) s.nowPid
  let mem := setProcName mem current (literal "idleproc")
  let mem := store32 mem (current + cr3Offset) (pgdKern - pageOffset)
  let mem := store32 mem (current + kstackOffset) (kernStack + stackSize)
  let mem := store32 mem (current + nextOffset) current
  let mem := store32 mem (current + prevOffset) current
  { s with
    mem := mem
    nowPid := uint32 (s.nowPid + 1)
    current := current
    runningProcHead := current }

/-- `switch_to`: the registers go to `prev` and come from `next`. -/
def switchTo (prev next : Nat) (s : Sched) : Sched :=
  let mem := store32 s.mem prev s.cpu.esp
  let mem := store32 mem (prev + 4) s.cpu.ebp
  let mem := store32 mem (prev + 8) s.cpu.ebx
  let mem := store32 mem (prev + 12) s.cpu.esi
  let mem := store32 mem (prev + 16) s.cpu.edi
  let mem := store32 mem (prev + 20) s.cpu.eflags
  { s with
    mem := mem
    cpu := {
      s.cpu with
      esp := load32 mem next
      ebp := load32 mem (next + 4)
      ebx := load32 mem (next + 8)
      esi := load32 mem (next + 12)
      edi := load32 mem (next + 16)
      eflags := load32 mem (next + 20) } }

def changeTaskTo (next : Nat) (s : Sched) : Sched :=
  if s.current ≠ next then
    let prev := s.current
    let s := { s with current := next }
    let s := { s with
      cpu := { s.cpu with
        esp0 := load32 s.mem (next + kstackOffset)
        cr3 := load32 s.mem (next + cr3Offset) } }
    switchTo (prev + contextOffset) (s.current + contextOffset) s
  else s

def schedule (s : Sched) : Sched :=
  if s.current ≠ 0 then changeTaskTo (procNext s.mem s.current) s else s

/-! ## `proc.c` -/

section KernelThread

variable (pgdKern fn kthreadExit arg : Nat)

def fillProc (newProc : Nat) (s : Sched) : Sched :=
  let mem := fill s.mem newProc 0 procSize
  let mem := store32 mem (newProc + cr3Offset) (pgdKern - pageOffset)
  let mem := store32 mem (newProc + stateOffset) taskRunnable
  let mem := store32 mem (newProc + pidOffset) s.nowPid
  let mem := setProcName mem newProc (literal "")
  let mem := store32 mem (newProc + kstackOffset) (newProc + stackSize)
  let stackTop := newProc + stackSize
  let mem := store32 mem (stackTop - 4) arg
  let mem := store32 mem (stackTop - 8) kthreadExit
  let mem := store32 mem (stackTop - 12) fn
  let mem := store32 mem (newProc + contextOffset) (newProc + stackSize - 3 * 4)
  let mem := store32 mem (newProc + contextOffset + 20) 0x200
  { s with mem := mem, nowPid := uint32 (s.nowPid + 1) }

def linkProc (newProc : Nat) (s : Sched) : Sched :=
  let head := s.runningProcHead
  let mem := store32 s.mem (newProc + nextOffset) head
  let mem := store32 mem (newProc + prevOffset) (procPrev mem head)
  let mem := store32 mem (procPrev mem head + nextOffset) newProc
  let mem := store32 mem (head + prevOffset) newProc
  { s with mem := mem }

/-- `kernel_thread(fn, arg)` when `kmalloc` returns `newProc`: the pid and the
state after the call. -/
def kernelThread (newProc : Nat) (s : Sched) : Except Stop (Nat × Sched) :=
  if newProc ≠ 0 then
    let s := linkProc newProc (fillProc pgdKern fn kthreadExit arg newProc s)
    .ok (procPid s.mem newProc, s)
  else .error (.panic "kernel_thread : kmalloc error\n")

end KernelThread

/-! ## Runs -/

def RangesApart (left leftSize right rightSize : Nat) : Prop :=
  left + leftSize ≤ right ∨ right + rightSize ≤ left

/-- The bytes of all PCBs. -/
def SamePcbs (procs : List Nat) (left right : Mem) : Prop :=
  ∀ proc ∈ procs, ∀ x, proc ≤ x → x < proc + procSize → left x = right x

/-- What `kmalloc(STACK_SIZE)` promises about its block: the idle thread's PCB
and the blocks of the other threads lie elsewhere. -/
structure FreshBlock (kernStack : Nat) (created : List Nat) (block : Nat) :
    Prop where
  upper : block + stackSize ≤ 4294967296
  idle : RangesApart block stackSize (idleProc kernStack) procSize
  live : ∀ other ∈ created, RangesApart block stackSize other stackSize

/-- The states after `init_sched` and calls of `kernel_thread` and `schedule`,
with the threads created so far.  What the running code does in between
leaves the PCBs alone. -/
inductive SchedRun (kernStack pgdKern kthreadExit : Nat) :
    List Nat → Sched → Prop
  | start {s : Sched} (first : s.nowPid = 0) :
      SchedRun kernStack pgdKern kthreadExit [] (initSched kernStack pgdKern s)
  | kernelThread {created : List Nat} {s s' : Sched}
      {fn arg block pid : Nat}
      (run : SchedRun kernStack pgdKern kthreadExit created s)
      (fresh : FreshBlock kernStack created block)
      (returned : kernelThread pgdKern fn kthreadExit arg block s =
        .ok (pid, s')) :
      SchedRun kernStack pgdKern kthreadExit (created ++ [block]) s'
  | schedule {created : List Nat} {s : Sched}
      (run : SchedRun kernStack pgdKern kthreadExit created s) :
      SchedRun kernStack pgdKern kthreadExit created (schedule s)
  | compute {created : List Nat} {s : Sched} {mem : Mem} {cpu : Cpu}
      (run : SchedRun kernStack pgdKern kthreadExit created s)
      (same : SamePcbs (idleProc kernStack :: created) mem s.mem) :
      SchedRun kernStack pgdKern kthreadExit created
        { s with mem := mem, cpu := cpu }

end MiniOS
