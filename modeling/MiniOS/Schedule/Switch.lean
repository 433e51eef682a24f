import MiniOS.Lib.AssignmentLog
import MiniOS.Schedule.Process

/-!
# The switch between threads, step by step

A thread is named by the address of its `proc_struct_t`.  The control stack of
a thread is a list of frames, innermost first, and `esp` is the thread whose
stack is in use with the number of frames on it.  `schedule`,
`change_task_to` and `switch_to` are cut where the timer can interrupt them;
what the compiled code does with the registers in between is arbitrary.
-/

namespace MiniOS

/-- The registers of `context_t` other than `esp` and `eflags`. -/
structure Registers where
  ebp : Nat
  ebx : Nat
  esi : Nat
  edi : Nat
  deriving DecidableEq, Repr

/-- A position on the stack of `owner`, with `depth` frames from its bottom. -/
structure StackPointer where
  owner : Nat
  depth : Nat
  deriving DecidableEq, Repr

/-- `context_t`; of `eflags` only the interrupt flag matters here. -/
structure Context where
  esp : StackPointer
  registers : Registers
  interruptFlag : Bool
  deriving DecidableEq, Repr

/-- The fields of `proc_struct_t` that the switch uses. -/
structure Proc where
  context : Context
  kstack : Nat
  cr3 : Nat
  prev : Nat
  next : Nat
  deriving DecidableEq, Repr

/-- How far a call of `schedule` has come. -/
inductive ChangeStage where
  /-- `schedule` is called. -/
  | scheduling
  /-- `change_task_to(next)` is called. -/
  | entered (next : Nat)
  /-- `current` differs from `next` and is copied to `prev`. -/
  | currentRead (prev next : Nat)
  /-- `current = next` is done. -/
  | currentStored (prev next : Nat)
  /-- `set_kernel_stack(next->kstack)` is done. -/
  | kernelStackSet (prev next : Nat)
  /-- `switch_pgd(next->cr3)` is done. -/
  | directoryLoaded (prev : Nat)
  /-- `switch_to` has stored the registers into `prev->context`. -/
  | contextSaved (target : Nat)
  /-- `switch_to` has returned. -/
  | returning
  deriving DecidableEq, Repr

/-- How far a call of `kernel_thread` has come in linking its PCB. -/
inductive SpliceStage where
  /-- The block is filled, its own `next` and `prev` included. -/
  | built (new : Nat)
  /-- `running_proc_head->prev->next = new_proc` is done. -/
  | tailLinked (new : Nat)
  deriving DecidableEq, Repr

inductive Frame where
  /-- The three words of `kernel_thread`: `fn`, `kthread_exit` and `arg`. -/
  | entry
  /-- The thread's own code: `kern_init` or `fn`. -/
  | body
  | splice (stage : SpliceStage)
  | change (stage : ChangeStage)
  /-- What interrupt 32 pushed: the registers to give back at `iret`. -/
  | timer (registers : Registers)
  deriving DecidableEq, Repr

/-- The static variables, the PCBs with their stacks, and the processor. -/
structure Machine where
  /-- The address of the array `pgd_kern`. -/
  pgdKern : Nat
  runningProcHead : Nat
  current : Nat
  procs : Nat → Proc
  stackOf : Nat → List Frame
  /-- The blocks that hold a PCB. -/
  threads : List Nat
  /-- The thread into whose stack `esp` points. -/
  onStack : Nat
  registers : Registers
  interruptFlag : Bool
  /-- `esp0` of the task state segment. -/
  kernelStack : Nat
  /-- The page directory in `cr3`. -/
  pageDirectory : Nat

/-- What a step does to a saved context. -/
inductive Event where
  /-- `kernel_thread` made the initial frame and context of `thread`. -/
  | built (thread : Nat) (context : Context)
  /-- `switch_to` on the stack of `on` stored into `into->context`. -/
  | saved (into on : Nat) (context : Context)
  /-- `switch_to` loaded `source->context`. -/
  | loaded (source : Nat) (context : Context)
  deriving DecidableEq, Repr

inductive Action where
  /-- The timer interrupts. -/
  | tick
  /-- The innermost frame, if it is a kernel function, takes its next step. -/
  | run
  /-- Compiled code changes the registers. -/
  | compute (registers : Registers)
  /-- The thread's own code calls `schedule`. -/
  | callSchedule
  /-- The thread's own code calls `kernel_thread`, and `kmalloc` returns
  `block`. -/
  | callKernelThread (block : Nat)
  /-- `sti` or `cli` in the thread's own code. -/
  | setInterruptFlag (value : Bool)
  deriving DecidableEq, Repr

namespace Machine

variable (s : Machine)

def frames : List Frame := s.stackOf s.onStack

def withFrames (frames : List Frame) : Machine :=
  { s with stackOf := Function.update s.stackOf s.onStack frames }

def withProc (thread : Nat) (change : Proc → Proc) : Machine :=
  { s with
    procs := Function.update s.procs thread (change (s.procs thread)) }

def savedContext : Context :=
  ⟨⟨s.onStack, s.frames.length⟩, s.registers, s.interruptFlag⟩

/-- `ret` after the new `esp` is loaded: the word there leads back behind the
call of `switch_to`, or into `fn`. -/
def resume : Frame → Option Frame
  | .entry => some .body
  | .change (.contextSaved _) => some (.change .returning)
  | _ => none

def loadContext (context : Context) : Option Machine :=
  let stack := s.stackOf context.esp.owner
  match stack.drop (stack.length - context.esp.depth) with
  | [] => none
  | top :: rest => do
      let resumed ← resume top
      return {
        s with
        stackOf := Function.update s.stackOf context.esp.owner (resumed :: rest)
        onStack := context.esp.owner
        registers := context.registers
        interruptFlag := context.interruptFlag }

/-- The next step of `schedule` above the frames `rest`. -/
def runChange (rest : List Frame) :
    ChangeStage → Option (Machine × Option Event)
  | .scheduling =>
      if s.current = 0 then some (s.withFrames rest, none)
      else
        let next := (s.procs s.current).next
        some (s.withFrames (.change (.entered next) :: rest), none)
  | .entered next =>
      if s.current = next then some (s.withFrames rest, none)
      else
        some (s.withFrames (.change (.currentRead s.current next) :: rest),
          none)
  | .currentRead prev next =>
      some ({ s with current := next }.withFrames
        (.change (.currentStored prev next) :: rest), none)
  | .currentStored prev next =>
      some ({ s with kernelStack := (s.procs next).kstack }.withFrames
        (.change (.kernelStackSet prev next) :: rest), none)
  | .kernelStackSet prev next =>
      some ({ s with pageDirectory := (s.procs next).cr3 }.withFrames
        (.change (.directoryLoaded prev) :: rest), none)
  | .directoryLoaded prev =>
      -- the second argument of `switch_to` reads `current` again
      let context := s.savedContext
      let stored := s.withProc prev fun proc => { proc with context := context }
      some (stored.withFrames (.change (.contextSaved s.current) :: rest),
        some (.saved prev s.onStack context))
  | .contextSaved target => do
      let context := (s.procs target).context
      let loaded ← s.loadContext context
      return (loaded, some (.loaded target context))
  | .returning => some (s.withFrames rest, none)

/-- The next step of `kernel_thread` above the frames `rest`. -/
def runSplice (rest : List Frame) : SpliceStage → Machine
  | .built new =>
      (s.withProc (s.procs s.runningProcHead).prev fun proc =>
        { proc with next := new }).withFrames
          (.splice (.tailLinked new) :: rest)
  | .tailLinked new =>
      (s.withProc s.runningProcHead fun proc =>
        { proc with prev := new }).withFrames rest

/-- `iret`: only code with interrupts enabled was interrupted. -/
def returnFromTimer (registers : Registers) (rest : List Frame) : Machine :=
  { s with registers := registers, interruptFlag := true }.withFrames rest

/-- The PCB that `kernel_thread` makes in `block`. -/
def newProc (block : Nat) : Proc where
  context := ⟨⟨block, 1⟩, ⟨0, 0, 0, 0⟩, true⟩
  kstack := block + stackSize
  cr3 := s.pgdKern - pageOffset
  prev := (s.procs s.runningProcHead).prev
  next := s.runningProcHead

def buildThread (block : Nat) : Machine :=
  { s with
    procs := Function.update s.procs block (s.newProc block)
    stackOf := Function.update s.stackOf block [.entry]
    threads := block :: s.threads }

end Machine

open Machine in
/-- One step of the kernel; `none` where the action is not possible. -/
def step (s : Machine) : Action → Option (Machine × Option Event)
  | .tick =>
      -- gate 32 is an interrupt gate: the handler starts with the flag clear
      if s.interruptFlag then
        some ({ s with interruptFlag := false }.withFrames
          (.change .scheduling :: .timer s.registers :: s.frames), none)
      else none
  | .run =>
      match s.frames with
      | .change stage :: rest => s.runChange rest stage
      | .splice stage :: rest => some (s.runSplice rest stage, none)
      | .timer registers :: rest => some (s.returnFromTimer registers rest, none)
      | _ => none
  | .compute registers => some ({ s with registers := registers }, none)
  | .callSchedule =>
      match s.frames with
      | .body :: rest =>
          some (s.withFrames (.change .scheduling :: .body :: rest), none)
      | _ => none
  | .callKernelThread block =>
      match s.frames with
      | .body :: rest =>
          if block = 0 ∨ block ∈ s.threads then none
          else
            some ((s.buildThread block).withFrames
                (.splice (.built block) :: .body :: rest),
              some (.built block (s.newProc block).context))
      | _ => none
  | .setInterruptFlag value =>
      match s.frames with
      | .body :: _ => some ({ s with interruptFlag := value }, none)
      | _ => none

open Machine in
/-- What a step does, for each action. -/
inductive StepTaken (s : Machine) :
    Action → Machine → Option Event → Prop where
  | tick (enabled : s.interruptFlag = true) :
      StepTaken s .tick ({ s with interruptFlag := false }.withFrames
        (.change .scheduling :: .timer s.registers :: s.frames)) none
  | change {stage : ChangeStage} {rest : List Frame} {s' : Machine}
      {event : Option Event} (split : s.frames = .change stage :: rest)
      (taken : s.runChange rest stage = some (s', event)) :
      StepTaken s .run s' event
  | splice {stage : SpliceStage} {rest : List Frame}
      (split : s.frames = .splice stage :: rest) :
      StepTaken s .run (s.runSplice rest stage) none
  | timer {registers : Registers} {rest : List Frame}
      (split : s.frames = .timer registers :: rest) :
      StepTaken s .run (s.returnFromTimer registers rest) none
  | compute (registers : Registers) :
      StepTaken s (.compute registers) { s with registers := registers } none
  | callSchedule {rest : List Frame} (split : s.frames = .body :: rest) :
      StepTaken s .callSchedule
        (s.withFrames (.change .scheduling :: .body :: rest)) none
  | callKernelThread {block : Nat} {rest : List Frame}
      (split : s.frames = .body :: rest) (nonnull : block ≠ 0) :
      StepTaken s (.callKernelThread block)
        ((s.buildThread block).withFrames
          (.splice (.built block) :: .body :: rest))
        (some (.built block (s.newProc block).context))
  | setInterruptFlag (value : Bool) {rest : List Frame}
      (split : s.frames = .body :: rest) :
      StepTaken s (.setInterruptFlag value) { s with interruptFlag := value }
        none

theorem step_taken {s s' : Machine} {action : Action} {event : Option Event}
    (taken : step s action = some (s', event)) :
    StepTaken s action s' event := by
  cases action with
  | tick =>
      rw [step] at taken
      split at taken
      · rename_i enabled
        cases taken
        exact .tick enabled
      · cases taken
  | run =>
      rw [step] at taken
      split at taken
      · rename_i split
        exact .change split taken
      · rename_i split
        cases taken
        exact .splice split
      · rename_i split
        cases taken
        exact .timer split
      · cases taken
  | compute registers =>
      cases taken
      exact .compute registers
  | callSchedule =>
      rw [step] at taken
      split at taken
      · rename_i split
        cases taken
        exact .callSchedule split
      · cases taken
  | callKernelThread block =>
      rw [step] at taken
      split at taken
      · rename_i split
        split at taken
        · cases taken
        · rename_i free
          cases taken
          exact .callKernelThread split fun null => free (.inl null)
      · cases taken
  | setInterruptFlag value =>
      rw [step] at taken
      split at taken
      · rename_i split
        cases taken
        exact .setInterruptFlag value split
      · cases taken

def schedStart (kernStack pgdKern : Nat) (registers : Registers) : Machine :=
  let idle := idleProc kernStack
  let context := ⟨⟨0, 0⟩, ⟨0, 0, 0, 0⟩, false⟩
  { pgdKern := pgdKern
    runningProcHead := idle
    current := idle
    procs := fun _ =>
      ⟨context, kernStack + stackSize, pgdKern - pageOffset, idle, idle⟩
    stackOf := fun _ => [.body]
    threads := [idle]
    onStack := idle
    registers := registers
    interruptFlag := false
    kernelStack := kernStack + stackSize
    pageDirectory := pgdKern - pageOffset }

/-! ## Runs and what they do to the saved contexts -/

/-- The states a run reaches, with its events; a step is taken only where
`allowed` lets it. -/
inductive Runs (allowed : Machine → Action → Prop) (start : Machine) :
    List Event → Machine → Prop
  | start : Runs allowed start [] start
  | step {events : List Event} {s s' : Machine} {action : Action}
      {event : Option Event} (run : Runs allowed start events s)
      (permitted : allowed s action) (taken : step s action = some (s', event)) :
      Runs allowed start (events ++ event.toList) s'

/-- The assignment to a thread's own context that an event makes: what
`kernel_thread` built for it, or what was stored while it was executing. -/
def Event.ownAssignment : Event → Option (Nat × Option Context)
  | .built thread context => some (thread, some context)
  | .saved _ on context => some (on, some context)
  | .loaded _ _ => none

/-- What `thread` stored when it was last switched out. -/
def ownContext (events : List Event) : Nat → Option Context :=
  AssignmentLog.after (fun _ => none) (events.filterMap Event.ownAssignment)

/-- `switch_to` stores into the context of the thread it runs on, and loads
what that thread itself stored. -/
def Event.Proper (before : List Event) : Event → Prop
  | .built _ _ => True
  | .saved into on _ => into = on
  | .loaded source context => ownContext before source = some context

/-- Every event of a run is proper after those before it. -/
def NeverMixed (events : List Event) : Prop :=
  ∀ (before : List Event) (event : Event) (later : List Event),
    events = before ++ event :: later → event.Proper before

/-- `current` is ahead of the stack in use. -/
def ChangeStage.InWindow : ChangeStage → Prop
  | .currentStored _ _ | .kernelStackSet _ _ | .directoryLoaded _
  | .contextSaved _ => True
  | .scheduling | .entered _ | .currentRead _ _ | .returning => False

def Frame.InWindow : Frame → Prop
  | .change stage => stage.InWindow
  | .entry | .body | .splice _ | .timer _ => False

instance : DecidablePred ChangeStage.InWindow
  | .currentStored _ _ | .kernelStackSet _ _ | .directoryLoaded _
  | .contextSaved _ => isTrue trivial
  | .scheduling | .entered _ | .currentRead _ _ | .returning => isFalse id

instance : DecidablePred Frame.InWindow
  | .change stage => inferInstanceAs (Decidable stage.InWindow)
  | .entry | .body | .splice _ | .timer _ => isFalse id

/-- No tick is taken between the store of `current` and the load of the next
thread's registers. -/
def TickOutsideWindow (s : Machine) : Action → Prop
  | .tick => ∀ top ∈ s.frames.head?, ¬ top.InWindow
  | _ => True

instance : DecidableRel TickOutsideWindow := fun s action =>
  match action with
  | .tick => inferInstanceAs (Decidable (∀ top ∈ s.frames.head?, _))
  | .run | .compute _ | .callSchedule | .callKernelThread _
  | .setInterruptFlag _ => isTrue trivial

section Execution

variable (allowed : Machine → Action → Prop) [DecidableRel allowed]

def execute (s : Machine) : List Action → Option (Machine × List Event)
  | [] => some (s, [])
  | action :: later =>
      if allowed s action then do
        let (s', event) ← step s action
        let (last, events) ← execute s' later
        return (last, event.toList ++ events)
      else none

variable {allowed}

theorem Runs.execute {start s last : Machine} {before events : List Event}
    {actions : List Action} (run : Runs allowed start before s)
    (executed : execute allowed s actions = some (last, events)) :
    Runs allowed start (before ++ events) last := by
  induction actions generalizing s before events with
  | nil =>
      cases executed
      rwa [List.append_nil]
  | cons action later induction =>
      rw [MiniOS.execute] at executed
      split at executed
      · rename_i permitted
        obtain ⟨⟨s', event⟩, taken, continued⟩ :=
          Option.bind_eq_some_iff.mp executed
        obtain ⟨⟨final, rest⟩, remaining, result⟩ :=
          Option.bind_eq_some_iff.mp continued
        cases result
        rw [← List.append_assoc]
        exact induction (run.step permitted taken) remaining
      · cases executed

end Execution

end MiniOS
