import Mathlib.Logic.Relation
import MiniOS.Schedule.Ring
import MiniOS.Schedule.SwitchSafety

/-!
# Panic under the timer

`panic` prints a line and the stack, and then spins.  It neither clears the
interrupt flag nor takes the thread out of the ring: a thread that has entered
it makes no call of its own any more, but the timer goes on calling `schedule`
above its code.

After `init_vmm` the walk of `print_stack_trace` page-faults on the symbol
table, and `page_fault` spins with the interrupt flag clear.  What a tick can
interrupt is then the first `printk` of `panic`; the steps of this module leave
open how far the code of `panic` has come.
-/

namespace MiniOS

/-! ## Threads that have panicked -/

/-- The kernel with the threads whose own code has entered `panic`. -/
structure PanicMachine where
  machine : Machine
  panicked : List Nat

inductive PanicAction where
  | take (action : Action)
  /-- An `assert` fails in `pmm_alloc_page`, `pmm_free_page` or
  `kernel_thread`, called by the thread's own code. -/
  | assertFails
  deriving DecidableEq, Repr

/-- What only the thread's own code does. -/
def Action.ofBody : Action → Bool
  | .callSchedule | .callKernelThread _ | .setInterruptFlag _ => true
  | .tick | .run | .compute _ => false

namespace PanicMachine

/-- One step; a thread in `panic` makes no call that changes the machine. -/
def step (s : PanicMachine) : PanicAction → Option PanicMachine
  | .take action =>
      if action.ofBody = true ∧ s.machine.onStack ∈ s.panicked then none
      else do
        let (machine, _) ← MiniOS.step s.machine action
        return { s with machine := machine }
  | .assertFails =>
      match s.machine.frames with
      | .body :: _ =>
          if s.machine.onStack ∈ s.panicked then none
          else some { s with panicked := s.machine.onStack :: s.panicked }
      | _ => none

def start (kernStack pgdKern : Nat) (registers : Registers) : PanicMachine :=
  ⟨schedStart kernStack pgdKern registers, []⟩

def Steps (s s' : PanicMachine) : Prop := ∃ action, s.step action = some s'

/-- A run of any number of steps, ticks at any point included. -/
abbrev Reaches : PanicMachine → PanicMachine → Prop :=
  Relation.ReflTransGen Steps

/-- The thread is the one that executes, and `current` says so. -/
def Executes (thread : Nat) (s : PanicMachine) : Prop :=
  s.machine.current = thread ∧ s.machine.onStack = thread

def runActions (actions : List PanicAction) (s : PanicMachine) :
    Option PanicMachine :=
  actions.foldlM step s

theorem reaches_runActions {actions : List PanicAction} {s last : PanicMachine}
    (ran : s.runActions actions = some last) : Reaches s last := by
  induction actions generalizing s with
  | nil =>
      cases ran
      exact .refl
  | cons action later induction =>
      rw [runActions, List.foldlM_cons] at ran
      obtain ⟨next, taken, continued⟩ := Option.bind_eq_some_iff.mp ran
      exact .head ⟨action, taken⟩ (induction continued)

theorem step_cases {s s' : PanicMachine} {action : PanicAction}
    (taken : s.step action = some s') :
    (∃ own machine event, action = .take own ∧
        MiniOS.step s.machine own = some (machine, event) ∧
        (own.ofBody = true → s.machine.onStack ∉ s.panicked) ∧
        s' = { s with machine := machine }) ∨
      (∃ rest, action = .assertFails ∧ s.machine.frames = .body :: rest ∧
        s.machine.onStack ∉ s.panicked ∧
        s' = { s with panicked := s.machine.onStack :: s.panicked }) := by
  cases action with
  | take own =>
      rw [step] at taken
      split at taken
      · cases taken
      · rename_i free
        obtain ⟨⟨machine, event⟩, stepped, result⟩ :=
          Option.bind_eq_some_iff.mp taken
        cases result
        refine .inl ⟨own, machine, event, rfl, stepped, ?_, rfl⟩
        exact fun ofBody member => free ⟨ofBody, member⟩
  | assertFails =>
      rw [step] at taken
      split at taken
      · rename_i rest split
        split at taken
        · cases taken
        · rename_i free
          cases taken
          exact .inr ⟨rest, rfl, split, free, rfl⟩
      · cases taken

/-- An assertion only fails in a thread's own code, and changes nothing else. -/
theorem assertFails_cases {s s' : PanicMachine}
    (fails : s.step .assertFails = some s') :
    ∃ rest, s.machine.frames = .body :: rest ∧
      s' = { s with panicked := s.machine.onStack :: s.panicked } := by
  rcases step_cases fails with ⟨_, _, _, impossible, _⟩ |
    ⟨rest, _, split, _, same⟩
  · cases impossible
  · exact ⟨rest, split, same⟩

end PanicMachine

/-! ## `current` is never null -/

/-- The PCB to which a frame will lead is that of a thread. -/
def Frame.LeadsTo (threads : List Nat) : Frame → Prop
  | .change (.entered next) | .change (.currentRead _ next) => next ∈ threads
  | .splice (.built new) | .splice (.tailLinked new) => new ∈ threads
  | .change _ | .entry | .body | .timer _ => True

theorem Frame.LeadsTo.mono {threads more : List Nat} {frame : Frame}
    (leadsTo : frame.LeadsTo threads) (subset : threads ⊆ more) :
    frame.LeadsTo more := by
  match frame with
  | .change (.entered _) | .change (.currentRead _ _) => exact subset leadsTo
  | .splice (.built _) | .splice (.tailLinked _) => exact subset leadsTo
  | .change .scheduling | .change (.currentStored _ _)
  | .change (.kernelStackSet _ _) | .change (.directoryLoaded _)
  | .change (.contextSaved _) | .change .returning | .entry | .body
  | .timer _ => trivial

/-- What holds in every state, whenever the ticks come. -/
structure Linked (s : Machine) : Prop where
  nonnull : 0 ∉ s.threads
  head_mem : s.runningProcHead ∈ s.threads
  current_mem : s.current ∈ s.threads
  next_mem : ∀ thread ∈ s.threads, (s.procs thread).next ∈ s.threads
  prev_mem : ∀ thread ∈ s.threads, (s.procs thread).prev ∈ s.threads
  leadsTo : ∀ thread, ∀ frame ∈ s.stackOf thread, frame.LeadsTo s.threads

namespace Linked

variable {s : Machine}

theorem withFrames {frames : List Frame} (linked : Linked s)
    (leadsTo : ∀ frame ∈ frames, frame.LeadsTo s.threads) :
    Linked (s.withFrames frames) :=
  { linked with
    leadsTo := by
      intro thread
      by_cases same : thread = s.onStack
      · subst same
        simpa [Machine.withFrames] using leadsTo
      · simpa [Machine.withFrames, same] using linked.leadsTo thread }

theorem push {frame : Frame} {rest : List Frame} (linked : Linked s)
    (stay : ∀ frame ∈ rest, frame.LeadsTo s.threads)
    (leadsTo : frame.LeadsTo s.threads) :
    Linked (s.withFrames (frame :: rest)) :=
  linked.withFrames (List.forall_mem_cons.mpr ⟨leadsTo, stay⟩)

theorem frames (linked : Linked s) :
    ∀ frame ∈ s.frames, frame.LeadsTo s.threads :=
  linked.leadsTo s.onStack

theorem withProc {owner : Nat} {change : Proc → Proc} (linked : Linked s)
    (next : ∀ proc, proc.next ∈ s.threads → (change proc).next ∈ s.threads)
    (prev : ∀ proc, proc.prev ∈ s.threads → (change proc).prev ∈ s.threads) :
    Linked (s.withProc owner change) :=
  { linked with
    next_mem := Threads.withProc_link linked.next_mem next
    prev_mem := Threads.withProc_link linked.prev_mem prev }

/-- What `ret` resumes leads nowhere new. -/
theorem loadContext {context : Context} {s' : Machine} (linked : Linked s)
    (loaded : s.loadContext context = some s') : Linked s' := by
  have leadsTo := linked.leadsTo context.esp.owner
  rw [Machine.loadContext] at loaded
  split at loaded
  · cases loaded
  · rename_i top rest split
    obtain ⟨resumed, resume, result⟩ := Option.bind_eq_some_iff.mp loaded
    cases result
    have stays : ∀ frame ∈ rest, frame.LeadsTo s.threads := by
      intro frame member
      apply leadsTo frame
      apply List.mem_of_mem_drop
      rw [split]
      exact List.mem_cons_of_mem top member
    have there : resumed.LeadsTo s.threads := by
      cases top with
      | entry =>
          cases resume
          trivial
      | change stage =>
          -- Only a saved context is resumed.
          cases stage <;> cases resume
          trivial
      | splice _ | body | timer _ => cases resume
    exact { linked with
      leadsTo := by
        intro thread
        by_cases same : thread = context.esp.owner
        · subst same
          simpa using ⟨there, stays⟩
        · simpa [same] using linked.leadsTo thread }

theorem runChange {stage : ChangeStage} {rest : List Frame} {s' : Machine}
    {event : Option Event} (linked : Linked s)
    (split : s.frames = .change stage :: rest)
    (taken : s.runChange rest stage = some (s', event)) : Linked s' := by
  obtain ⟨top, stay⟩ : (Frame.change stage).LeadsTo s.threads ∧
      ∀ frame ∈ rest, frame.LeadsTo s.threads :=
    List.forall_mem_cons.mp (split ▸ linked.frames)
  cases stage with
  | scheduling =>
      simp only [Machine.runChange] at taken
      split at taken
      · cases taken
        exact linked.withFrames stay
      · cases taken
        exact linked.push stay (linked.next_mem s.current linked.current_mem)
  | entered next =>
      simp only [Machine.runChange] at taken
      split at taken
      · cases taken
        exact linked.withFrames stay
      · cases taken
        exact linked.push stay top
  | currentRead prev next =>
      cases taken
      have moved : Linked { s with current := next } :=
        { linked with current_mem := top }
      exact moved.push stay trivial
  | currentStored prev next =>
      cases taken
      have set : Linked { s with kernelStack := (s.procs next).kstack } :=
        { linked with }
      exact set.push stay trivial
  | kernelStackSet prev next =>
      cases taken
      have set : Linked { s with pageDirectory := (s.procs next).cr3 } :=
        { linked with }
      exact set.push stay trivial
  | directoryLoaded prev =>
      cases taken
      have stored : Linked (s.withProc prev fun proc =>
          { proc with context := s.savedContext }) :=
        linked.withProc (fun _ kept => kept) fun _ kept => kept
      exact stored.push stay trivial
  | contextSaved target =>
      obtain ⟨loaded, load, result⟩ := Option.bind_eq_some_iff.mp taken
      cases result
      exact linked.loadContext load
  | returning =>
      cases taken
      exact linked.withFrames stay

theorem runSplice {stage : SpliceStage} {rest : List Frame}
    (linked : Linked s) (split : s.frames = .splice stage :: rest) :
    Linked (s.runSplice rest stage) := by
  obtain ⟨top, stay⟩ : (Frame.splice stage).LeadsTo s.threads ∧
      ∀ frame ∈ rest, frame.LeadsTo s.threads :=
    List.forall_mem_cons.mp (split ▸ linked.frames)
  cases stage with
  | built new =>
      have member : new ∈ s.threads := top
      have set : Linked (s.withProc (s.procs s.runningProcHead).prev
          fun proc => { proc with next := new }) :=
        linked.withProc (fun _ _ => member) fun _ kept => kept
      exact set.push stay member
  | tailLinked new =>
      have member : new ∈ s.threads := top
      have set : Linked (s.withProc s.runningProcHead
          fun proc => { proc with prev := new }) :=
        linked.withProc (fun _ kept => kept) fun _ _ => member
      exact set.withFrames stay

theorem buildThread {block : Nat} (linked : Linked s) (nonnull : block ≠ 0) :
    Linked (s.buildThread block) where
  nonnull := by simpa [Machine.buildThread, nonnull.symm] using linked.nonnull
  head_mem := List.mem_cons_of_mem block linked.head_mem
  current_mem := List.mem_cons_of_mem block linked.current_mem
  next_mem := Threads.buildThread_link linked.next_mem linked.head_mem
  prev_mem := Threads.buildThread_link linked.prev_mem
    (linked.prev_mem _ linked.head_mem)
  leadsTo := by
    intro thread frame member
    by_cases same : thread = block
    · subst same
      simp only [Machine.buildThread, Function.update_self,
        List.mem_singleton] at member
      subst member
      trivial
    · simp only [Machine.buildThread, Function.update_of_ne same] at member
      exact (linked.leadsTo thread frame member).mono
        (List.subset_cons_self block s.threads)

/-- Every step, with its tick anywhere. -/
theorem step {action : Action} {s' : Machine} {event : Option Event}
    (linked : Linked s) (taken : MiniOS.step s action = some (s', event)) :
    Linked s' := by
  cases step_taken taken with
  | tick enabled =>
      have masked : Linked { s with interruptFlag := false } := { linked with }
      refine masked.push ?_ ?_
      · exact List.forall_mem_cons.mpr ⟨trivial, linked.frames⟩
      · trivial
  | change split taken => exact linked.runChange split taken
  | splice split => exact linked.runSplice split
  | @timer registers rest split =>
      have restored : Linked { s with
          registers := registers, interruptFlag := true } := { linked with }
      apply restored.withFrames
      exact (List.forall_mem_cons.mp (split ▸ linked.frames)).2
  | compute registers => exact { linked with }
  | callSchedule split => exact linked.push (split ▸ linked.frames) trivial
  | @callKernelThread block rest split nonnull =>
      refine (linked.buildThread nonnull).push ?_ ?_
      · intro frame member
        apply (linked.frames frame (split ▸ member)).mono
        exact List.subset_cons_self block s.threads
      · exact List.mem_cons_self
  | setInterruptFlag value split => exact { linked with }

end Linked

theorem schedStart_linked {kernStack : Nat} (placed : KernStackPlaced kernStack)
    (pgdKern : Nat) (registers : Registers) :
    Linked (schedStart kernStack pgdKern registers) where
  nonnull := by
    intro member
    exact placed.idleProc_ne_zero (List.mem_singleton.mp member).symm
  head_mem := List.mem_singleton_self _
  current_mem := List.mem_singleton_self _
  next_mem := fun _ _ => List.mem_singleton_self _
  prev_mem := fun _ _ => List.mem_singleton_self _
  leadsTo := by
    intro thread frame member
    rw [List.mem_singleton.mp member]
    trivial

namespace PanicMachine

theorem Reaches.linked {s s' : PanicMachine} (reaches : Reaches s s')
    (linked : Linked s.machine) : Linked s'.machine := by
  induction reaches with
  | refl => exact linked
  | tail _ taken linked =>
      obtain ⟨action, taken⟩ := taken
      rcases step_cases taken with ⟨own, machine, event, _, stepped, _, rfl⟩ |
        ⟨rest, _, _, _, rfl⟩
      · exact linked.step stepped
      · exact linked

end PanicMachine

/-! ## Spinning -/

/-- A timer interrupt now gives the processor back to the thread from which it
takes it. -/
def Machine.KeepsProcessor (s : Machine) : Prop :=
  s.current = s.onStack ∧
    (s.interruptFlag = false ∨ (s.procs s.current).next = s.current)

instance : DecidablePred Machine.KeepsProcessor :=
  fun _ => inferInstanceAs (Decidable (_ ∧ (_ ∨ _)))

/-- The interrupt flag and the stack while `thread` spins: the handler only
starts where `schedule` will find the thread alone in the ring. -/
inductive Spinning (thread next : Nat) : Bool → List Frame → Prop where
  | looping {interruptFlag : Bool} {rest : List Frame}
      (quiet : interruptFlag = false ∨ next = thread) :
      Spinning thread next interruptFlag (.body :: rest)
  | scheduling {registers : Registers} {rest : List Frame}
      (alone : next = thread) :
      Spinning thread next false
        (.change .scheduling :: .timer registers :: .body :: rest)
  | entered {registers : Registers} {rest : List Frame}
      (alone : next = thread) :
      Spinning thread next false
        (.change (.entered thread) :: .timer registers :: .body :: rest)
  | returning {registers : Registers} {rest : List Frame}
      (alone : next = thread) :
      Spinning thread next false (.timer registers :: .body :: rest)

namespace PanicMachine

/-- The thread has panicked and executes, at most interrupted by the timer. -/
structure Spins (thread : Nat) (s : PanicMachine) : Prop where
  executes : s.Executes thread
  panicked : thread ∈ s.panicked
  spinning : Spinning thread (s.machine.procs thread).next
    s.machine.interruptFlag s.machine.frames

namespace Spins

variable {thread : Nat} {s s' : PanicMachine}

theorem withFrames {frames : List Frame} {interruptFlag : Bool}
    {registers : Registers} (spins : Spins thread s)
    (spinning : Spinning thread (s.machine.procs thread).next interruptFlag
      frames) :
    Spins thread { s with
      machine := { s.machine with
        registers := registers
        interruptFlag := interruptFlag }.withFrames frames } where
  executes := spins.executes
  panicked := spins.panicked
  spinning := by
    rw [Machine.frames_withFrames]
    exact spinning

theorem runChange {stage : ChangeStage} {rest : List Frame}
    {machine : Machine} {event : Option Event} (spins : Spins thread s)
    (split : s.machine.frames = .change stage :: rest)
    (taken : s.machine.runChange rest stage = some (machine, event)) :
    Spins thread { s with machine := machine } := by
  obtain ⟨current, onStack⟩ := spins.executes
  have spinning := spins.spinning
  rw [split] at spinning
  generalize flag : s.machine.interruptFlag = interruptFlag at spinning
  cases spinning with
  | scheduling alone =>
      simp only [Machine.runChange] at taken
      split at taken
      · cases taken
        apply spins.withFrames
        rw [flag]
        exact .returning alone
      · cases taken
        apply spins.withFrames
        rw [flag, current, alone]
        exact .entered rfl
  | entered alone =>
      simp only [Machine.runChange, if_pos current] at taken
      cases taken
      apply spins.withFrames
      rw [flag]
      exact .returning alone

theorem step {action : PanicAction} (spins : Spins thread s)
    (taken : s.step action = some s') : Spins thread s' := by
  have panicked : s.machine.onStack ∈ s.panicked :=
    spins.executes.2 ▸ spins.panicked
  have spinning := spins.spinning
  rcases step_cases taken with ⟨own, machine, event, _, stepped, free, rfl⟩ |
    ⟨rest, _, _, free, rfl⟩
  · cases step_taken stepped with
    | tick enabled =>
        apply spins.withFrames
        -- only the looping thread has interrupts enabled
        rw [enabled] at spinning
        generalize s.machine.frames = frames at spinning
        cases spinning with
        | looping quiet => exact .scheduling (quiet.resolve_left (by simp))
    | change split taken => exact spins.runChange split taken
    | splice split =>
        rw [split] at spinning
        generalize s.machine.interruptFlag = interruptFlag at spinning
        cases spinning
    | timer split =>
        apply spins.withFrames
        rw [split] at spinning
        generalize s.machine.interruptFlag = interruptFlag at spinning
        cases spinning with
        | returning alone => exact .looping (.inr alone)
    | compute registers =>
        exact ⟨spins.executes, spins.panicked, spins.spinning⟩
    | callSchedule | callKernelThread | setInterruptFlag =>
        exact absurd panicked (free rfl)
  · exact absurd panicked free

theorem reaches (spins : Spins thread s) (reaches : Reaches s s') :
    Spins thread s' := by
  induction reaches with
  | refl => exact spins
  | tail _ taken spins =>
      obtain ⟨action, taken⟩ := taken
      exact spins.step taken

theorem of_assertFails (fails : s.step .assertFails = some s')
    (keeps : s.machine.KeepsProcessor) : Spins s.machine.onStack s' := by
  obtain ⟨same, quiet⟩ := keeps
  obtain ⟨rest, split, rfl⟩ := assertFails_cases fails
  refine ⟨⟨same, rfl⟩, List.mem_cons_self, ?_⟩
  rw [same] at quiet
  change Spinning _ _ _ s.machine.frames
  rw [split]
  exact .looping quiet

end Spins

/-- A tick while the thread spins with interrupts enabled makes `current` the
next thread of the ring. -/
theorem runActions_tick {s : PanicMachine}
    (enabled : s.machine.interruptFlag = true) (live : s.machine.current ≠ 0)
    (other : s.machine.current ≠ (s.machine.procs s.machine.current).next) :
    (s.runActions [.take .tick, .take .run, .take .run, .take .run]).map
        (fun last => last.machine.current) =
      some (s.machine.procs s.machine.current).next := by
  simp [runActions, step, Action.ofBody, MiniOS.step, enabled,
    Machine.runChange, Machine.withFrames, Machine.frames, live, other]

end PanicMachine

/-- A failed assertion stops the kernel exactly where the thread on whose
stack it fails is `current` and either has interrupts disabled or is alone in
the ring. -/
theorem panic_stops_iff {kernStack : Nat} (placed : KernStackPlaced kernStack)
    {pgdKern : Nat} {registers : Registers} {s s' : PanicMachine}
    (reached : (PanicMachine.start kernStack pgdKern registers).Reaches s)
    (fails : s.step .assertFails = some s') :
    (∀ later, s'.Reaches later → later.Executes s.machine.onStack) ↔
      s.machine.KeepsProcessor := by
  constructor
  · intro stays
    obtain ⟨rest, _, rfl⟩ := PanicMachine.assertFails_cases fails
    obtain ⟨same, _⟩ := stays _ .refl
    refine ⟨same, ?_⟩
    by_contra switches
    obtain ⟨enabled, other⟩ := not_or.mp switches
    have linked := reached.linked (schedStart_linked placed pgdKern registers)
    have live : s.machine.current ≠ 0 := by
      intro null
      exact linked.nonnull (null ▸ linked.current_mem)
    let s' := { s with panicked := s.machine.onStack :: s.panicked }
    obtain ⟨later, ran, current⟩ := Option.map_eq_some_iff.mp
      (s'.runActions_tick (by simpa using enabled) live
        fun alone => other alone.symm)
    obtain ⟨still, _⟩ := stays later (PanicMachine.reaches_runActions ran)
    rw [current] at still
    exact other (still.trans same.symm)
  · intro keeps later reaches
    exact ((PanicMachine.Spins.of_assertFails fails keeps).reaches
      reaches).executes

/-- `pmm_alloc_page` fails in the idle thread before `sti`, next to a second
thread. -/
theorem panic_stops_beforeSti :
    ∃ s s' : PanicMachine,
      (PanicMachine.start 0xC0103000 0xC0101000 ⟨0, 0, 0, 0⟩).Reaches s ∧
      s.step .assertFails = some s' ∧ s.machine.KeepsProcessor ∧
      ((∀ later, s'.Reaches later → later.Executes s.machine.onStack) ↔
        s.machine.KeepsProcessor) := by
  have computed : (((PanicMachine.start 0xC0103000 0xC0101000
      ⟨0, 0, 0, 0⟩).runActions [.take (.callKernelThread 0xE000000C),
        .take .run, .take .run]).bind fun s =>
      (s.step .assertFails).map fun _ => decide s.machine.KeepsProcessor) =
        some true := by decide
  obtain ⟨s, ran, entered⟩ := Option.bind_eq_some_iff.mp computed
  obtain ⟨s', fails, keeps⟩ := Option.map_eq_some_iff.mp entered
  have reached := PanicMachine.reaches_runActions ran
  exact ⟨s, s', reached, fails, of_decide_eq_true keeps,
    panic_stops_iff ⟨by decide, by decide⟩ reached fails⟩

/-- The same after `sti`: one tick later the second thread executes. -/
theorem panic_continues_afterSti :
    ¬ ∀ (kernStack pgdKern : Nat) (registers : Registers)
      (s s' later : PanicMachine), KernStackPlaced kernStack →
      (PanicMachine.start kernStack pgdKern registers).Reaches s →
      s.step .assertFails = some s' → s'.Reaches later →
      later.Executes s.machine.onStack := by
  intro stops
  have computed : (((PanicMachine.start 0xC0103000 0xC0101000
      ⟨0, 0, 0, 0⟩).runActions [.take (.callKernelThread 0xE000000C),
        .take .run, .take .run, .take (.setInterruptFlag true)]).bind fun s =>
      (s.step .assertFails).bind fun s' =>
        (s'.runActions [.take .tick, .take .run, .take .run, .take .run,
          .take .run, .take .run, .take .run, .take .run]).map fun later =>
            (s.machine.onStack, later.machine.onStack)) =
        some (0xC0103000, 0xE000000C) := by decide +kernel
  obtain ⟨s, ran, entered⟩ := Option.bind_eq_some_iff.mp computed
  obtain ⟨s', fails, continued⟩ := Option.bind_eq_some_iff.mp entered
  obtain ⟨later, ticked, owners⟩ := Option.map_eq_some_iff.mp continued
  obtain ⟨before, after⟩ := Prod.mk.inj owners
  have executes := stops 0xC0103000 0xC0101000 ⟨0, 0, 0, 0⟩ s s' later
    ⟨by decide, by decide⟩ (PanicMachine.reaches_runActions ran) fails
    (PanicMachine.reaches_runActions ticked)
  rw [PanicMachine.Executes, before, after] at executes
  exact absurd executes.2 (by decide)

end MiniOS
