import MiniOS.Schedule.Switch

/-!
# Saved contexts under the timer

While `current` is the thread whose stack is in use, a tick is harmless: the
handler switches away and back like any other call of `schedule`.  In the
window of `change_task_to` between the store of `current` and the load of the
next context it is not, and the handler then stores into the wrong PCB.  The
invariant `Unmixed` says what holds in between for each stage.
-/

namespace MiniOS

/-! ## The log of events -/

section Log

variable {events : List Event}

@[simp] theorem ownContext_built (thread : Nat) (context : Context) :
    ownContext (events ++ [.built thread context]) =
      Function.update (ownContext events) thread (some context) := by
  simp [ownContext, Event.ownAssignment, AssignmentLog.after_concat]

@[simp] theorem ownContext_saved (into on : Nat) (context : Context) :
    ownContext (events ++ [.saved into on context]) =
      Function.update (ownContext events) on (some context) := by
  simp [ownContext, Event.ownAssignment, AssignmentLog.after_concat]

@[simp] theorem ownContext_loaded (source : Nat) (context : Context) :
    ownContext (events ++ [.loaded source context]) = ownContext events := by
  simp [ownContext, List.filterMap_cons, Event.ownAssignment]

theorem NeverMixed.nil : NeverMixed [] := by
  intro before event later split
  simp at split

theorem NeverMixed.concat {event : Event} (never : NeverMixed events)
    (proper : event.Proper events) : NeverMixed (events ++ [event]) := by
  intro before other later split
  rcases List.eq_nil_or_concat later with rfl | ⟨earlier, last, rfl⟩
  · obtain ⟨rfl, final⟩ := List.append_inj' split rfl
    cases final
    exact proper
  · rw [List.concat_eq_append, ← List.cons_append, ← List.append_assoc] at split
    obtain ⟨prior, _⟩ := List.append_inj' split rfl
    exact never before other earlier prior

end Log

/-! ## The invariant -/

/-- What a frame outside the window may hold on the stack of `owner`. -/
def Frame.Settled (threads : List Nat) (owner : Nat) : Frame → Prop
  | .change (.entered next) => next ∈ threads
  | .change (.currentRead prev next) =>
      prev = owner ∧ next ≠ owner ∧ next ∈ threads
  | .change .scheduling | .change .returning => True
  | .change _ => False
  | .splice (.built new) | .splice (.tailLinked new) => new ∈ threads
  | .entry | .body | .timer _ => True

/-- A thread that is not executing can be resumed where it left off. -/
structure Parked (events : List Event) (s : Machine) (thread : Nat) :
    Prop where
  resumable : ∃ top rest resumed, s.stackOf thread = top :: rest ∧
    Machine.resume top = some resumed
  esp : (s.procs thread).context.esp = ⟨thread, (s.stackOf thread).length⟩
  own : ownContext events thread = some (s.procs thread).context

/-- The PCBs and stacks of all threads, apart from the innermost frame of the
one that executes. -/
structure Threads (events : List Event) (s : Machine) : Prop where
  head_mem : s.runningProcHead ∈ s.threads
  onStack_mem : s.onStack ∈ s.threads
  next_mem : ∀ thread ∈ s.threads, (s.procs thread).next ∈ s.threads
  prev_mem : ∀ thread ∈ s.threads, (s.procs thread).prev ∈ s.threads
  below : ∀ thread ∈ s.threads, ∀ frame ∈ (s.stackOf thread).tail,
    frame.Settled s.threads thread
  parked : ∀ thread ∈ s.threads, thread ≠ s.onStack → Parked events s thread
  never : NeverMixed events

/-- What holds at the innermost frame of the thread that executes. -/
def Frame.Executing (events : List Event) (s : Machine) : Frame → Prop
  | .change (.currentStored prev _) | .change (.kernelStackSet prev _)
  | .change (.directoryLoaded prev) =>
      prev = s.onStack ∧ s.current ≠ s.onStack
  | .change (.contextSaved target) =>
      target = s.current ∧ s.current ≠ s.onStack ∧ Parked events s s.onStack
  | frame => s.current = s.onStack ∧ frame.Settled s.threads s.onStack

/-- What holds of the stack in use. -/
def Machine.Executing (events : List Event) (s : Machine) :
    List Frame → Prop
  | [] => s.current = s.onStack
  | top :: _ => top.Executing events s

structure Unmixed (events : List Event) (s : Machine) : Prop where
  threads : Threads events s
  current_mem : s.current ∈ s.threads
  executing : s.Executing events s.frames

theorem Frame.Settled.mono {threads more : List Nat} {owner : Nat}
    {frame : Frame} (settled : frame.Settled threads owner)
    (subset : threads ⊆ more) : frame.Settled more owner := by
  match frame with
  | .change (.entered _) => exact subset settled
  | .change (.currentRead _ _) =>
      exact ⟨settled.1, settled.2.1, subset settled.2.2⟩
  | .change .scheduling | .change .returning => trivial
  | .splice (.built _) | .splice (.tailLinked _) => exact subset settled
  | .entry | .body | .timer _ => trivial

/-- Outside the window the innermost frame is like any other. -/
theorem Frame.Executing.settled {events : List Event} {s : Machine}
    {top : Frame} (executing : top.Executing events s)
    (outside : ¬ top.InWindow) :
    s.current = s.onStack ∧ top.Settled s.threads s.onStack := by
  match top with
  | .change .scheduling | .change (.entered _) | .change (.currentRead _ _)
  | .change .returning | .splice _ | .entry | .body | .timer _ =>
      exact executing
  | .change (.currentStored _ _) | .change (.kernelStackSet _ _)
  | .change (.directoryLoaded _) | .change (.contextSaved _) =>
      exact absurd trivial outside

/-- In the window `current` is ahead of the stack in use. -/
theorem Frame.Executing.ahead {events : List Event} {s : Machine}
    {top : Frame} (executing : top.Executing events s)
    (inside : top.InWindow) : s.current ≠ s.onStack := by
  match top with
  | .change (.currentStored _ _) | .change (.kernelStackSet _ _)
  | .change (.directoryLoaded _) => exact executing.2
  | .change (.contextSaved _) => exact executing.2.1

theorem Frame.Settled.executing {events : List Event} {s : Machine}
    {frame : Frame} (settled : frame.Settled s.threads s.onStack)
    (same : s.current = s.onStack) : frame.Executing events s := by
  match frame with
  | .change .scheduling | .change (.entered _) | .change (.currentRead _ _)
  | .change .returning | .splice _ | .entry | .body | .timer _ =>
      exact ⟨same, settled⟩

/-! ## What the parts of a step preserve -/

namespace Threads

variable {events : List Event} {s : Machine}

theorem withFrames {frames : List Frame} (threads : Threads events s)
    (below : ∀ frame ∈ frames.tail, frame.Settled s.threads s.onStack) :
    Threads events (s.withFrames frames) where
  head_mem := threads.head_mem
  onStack_mem := threads.onStack_mem
  next_mem := threads.next_mem
  prev_mem := threads.prev_mem
  below := by
    intro thread member
    by_cases same : thread = s.onStack
    · subst same
      simpa [Machine.withFrames] using below
    · simpa [Machine.withFrames, same] using threads.below thread member
  parked := by
    intro thread member other
    obtain ⟨resumable, esp, own⟩ := threads.parked thread member other
    have unchanged : (s.withFrames frames).stackOf thread = s.stackOf thread :=
      Function.update_of_ne other _ _
    exact ⟨by rwa [unchanged], by rwa [unchanged], own⟩
  never := threads.never

theorem withCpu (threads : Threads events s) (current : Nat)
    (registers : Registers) (interruptFlag : Bool)
    (kernelStack pageDirectory : Nat) :
    Threads events { s with
      current := current
      registers := registers
      interruptFlag := interruptFlag
      kernelStack := kernelStack
      pageDirectory := pageDirectory } where
  head_mem := threads.head_mem
  onStack_mem := threads.onStack_mem
  next_mem := threads.next_mem
  prev_mem := threads.prev_mem
  below := threads.below
  parked := by
    intro thread member other
    obtain ⟨resumable, esp, own⟩ := threads.parked thread member other
    exact ⟨resumable, esp, own⟩
  never := threads.never

/-- A link that leads to a thread still does so after a change of one PCB that
keeps it so. -/
theorem withProc_link {link : Proc → Nat} {owner : Nat} {change : Proc → Proc}
    (kept : ∀ thread ∈ s.threads, link (s.procs thread) ∈ s.threads)
    (changed : ∀ proc, link proc ∈ s.threads → link (change proc) ∈ s.threads) :
    ∀ thread ∈ s.threads,
      link ((s.withProc owner change).procs thread) ∈ s.threads := by
  intro thread member
  by_cases same : thread = owner
  · subst same
    simpa [Machine.withProc] using changed _ (kept thread member)
  · simpa [Machine.withProc, same] using kept thread member

/-- The PCB of a new thread leads to threads, and so do the others still. -/
theorem buildThread_link {link : Proc → Nat} {block : Nat}
    (kept : ∀ thread ∈ s.threads, link (s.procs thread) ∈ s.threads)
    (new : link (s.newProc block) ∈ s.threads) :
    ∀ thread ∈ (s.buildThread block).threads,
      link ((s.buildThread block).procs thread) ∈
        (s.buildThread block).threads := by
  intro thread member
  by_cases same : thread = block
  · subst same
    simpa [Machine.buildThread] using .inr new
  · have older := (List.mem_cons.mp member).resolve_left same
    simpa [Machine.buildThread, same] using .inr (kept thread older)

theorem withLinks {owner : Nat} {change : Proc → Proc}
    (threads : Threads events s)
    (context : ∀ proc, (change proc).context = proc.context)
    (next : ∀ proc, proc.next ∈ s.threads → (change proc).next ∈ s.threads)
    (prev : ∀ proc, proc.prev ∈ s.threads → (change proc).prev ∈ s.threads) :
    Threads events (s.withProc owner change) where
  head_mem := threads.head_mem
  onStack_mem := threads.onStack_mem
  next_mem := withProc_link threads.next_mem next
  prev_mem := withProc_link threads.prev_mem prev
  below := threads.below
  parked := by
    intro thread member other
    obtain ⟨resumable, esp, own⟩ := threads.parked thread member other
    have unchanged : ((s.withProc owner change).procs thread).context =
        (s.procs thread).context := by
      by_cases same : thread = owner
      · subst same
        simpa [Machine.withProc] using context _
      · simp [Machine.withProc, same]
    exact ⟨resumable, by rwa [unchanged], by rwa [unchanged]⟩
  never := threads.never

theorem save {context : Context} (threads : Threads events s) :
    Threads (events ++ [.saved s.onStack s.onStack context])
      (s.withProc s.onStack fun proc => { proc with context := context }) where
  head_mem := threads.head_mem
  onStack_mem := threads.onStack_mem
  next_mem := withProc_link threads.next_mem fun _ kept => kept
  prev_mem := withProc_link threads.prev_mem fun _ kept => kept
  below := threads.below
  parked := by
    intro thread member other
    have different : thread ≠ s.onStack := other
    obtain ⟨resumable, esp, own⟩ := threads.parked thread member different
    refine ⟨resumable, ?_, ?_⟩
    · simpa [Machine.withProc, different] using esp
    · simpa [Machine.withProc, different] using own
  never := threads.never.concat rfl

theorem build {block : Nat} (threads : Threads events s) :
    Threads (events ++ [.built block (s.newProc block).context])
      (s.buildThread block) where
  head_mem := List.mem_cons_of_mem block threads.head_mem
  onStack_mem := List.mem_cons_of_mem block threads.onStack_mem
  next_mem := buildThread_link threads.next_mem threads.head_mem
  prev_mem := buildThread_link threads.prev_mem
    (threads.prev_mem _ threads.head_mem)
  below := by
    intro thread member
    by_cases same : thread = block
    · subst same
      simp [Machine.buildThread]
    · have older := (List.mem_cons.mp member).resolve_left same
      intro frame below
      simp only [Machine.buildThread, Function.update_of_ne same] at below
      exact (threads.below thread older frame below).mono
        (List.subset_cons_self block s.threads)
  parked := by
    intro thread member other
    by_cases same : thread = block
    · subst same
      refine ⟨⟨.entry, [], .body, ?_, rfl⟩, ?_, ?_⟩ <;>
        simp [Machine.buildThread, Machine.newProc]
    · have older := (List.mem_cons.mp member).resolve_left same
      obtain ⟨resumable, esp, own⟩ := threads.parked thread older other
      refine ⟨?_, ?_, ?_⟩
      · simpa [Machine.buildThread, same] using resumable
      · simpa [Machine.buildThread, same] using esp
      · simpa [Machine.buildThread, same] using own
  never := threads.never.concat trivial

theorem load {target : Nat} {top resumed : Frame} {under : List Frame}
    (threads : Threads events s) (member : target ∈ s.threads)
    (parked : ∀ thread ∈ s.threads, Parked events s thread)
    (stack : s.stackOf target = top :: under) (registers : Registers)
    (interruptFlag : Bool) :
    Threads (events ++ [.loaded target (s.procs target).context]) { s with
      stackOf := Function.update s.stackOf target (resumed :: under)
      onStack := target
      registers := registers
      interruptFlag := interruptFlag } where
  head_mem := threads.head_mem
  onStack_mem := member
  next_mem := threads.next_mem
  prev_mem := threads.prev_mem
  below := by
    intro thread inThreads
    have below := threads.below thread inThreads
    by_cases same : thread = target
    · subst same
      simpa [stack] using below
    · simpa [same] using below
  parked := by
    intro thread inThreads other
    have different : thread ≠ target := other
    obtain ⟨resumable, esp, own⟩ := parked thread inThreads
    refine ⟨?_, ?_, ?_⟩
    · simpa [different] using resumable
    · simpa [different] using esp
    · simpa using own
  never := threads.never.concat (parked target member).own

end Threads

theorem Machine.frames_withFrames (s : Machine) (frames : List Frame) :
    (s.withFrames frames).frames = frames := by
  simp [Machine.frames, Machine.withFrames]

namespace Unmixed

variable {events : List Event} {s : Machine}

theorem of_settled {frames : List Frame} (threads : Threads events s)
    (same : s.current = s.onStack)
    (settled : ∀ frame ∈ frames, frame.Settled s.threads s.onStack) :
    Unmixed events (s.withFrames frames) := by
  refine ⟨threads.withFrames ?_, ?_, ?_⟩
  · intro frame member
    exact settled frame (List.mem_of_mem_tail member)
  · exact same ▸ threads.onStack_mem
  · rw [s.frames_withFrames]
    cases frames with
    | nil => exact same
    | cons top rest =>
        have there : top.Settled (s.withFrames (top :: rest)).threads
            (s.withFrames (top :: rest)).onStack :=
          settled top List.mem_cons_self
        exact there.executing same

/-- Between the stages of the window only the innermost frame changes. -/
theorem of_window {stage : ChangeStage} {rest : List Frame}
    (threads : Threads events s) (member : s.current ∈ s.threads)
    (settled : ∀ frame ∈ rest, frame.Settled s.threads s.onStack)
    (executing : (Frame.change stage).Executing events
      (s.withFrames (.change stage :: rest))) :
    Unmixed events (s.withFrames (.change stage :: rest)) := by
  refine ⟨threads.withFrames settled, member, ?_⟩
  rw [s.frames_withFrames]
  exact executing

theorem rest_settled {top : Frame} {rest : List Frame}
    (unmixed : Unmixed events s) (split : s.frames = top :: rest) :
    ∀ frame ∈ rest, frame.Settled s.threads s.onStack := by
  intro frame member
  have below := unmixed.threads.below s.onStack unmixed.threads.onStack_mem
  apply below frame
  rw [← Machine.frames, split]
  exact member

theorem top_executing {top : Frame} {rest : List Frame}
    (unmixed : Unmixed events s) (split : s.frames = top :: rest) :
    top.Executing events s := by
  have executing := unmixed.executing
  rwa [split] at executing

theorem all_settled (unmixed : Unmixed events s)
    (outside : ∀ top ∈ s.frames.head?, ¬ top.InWindow) :
    s.current = s.onStack ∧
      ∀ frame ∈ s.frames, frame.Settled s.threads s.onStack := by
  cases split : s.frames with
  | nil =>
      have executing := unmixed.executing
      rw [split] at executing
      exact ⟨executing, by simp⟩
  | cons top rest =>
      obtain ⟨same, settled⟩ := (unmixed.top_executing split).settled
        (outside top (by simp [split]))
      refine ⟨same, ?_⟩
      intro frame member
      rcases List.mem_cons.mp member with rfl | below
      · exact settled
      · exact unmixed.rest_settled split frame below

/-! ## One step -/

theorem tick (unmixed : Unmixed events s)
    (outside : TickOutsideWindow s .tick) :
    Unmixed events ({ s with interruptFlag := false }.withFrames
      (.change .scheduling :: .timer s.registers :: s.frames)) := by
  obtain ⟨same, settled⟩ := unmixed.all_settled outside
  apply of_settled (unmixed.threads.withCpu s.current s.registers false
    s.kernelStack s.pageDirectory) same
  refine List.forall_mem_cons.mpr ⟨?_, ?_⟩
  · trivial
  · exact List.forall_mem_cons.mpr ⟨trivial, settled⟩

theorem load {target : Nat} {rest : List Frame} {s' : Machine}
    {event : Option Event} (unmixed : Unmixed events s)
    (split : s.frames = .change (.contextSaved target) :: rest)
    (taken : s.runChange rest (.contextSaved target) = some (s', event)) :
    Unmixed (events ++ event.toList) s' := by
  obtain ⟨rfl, _, left⟩ := unmixed.top_executing split
  have parked : ∀ thread ∈ s.threads, Parked events s thread := by
    intro thread member
    by_cases same : thread = s.onStack
    · exact same ▸ left
    · exact unmixed.threads.parked thread member same
  obtain ⟨⟨top, under, resumed, stack, resume⟩, esp, own⟩ :=
    parked s.current unmixed.current_mem
  have below := unmixed.threads.below s.current unmixed.current_mem
  simp only [Machine.runChange, Machine.loadContext, esp, stack,
    Nat.sub_self, List.drop_zero, resume, Option.pure_def, Option.bind_eq_bind,
    Option.bind_some, Option.some.injEq, Prod.mk.injEq] at taken
  obtain ⟨rfl, rfl⟩ := taken
  refine ⟨unmixed.threads.load unmixed.current_mem parked stack _ _,
    unmixed.current_mem, ?_⟩
  simp only [Machine.frames, Function.update_self]
  cases top with
  | entry =>
      cases resume
      exact ⟨rfl, trivial⟩
  | change stage =>
      cases stage with
      | contextSaved other =>
          cases resume
          exact ⟨rfl, trivial⟩
      | _ => cases resume
  | _ => cases resume

theorem change {stage : ChangeStage} {rest : List Frame} {s' : Machine}
    {event : Option Event} (unmixed : Unmixed events s)
    (split : s.frames = .change stage :: rest)
    (taken : s.runChange rest stage = some (s', event)) :
    Unmixed (events ++ event.toList) s' := by
  have threads := unmixed.threads
  have settled := unmixed.rest_settled split
  have executing := unmixed.top_executing split
  cases stage with
  | scheduling =>
      obtain ⟨same, _⟩ := executing
      simp only [Machine.runChange] at taken
      split at taken
      · cases taken
        rw [Option.toList_none, List.append_nil]
        exact of_settled threads same settled
      · cases taken
        rw [Option.toList_none, List.append_nil]
        apply of_settled threads same
        refine List.forall_mem_cons.mpr ⟨?_, ?_⟩
        · exact threads.next_mem s.current unmixed.current_mem
        · exact settled
  | entered next =>
      obtain ⟨same, nextMember⟩ := executing
      simp only [Machine.runChange] at taken
      split at taken
      · cases taken
        rw [Option.toList_none, List.append_nil]
        exact of_settled threads same settled
      · rename_i differ
        cases taken
        rw [Option.toList_none, List.append_nil]
        apply of_settled threads same
        refine List.forall_mem_cons.mpr ⟨?_, ?_⟩
        · refine ⟨same, ?_, nextMember⟩
          rw [← same]
          exact fun equality => differ equality.symm
        · exact settled
  | currentRead prev next =>
      obtain ⟨_, prevSame, differ, nextMember⟩ := executing
      cases taken
      rw [Option.toList_none, List.append_nil]
      exact of_window (threads.withCpu next s.registers s.interruptFlag
        s.kernelStack s.pageDirectory) nextMember settled
        ⟨prevSame, differ⟩
  | currentStored prev next =>
      cases taken
      rw [Option.toList_none, List.append_nil]
      exact of_window (threads.withCpu s.current s.registers s.interruptFlag
        (s.procs next).kstack s.pageDirectory) unmixed.current_mem settled
        executing
  | kernelStackSet prev next =>
      cases taken
      rw [Option.toList_none, List.append_nil]
      exact of_window (threads.withCpu s.current s.registers s.interruptFlag
        s.kernelStack (s.procs next).cr3) unmixed.current_mem settled executing
  | directoryLoaded prev =>
      obtain ⟨rfl, ahead⟩ := executing
      cases taken
      rw [Option.toList_some]
      apply of_window threads.save unmixed.current_mem settled
      refine ⟨rfl, ahead, ⟨.change (.contextSaved s.current), rest, _, ?_, rfl⟩,
        ?_, ?_⟩
      · simp [Machine.withFrames, Machine.withProc]
      · simp [Machine.withFrames, Machine.withProc, Machine.savedContext, split]
      · simp [Machine.withFrames, Machine.withProc]
  | contextSaved target => exact unmixed.load split taken
  | returning =>
      obtain ⟨same, _⟩ := executing
      cases taken
      rw [Option.toList_none, List.append_nil]
      exact of_settled threads same settled

theorem splice {stage : SpliceStage} {rest : List Frame}
    (unmixed : Unmixed events s) (split : s.frames = .splice stage :: rest) :
    Unmixed events (s.runSplice rest stage) := by
  have settled := unmixed.rest_settled split
  obtain ⟨same, newSettled⟩ := unmixed.top_executing split
  cases stage with
  | built new =>
      have newMember : new ∈ s.threads := newSettled
      have linked : Threads events (s.withProc
          (s.procs s.runningProcHead).prev fun proc =>
            { proc with next := new }) :=
        unmixed.threads.withLinks (fun _ => rfl) (fun _ _ => newMember)
          (fun _ member => member)
      apply of_settled linked same
      refine List.forall_mem_cons.mpr ⟨?_, ?_⟩
      · exact newMember
      · exact settled
  | tailLinked new =>
      have newMember : new ∈ s.threads := newSettled
      have linked : Threads events (s.withProc s.runningProcHead fun proc =>
          { proc with prev := new }) :=
        unmixed.threads.withLinks (fun _ => rfl) (fun _ member => member)
          (fun _ _ => newMember)
      exact of_settled linked same settled

theorem returnFromTimer {registers : Registers} {rest : List Frame}
    (unmixed : Unmixed events s)
    (split : s.frames = .timer registers :: rest) :
    Unmixed events (s.returnFromTimer registers rest) := by
  obtain ⟨same, _⟩ := unmixed.top_executing split
  exact of_settled (unmixed.threads.withCpu s.current registers true
    s.kernelStack s.pageDirectory) same (unmixed.rest_settled split)

theorem setCpu (unmixed : Unmixed events s) (registers : Registers)
    (interruptFlag : Bool) :
    Unmixed events { s with
      registers := registers, interruptFlag := interruptFlag } := by
  refine ⟨unmixed.threads.withCpu s.current registers interruptFlag
    s.kernelStack s.pageDirectory, unmixed.current_mem, ?_⟩
  have executing := unmixed.executing
  change Machine.Executing events _ s.frames
  cases split : s.frames with
  | nil =>
      rw [split] at executing
      exact executing
  | cons top rest =>
      rw [split] at executing
      match top with
      | .change (.contextSaved _) =>
          obtain ⟨target, ahead, resumable, esp, own⟩ := executing
          exact ⟨target, ahead, resumable, esp, own⟩
      | .change .scheduling | .change (.entered _)
      | .change (.currentRead _ _) | .change (.currentStored _ _)
      | .change (.kernelStackSet _ _) | .change (.directoryLoaded _)
      | .change .returning | .splice _ | .entry | .body | .timer _ =>
          exact executing

theorem body_settled {rest : List Frame} (unmixed : Unmixed events s)
    (split : s.frames = .body :: rest) :
    s.current = s.onStack ∧
      ∀ frame ∈ s.frames, frame.Settled s.threads s.onStack :=
  unmixed.all_settled (by simp [split, Frame.InWindow])

theorem callSchedule {rest : List Frame} (unmixed : Unmixed events s)
    (split : s.frames = .body :: rest) :
    Unmixed events
      (s.withFrames (.change .scheduling :: .body :: rest)) := by
  obtain ⟨same, settled⟩ := unmixed.body_settled split
  apply of_settled unmixed.threads same
  refine List.forall_mem_cons.mpr ⟨?_, ?_⟩
  · trivial
  · exact split ▸ settled

theorem callKernelThread {block : Nat} {rest : List Frame}
    (unmixed : Unmixed events s) (split : s.frames = .body :: rest) :
    Unmixed (events ++ [.built block (s.newProc block).context])
      ((s.buildThread block).withFrames
        (.splice (.built block) :: .body :: rest)) := by
  obtain ⟨same, settled⟩ := unmixed.body_settled split
  apply of_settled unmixed.threads.build same
  refine List.forall_mem_cons.mpr ⟨?_, ?_⟩
  · exact List.mem_cons_self
  · intro frame below
    apply (settled frame (split ▸ below)).mono
    exact List.subset_cons_self block s.threads

/-- Every step with its tick outside the window. -/
theorem step {action : Action} {s' : Machine} {event : Option Event}
    (unmixed : Unmixed events s) (permitted : TickOutsideWindow s action)
    (taken : MiniOS.step s action = some (s', event)) :
    Unmixed (events ++ event.toList) s' := by
  cases step_taken taken with
  | tick enabled =>
      rw [Option.toList_none, List.append_nil]
      exact unmixed.tick permitted
  | change split taken => exact unmixed.change split taken
  | splice split =>
      rw [Option.toList_none, List.append_nil]
      exact unmixed.splice split
  | timer split =>
      rw [Option.toList_none, List.append_nil]
      exact unmixed.returnFromTimer split
  | compute registers =>
      rw [Option.toList_none, List.append_nil]
      exact unmixed.setCpu registers s.interruptFlag
  | callSchedule split =>
      rw [Option.toList_none, List.append_nil]
      exact unmixed.callSchedule split
  | callKernelThread split nonnull => exact unmixed.callKernelThread split
  | setInterruptFlag value split =>
      rw [Option.toList_none, List.append_nil]
      exact unmixed.setCpu s.registers value

end Unmixed

/-! ## Runs -/

theorem initSched_unmixed (kernStack pgdKern : Nat) (registers : Registers) :
    Unmixed [] (schedStart kernStack pgdKern registers) := by
  refine ⟨⟨?_, ?_, ?_, ?_, ?_, ?_, .nil⟩, ?_, rfl, trivial⟩
  all_goals simp [schedStart]

theorem Runs.unmixed {kernStack pgdKern : Nat} {registers : Registers}
    {events : List Event} {s : Machine}
    (run : Runs TickOutsideWindow (schedStart kernStack pgdKern registers)
      events s) : Unmixed events s := by
  induction run with
  | start => exact initSched_unmixed kernStack pgdKern registers
  | step run permitted taken unmixed => exact unmixed.step permitted taken

/-- Contexts are stored and loaded by their own threads in every run that
takes its ticks outside the window. -/
theorem contexts_neverMixed (kernStack pgdKern : Nat) (registers : Registers)
    (events : List Event) (s : Machine)
    (run : Runs TickOutsideWindow (schedStart kernStack pgdKern registers)
      events s) : NeverMixed events :=
  run.unmixed.threads.never

/-- `kern_init` after a call of `kernel_thread`: interrupts on, and a tick at
the beginning of a call of `schedule`. -/
theorem contexts_neverMixed_idleLoop :
    ∃ events s, Runs TickOutsideWindow
        (schedStart 0xC0103000 0xC0101000 ⟨0, 0, 0, 0⟩) events s ∧
      events.length = 3 ∧ NeverMixed events := by
  have computed : (execute TickOutsideWindow
      (schedStart 0xC0103000 0xC0101000 ⟨0, 0, 0, 0⟩)
      [.callKernelThread 0xE000000C, .run, .run, .setInterruptFlag true,
        .callSchedule, .tick, .run, .run, .run, .run, .run, .run,
        .run]).map (fun result => result.2.length) = some 3 := by decide
  obtain ⟨⟨s, events⟩, executed, count⟩ := Option.map_eq_some_iff.mp computed
  have run := Runs.start.execute executed
  rw [List.nil_append] at run
  exact ⟨events, s, run, count, contexts_neverMixed _ _ _ _ _ run⟩

/-- An idle loop that is interrupted right after `current = next`: the handler
stores the idle thread's position into the PCB of the other thread. -/
theorem contexts_mixed_idleLoop :
    ¬ ∀ (kernStack pgdKern : Nat) (registers : Registers)
      (events : List Event) (s : Machine),
      Runs (fun _ _ => True) (schedStart kernStack pgdKern registers) events s →
        NeverMixed events := by
  intro never
  have computed : (execute (fun _ _ => True)
      (schedStart 0xC0103000 0xC0101000 ⟨0, 0, 0, 0⟩)
      [.callKernelThread 0xE000000C, .run, .run, .setInterruptFlag true,
        .callSchedule, .run, .run, .run, .tick, .run, .run, .run, .run, .run,
        .run]).map Prod.snd =
      some [.built 0xE000000C ⟨⟨0xE000000C, 1⟩, ⟨0, 0, 0, 0⟩, true⟩,
        .saved 0xE000000C 0xC0103000 ⟨⟨0xC0103000, 4⟩, ⟨0, 0, 0, 0⟩,
          false⟩] := by decide +kernel
  obtain ⟨⟨s, events⟩, executed, rfl⟩ := Option.map_eq_some_iff.mp computed
  have run := Runs.start.execute executed
  have same : 0xE000000C = 0xC0103000 := never _ _ _ _ s run [_] _ [] rfl
  exact absurd same (by decide)

/-! ## A tick in the window -/

/-- The handler stores the position on the interrupted thread's stack into
the PCB of `current`. -/
theorem execute_tick {s : Machine} (enabled : s.interruptFlag = true)
    (live : s.current ≠ 0)
    (other : s.current ≠ (s.procs s.current).next) :
    (execute (fun _ _ => True) s
        [.tick, .run, .run, .run, .run, .run, .run]).map Prod.snd =
      some [.saved s.current s.onStack
        ⟨⟨s.onStack, s.frames.length + 2⟩, s.registers, false⟩] := by
  simp [execute, step, enabled, Machine.runChange, Machine.withFrames,
    Machine.frames, Machine.withProc, Machine.savedContext, live, other]

theorem Runs.mono {allowed more : Machine → Action → Prop} {start s : Machine}
    {events : List Event} (run : Runs allowed start events s)
    (weaker : ∀ s action, allowed s action → more s action) :
    Runs more start events s := by
  induction run with
  | start => exact .start
  | step _ permitted taken run => exact run.step (weaker _ _ permitted) taken

/-- The condition cannot be weakened: wherever a run that met it is in the
window with interrupts enabled, a tick makes it store into a PCB on the stack
of another thread. -/
theorem tick_in_window_mixes {kernStack pgdKern : Nat} {registers : Registers}
    {events : List Event} {s : Machine} {top : Frame}
    (run : Runs TickOutsideWindow (schedStart kernStack pgdKern registers)
      events s)
    (head : s.frames.head? = some top) (inside : top.InWindow)
    (enabled : s.interruptFlag = true) (live : s.current ≠ 0)
    (other : s.current ≠ (s.procs s.current).next) :
    ∃ context s', Runs (fun _ _ => True)
        (schedStart kernStack pgdKern registers)
        (events ++ [.saved s.current s.onStack context]) s' ∧
      ¬ NeverMixed (events ++ [.saved s.current s.onStack context]) := by
  obtain ⟨⟨s', new⟩, executed, rfl⟩ :=
    Option.map_eq_some_iff.mp (execute_tick enabled live other)
  have prior : Runs (fun _ _ => True) _ _ _ := run.mono fun _ _ _ => trivial
  refine ⟨_, s', prior.execute executed, ?_⟩
  intro never
  have same : s.current = s.onStack := never events _ [] rfl
  obtain ⟨rest, split⟩ := List.head?_eq_some_iff.mp head
  exact (run.unmixed.top_executing split).ahead inside same

end MiniOS
