import Mathlib.Logic.Relation
import MiniOS.Schedule.Ring

/-!
# Thread functions that return

`kernel_thread` leaves three words at the top of the block: `switch_to`
returns into `fn`, which finds `kthread_exit` as its return address and `arg`
as its argument.  `kthread_exit` prints and returns like any other function,
so that its `ret` takes the argument for a code address, and nothing takes the
thread out of the ring.
-/

namespace MiniOS

open ByteMemory

/-! ## Running a thread -/

/-- One step of a run of the scheduler, with the threads created so far. -/
inductive SchedStep (kernStack pgdKern kthreadExit : Nat) :
    List Nat × Sched → List Nat × Sched → Prop where
  | kernelThread {created : List Nat} {s s' : Sched} {fn arg block pid : Nat}
      (fresh : FreshBlock kernStack created block)
      (returned : kernelThread pgdKern fn kthreadExit arg block s =
        .ok (pid, s')) :
      SchedStep kernStack pgdKern kthreadExit (created, s)
        (created ++ [block], s')
  | schedule {created : List Nat} {s : Sched} :
      SchedStep kernStack pgdKern kthreadExit (created, s)
        (created, schedule s)
  | compute {created : List Nat} {s : Sched} {mem : Mem} {cpu : Cpu}
      (same : SamePcbs (idleProc kernStack :: created) mem s.mem) :
      SchedStep kernStack pgdKern kthreadExit (created, s)
        (created, { s with mem := mem, cpu := cpu })

abbrev SchedSteps (kernStack pgdKern kthreadExit : Nat) :
    List Nat × Sched → List Nat × Sched → Prop :=
  Relation.ReflTransGen (SchedStep kernStack pgdKern kthreadExit)

/-- What a compiled function does from its first instruction to its `ret`,
with whatever other threads do meanwhile: `esp` is again where it was, and the
return address there is what it was. -/
structure CallRuns (kernStack pgdKern kthreadExit : Nat)
    (before after : List Nat × Sched) : Prop where
  steps : SchedSteps kernStack pgdKern kthreadExit before after
  esp : after.2.cpu.esp = before.2.cpu.esp
  returnAddress : load32 after.2.mem before.2.cpu.esp =
    load32 before.2.mem before.2.cpu.esp

/-- The function of a thread.  It need not return. -/
structure ThreadFunction (kernStack pgdKern kthreadExit : Nat) where
  address : Nat
  runs : List Nat × Sched → List Nat × Sched → Prop
  call : ∀ {before after}, runs before after →
    CallRuns kernStack pgdKern kthreadExit before after
  /-- There is one piece of code at one address. -/
  exit : uint32 address = uint32 kthreadExit →
    runs = CallRuns kernStack pgdKern kthreadExit

/-- `kthread_exit` calls `printk` and returns. -/
def kthreadExitCode (kernStack pgdKern kthreadExit : Nat) :
    ThreadFunction kernStack pgdKern kthreadExit where
  address := kthreadExit
  runs := CallRuns kernStack pgdKern kthreadExit
  call := id
  exit := fun _ => rfl

/-- Where the outermost code of the thread is. -/
inductive Position where
  /-- The thread has not executed yet. -/
  | waiting
  /-- At the `ret` of `switch_to` or of a function. -/
  | returning
  | entered (address : Nat)
  deriving DecidableEq, Repr

/-- `schedule` gives the processor to the thread. -/
def Selects (block : Nat) (s : Sched) : Prop :=
  s.current ≠ block ∧ (schedule s).current = block

/-- The runs of the thread that `kernel_thread(fn, arg)` makes in `block`,
with the addresses of the words that its outermost `ret`s have popped. -/
inductive ThreadRun {kernStack pgdKern kthreadExit : Nat}
    (fn : ThreadFunction kernStack pgdKern kthreadExit) (arg block : Nat) :
    Position → List Nat → List Nat × Sched → Prop where
  | created {created : List Nat} {s s' : Sched} {pid : Nat}
      (run : SchedRun kernStack pgdKern kthreadExit created s)
      (fresh : FreshBlock kernStack created block)
      (returned : kernelThread pgdKern fn.address kthreadExit arg block s =
        .ok (pid, s')) :
      ThreadRun fn arg block .waiting [] (created ++ [block], s')
  | waits {before after : List Nat × Sched}
      (run : ThreadRun fn arg block .waiting [] before)
      (step : SchedStep kernStack pgdKern kthreadExit before after)
      (other : after.2.current ≠ block)
      (kept : ∀ x, block ≤ x → x < block + stackSize →
        x < block + prevOffset ∨ block + procSize ≤ x →
        after.2.mem x = before.2.mem x) :
      ThreadRun fn arg block .waiting [] after
  | selected {created : List Nat} {s : Sched}
      (run : ThreadRun fn arg block .waiting [] (created, s))
      (selects : Selects block s) :
      ThreadRun fn arg block .returning [] (created, schedule s)
  | ret {popped created : List Nat} {s : Sched}
      (run : ThreadRun fn arg block .returning popped (created, s)) :
      ThreadRun fn arg block (.entered (load32 s.mem s.cpu.esp))
        (popped ++ [s.cpu.esp])
        (created, { s with
          cpu := { s.cpu with esp := uint32 (s.cpu.esp + 4) } })
  | call {popped : List Nat} {before after : List Nat × Sched}
      {code : ThreadFunction kernStack pgdKern kthreadExit}
      (known : code = fn ∨ code = kthreadExitCode kernStack pgdKern kthreadExit)
      (run : ThreadRun fn arg block (.entered (uint32 code.address)) popped
        before)
      (runs : code.runs before after) :
      ThreadRun fn arg block .returning popped after

section

variable {kernStack pgdKern kthreadExit : Nat}

theorem SchedRun.step {before after : List Nat × Sched}
    (run : SchedRun kernStack pgdKern kthreadExit before.1 before.2)
    (step : SchedStep kernStack pgdKern kthreadExit before after) :
    SchedRun kernStack pgdKern kthreadExit after.1 after.2 := by
  cases step with
  | kernelThread fresh returned => exact run.kernelThread fresh returned
  | schedule => exact run.schedule
  | compute same => exact run.compute same

theorem SchedRun.steps {before after : List Nat × Sched}
    (run : SchedRun kernStack pgdKern kthreadExit before.1 before.2)
    (steps : SchedSteps kernStack pgdKern kthreadExit before after) :
    SchedRun kernStack pgdKern kthreadExit after.1 after.2 := by
  induction steps with
  | refl => exact run
  | tail _ step run => exact run.step step

theorem SchedSteps.mem {before after : List Nat × Sched} {block : Nat}
    (steps : SchedSteps kernStack pgdKern kthreadExit before after)
    (member : block ∈ before.1) : block ∈ after.1 := by
  induction steps with
  | refl => exact member
  | tail _ step member =>
      cases step with
      | kernelThread => exact List.mem_append_left _ member
      | schedule | compute => exact member

theorem CallRuns.refl (state : List Nat × Sched) :
    CallRuns kernStack pgdKern kthreadExit state state :=
  ⟨.refl, rfl, rfl⟩

theorem SchedRun.live {created : List Nat} {s : Sched}
    (placed : KernStackPlaced kernStack)
    (run : SchedRun kernStack pgdKern kthreadExit created s) :
    ∀ proc ∈ idleProc kernStack :: created, proc ≠ 0 := by
  induction run with
  | start => simpa using placed.idleProc_ne_zero
  | kernelThread run fresh returned live =>
      intro proc member
      rw [← List.cons_append, List.mem_append, List.mem_singleton] at member
      rcases member with older | rfl
      · exact live proc older
      · unfold MiniOS.kernelThread at returned
        split at returned
        · assumption
        · cases returned
  | schedule _ live | compute _ _ live => exact live

end

/-! ## What a run keeps -/

namespace ThreadRun

variable {kernStack pgdKern kthreadExit : Nat}
variable {fn : ThreadFunction kernStack pgdKern kthreadExit} {arg block : Nat}
variable {position : Position} {popped : List Nat} {state : List Nat × Sched}

theorem schedRun (run : ThreadRun fn arg block position popped state) :
    SchedRun kernStack pgdKern kthreadExit state.1 state.2 := by
  induction run with
  | created run fresh returned => exact run.kernelThread fresh returned
  | waits _ step _ _ run => exact run.step step
  | selected _ _ run => exact run.schedule
  | ret _ run => exact run.compute fun _ _ _ _ _ => rfl
  | call _ _ runs run => exact run.steps (ThreadFunction.call _ runs).steps

theorem member (run : ThreadRun fn arg block position popped state) :
    block ∈ state.1 := by
  induction run with
  | created => exact List.mem_append_right _ (List.mem_singleton_self block)
  | waits _ step _ _ member => exact SchedSteps.mem (.single step) member
  | selected _ _ member | ret _ member => exact member
  | call _ _ runs member =>
      exact (ThreadFunction.call _ runs).steps.mem member

theorem fresh (run : ThreadRun fn arg block position popped state) :
    RangesApart block stackSize (idleProc kernStack) procSize ∧
      block + stackSize ≤ 4294967296 := by
  induction run with
  | created _ fresh => exact ⟨fresh.idle, fresh.upper⟩
  | waits _ _ _ _ fresh | selected _ _ fresh | ret _ fresh
  | call _ _ _ fresh => exact fresh

end ThreadRun

/-! ## The switch to a new thread -/

theorem Ring.block_apart {kernStack : Nat} {created : List Nat} {s : Sched}
    {block proc : Nat} (state : Ring kernStack created s)
    (member : block ∈ created)
    (idle : RangesApart block stackSize (idleProc kernStack) procSize)
    (other : proc ∈ idleProc kernStack :: created) (differ : proc ≠ block) :
    RangesApart block stackSize proc procSize := by
  rcases List.mem_cons.mp other with same | live
  · rw [same]
    exact idle
  · have symmetric : Std.Symm fun left right =>
        RangesApart left stackSize right stackSize := ⟨fun _ _ => Or.symm⟩
    have wide : RangesApart block stackSize proc stackSize :=
      state.blocks.forall member live differ.symm
    simp only [RangesApart, stackSize, procSize] at *
    omega

theorem switchTo_outside {s : Sched} {prev next x : Nat}
    (outside : x < prev ∨ prev + 24 ≤ x) :
    (switchTo prev next s).mem x = s.mem x := by
  simp only [switchTo]
  simp (disch := omega) only [store32_outside]

section Selects

variable {block : Nat} {s : Sched}

theorem Selects.schedule_eq (selects : Selects block s) :
    schedule s =
      switchTo (s.current + contextOffset) (block + contextOffset) { s with
        current := block
        cpu := { s.cpu with
          esp0 := load32 s.mem (block + kstackOffset)
          cr3 := load32 s.mem (block + cr3Offset) } } := by
  obtain ⟨other, selected⟩ := selects
  unfold schedule at *
  split at selected
  · unfold changeTaskTo at *
    split at selected
    · rename_i live differ
      have next : procNext s.mem s.current = block := selected
      rw [if_pos live, if_pos differ, next]
    · exact absurd selected other
  · exact absurd selected other

/-- `esp` comes to the first of the three words of `kernel_thread`. -/
theorem Selects.frame {pgdKern fn kthreadExit arg pid : Nat}
    (selects : Selects block s)
    (apart : RangesApart block stackSize s.current procSize)
    (upper : block + stackSize ≤ 4294967296)
    (filled : ThreadBlock pgdKern fn kthreadExit arg pid s.mem block) :
    (schedule s).cpu.esp = block + stackSize - 12 ∧
      load32 (schedule s).mem (block + stackSize - 12) = uint32 fn ∧
      load32 (schedule s).mem (block + stackSize - 8) = uint32 kthreadExit ∧
      load32 (schedule s).mem (block + stackSize - 4) = uint32 arg := by
  have kept : ∀ address, block ≤ address →
      address + 4 ≤ block + stackSize →
      load32 (schedule s).mem address = load32 s.mem address := by
    intro address lower upper
    apply load32_congr
    intro x above below
    rw [selects.schedule_eq]
    apply switchTo_outside
    simp only [RangesApart, stackSize, procSize, contextOffset] at *
    omega
  have esp : (schedule s).cpu.esp =
      load32 (schedule s).mem (block + contextOffset) := by
    rw [selects.schedule_eq]
    rfl
  simp only [stackSize, contextOffset] at *
  rw [esp, kept _ (by omega) (by omega), kept _ (by omega) (by omega),
    kept _ (by omega) (by omega), kept _ (by omega) (by omega)]
  exact ⟨filled.esp, filled.entry, filled.returnTo, filled.argument⟩

end Selects

theorem kernelThread_current {pgdKern fn kthreadExit arg block pid : Nat}
    {s s' : Sched}
    (returned : kernelThread pgdKern fn kthreadExit arg block s =
      .ok (pid, s')) : s'.current = s.current := by
  unfold kernelThread at returned
  split at returned
  · cases returned
    rfl
  · cases returned

/-! ## The stages of a run -/

/-- How far a run has come, with the words of `kernel_thread` that are still
to be popped. -/
inductive Stage (pgdKern kthreadExit fn arg block : Nat) :
    Position → List Nat → Sched → Prop where
  | waiting {s : Sched} {pid : Nat}
      (filled : ThreadBlock pgdKern fn kthreadExit arg pid s.mem block)
      (other : s.current ≠ block) :
      Stage pgdKern kthreadExit fn arg block .waiting [] s
  | switched {s : Sched} (esp : s.cpu.esp = block + stackSize - 12)
      (entry : load32 s.mem (block + stackSize - 12) = uint32 fn)
      (returnTo : load32 s.mem (block + stackSize - 8) = uint32 kthreadExit)
      (argument : load32 s.mem (block + stackSize - 4) = uint32 arg) :
      Stage pgdKern kthreadExit fn arg block .returning [] s
  | inFunction {s : Sched} (esp : s.cpu.esp = block + stackSize - 8)
      (returnTo : load32 s.mem (block + stackSize - 8) = uint32 kthreadExit)
      (argument : load32 s.mem (block + stackSize - 4) = uint32 arg) :
      Stage pgdKern kthreadExit fn arg block (.entered (uint32 fn))
        [block + stackSize - 12] s
  | functionDone {s : Sched} (esp : s.cpu.esp = block + stackSize - 8)
      (returnTo : load32 s.mem (block + stackSize - 8) = uint32 kthreadExit) :
      Stage pgdKern kthreadExit fn arg block .returning
        [block + stackSize - 12] s
  | inExit {s : Sched} (esp : s.cpu.esp = block + stackSize - 4) :
      Stage pgdKern kthreadExit fn arg block (.entered (uint32 kthreadExit))
        [block + stackSize - 12, block + stackSize - 8] s
  | exitDone {s : Sched} (esp : s.cpu.esp = block + stackSize - 4) :
      Stage pgdKern kthreadExit fn arg block .returning
        [block + stackSize - 12, block + stackSize - 8] s
  /-- `kthread_exit` has popped the argument. -/
  | beyond {position : Position} {popped : List Nat} {s : Sched}
      (argument : block + stackSize - 4 ∈ popped)
      (many : 3 ≤ popped.length) (started : position ≠ .waiting) :
      Stage pgdKern kthreadExit fn arg block position popped s

section Stages

variable {kernStack pgdKern kthreadExit : Nat}
variable {fn : ThreadFunction kernStack pgdKern kthreadExit} {arg block : Nat}

theorem Stage.ret {address : Nat} {popped : List Nat} {s : Sched}
    (stage : Stage pgdKern kthreadExit address arg block .returning popped s)
    (upper : block + stackSize ≤ 4294967296) :
    Stage pgdKern kthreadExit address arg block
      (.entered (load32 s.mem s.cpu.esp)) (popped ++ [s.cpu.esp])
      { s with cpu := { s.cpu with esp := uint32 (s.cpu.esp + 4) } } := by
  cases stage with
  | switched esp entry returnTo argument =>
      rw [esp, entry]
      refine .inFunction ?_ returnTo argument
      simp only [stackSize, uint32] at *
      omega
  | functionDone esp returnTo =>
      rw [esp, returnTo]
      refine .inExit ?_
      simp only [stackSize, uint32] at *
      omega
  | exitDone esp =>
      rw [esp]
      exact .beyond (by simp) (by simp) (by simp)
  | beyond argument many =>
      refine .beyond (List.mem_append_left _ argument) ?_ (by simp)
      rw [List.length_append]
      omega

theorem Stage.call {address entered : Nat} {popped : List Nat}
    {before after : List Nat × Sched}
    (stage : Stage pgdKern kthreadExit address arg block (.entered entered)
      popped before.2)
    (runs : CallRuns kernStack pgdKern kthreadExit before after) :
    Stage pgdKern kthreadExit address arg block .returning popped after.2 := by
  have kept := runs.returnAddress
  cases stage with
  | inFunction esp returnTo argument =>
      rw [esp] at kept
      exact .functionDone (runs.esp.trans esp) (kept.trans returnTo)
  | inExit esp => exact .exitDone (runs.esp.trans esp)
  | beyond argument many => exact .beyond argument many (by simp)

theorem ThreadRun.stage {position : Position} {popped : List Nat}
    {state : List Nat × Sched} (placed : KernStackPlaced kernStack)
    (run : ThreadRun fn arg block position popped state) :
    Stage pgdKern kthreadExit fn.address arg block position popped
      state.2 := by
  induction run with
  | @created created s s' pid run fresh returned =>
      have ring := run.ring placed
      refine .waiting (ring.kernelThread fresh returned).2 ?_
      rw [kernelThread_current returned]
      exact (fresh.pcbsApart ring.current).ne.symm
  | waits run step other kept stage =>
      cases stage with
      | waiting filled _ => exact .waiting (filled.congr kept) other
      | beyond _ _ started => exact absurd rfl started
  | @selected created s run selects stage =>
      cases stage with
      | waiting filled other =>
          have ring := run.schedRun.ring placed
          obtain ⟨idle, upper⟩ := run.fresh
          obtain ⟨esp, entry, returnTo, argument⟩ := selects.frame
            (ring.block_apart run.member idle ring.current selects.1) upper
            filled
          exact .switched esp entry returnTo argument
      | beyond _ _ started => exact absurd rfl started
  | ret run stage => exact stage.ret run.fresh.2
  | call known run runs stage =>
      exact stage.call (ThreadFunction.call _ runs)

end Stages

/-! ## Ending -/

/-- What a state of a run shows of a thread that ends cleanly. -/
structure CleanSoFar {kernStack pgdKern kthreadExit : Nat}
    (fn : ThreadFunction kernStack pgdKern kthreadExit) (arg block : Nat)
    (position : Position) (popped : List Nat) (state : List Nat × Sched) :
    Prop where
  /-- The thread starts in `fn`, with its return address and argument. -/
  entry : ∀ address, position = .entered address → popped.length = 1 →
    address = uint32 fn.address ∧
      load32 state.2.mem state.2.cpu.esp = uint32 kthreadExit ∧
      load32 state.2.mem (state.2.cpu.esp + 4) = uint32 arg
  /-- `fn` returns into `kthread_exit`. -/
  exit : ∀ address, position = .entered address → popped.length = 2 →
    address = uint32 kthreadExit
  /-- No `ret` pops the argument or a word above it. -/
  frame : ∀ word ∈ popped, word + 4 ≤ block + stackSize - 4
  /-- After `kthread_exit` the thread is never selected again. -/
  gone : position = .returning → popped.length = 2 →
    ∀ later, SchedSteps kernStack pgdKern kthreadExit state later →
      ¬ Selects block later.2

namespace ThreadFunction

variable {kernStack pgdKern kthreadExit : Nat}
variable (fn : ThreadFunction kernStack pgdKern kthreadExit) (arg block : Nat)

/-- A thread of this function ends cleanly, if it ends. -/
def EndsCleanly : Prop :=
  ∀ position popped state, ThreadRun fn arg block position popped state →
    CleanSoFar fn arg block position popped state

/-- The function comes to its `ret` after it was entered on the stack that
`kernel_thread` built. -/
def Returns : Prop :=
  ∃ word before after,
    ThreadRun fn arg block (.entered (uint32 fn.address)) [word] before ∧
      fn.runs before after

end ThreadFunction

section Ending

variable {kernStack pgdKern kthreadExit : Nat}
variable {fn : ThreadFunction kernStack pgdKern kthreadExit} {arg block : Nat}

/-- Behind the entry of `fn` there is no run unless it returns. -/
theorem ThreadRun.returns {position : Position} {popped : List Nat}
    {state : List Nat × Sched} (placed : KernStackPlaced kernStack)
    (run : ThreadRun fn arg block position popped state)
    (behind : position = .returning ∧ popped.length = 1 ∨
      2 ≤ popped.length) : fn.Returns arg block := by
  induction run with
  | created | waits | selected => simp at behind
  | @ret popped created s run returns =>
      apply returns
      rw [List.length_append, List.length_singleton] at behind
      simp only [reduceCtorEq, false_and, false_or, true_and] at behind ⊢
      omega
  | @call popped before after code known run runs returns =>
      rcases behind with ⟨_, one⟩ | many
      · obtain ⟨word, rfl⟩ := List.length_eq_one_iff.mp one
        have same : uint32 code.address = uint32 fn.address := by
          have stage := run.stage placed
          generalize place : Position.entered (uint32 code.address) =
            position at stage
          cases stage with
          | inFunction => exact Position.entered.inj place
          | functionDone => cases place
          | beyond _ many => simp at many
        rw [same] at run
        refine ⟨word, before, after, run, ?_⟩
        rcases known with rfl | rfl
        · exact runs
        · rw [fn.exit same.symm]
          exact runs
      · exact returns (.inr many)

/-- The first thread that `kern_init` creates comes to its function. -/
theorem ThreadRun.exists_entered (placed : KernStackPlaced kernStack)
    (fresh : FreshBlock kernStack [] block) (nonnull : block ≠ 0) :
    ∃ word before,
      ThreadRun fn arg block (.entered (uint32 fn.address)) [word] before := by
  let boot : Sched := ⟨fun _ => 0, 0, 0, 0, ⟨0, 0, 0, 0, 0, 0, 0, 0⟩⟩
  have started : SchedRun kernStack pgdKern kthreadExit []
      (initSched kernStack pgdKern boot) := .start rfl
  obtain ⟨pid, s, returned⟩ : ∃ pid s,
      kernelThread pgdKern fn.address kthreadExit arg block
        (initSched kernStack pgdKern boot) = .ok (pid, s) := by
    unfold kernelThread
    rw [if_pos nonnull]
    exact ⟨_, _, rfl⟩
  have waiting : ThreadRun fn arg block .waiting [] ([block], s) :=
    .created started fresh returned
  have ring : Ring kernStack [block] s := waiting.schedRun.ring placed
  have idle : s.current = idleProc kernStack := by
    rw [kernelThread_current returned]
    simp only [initSched]
  have next : procNext s.mem (idleProc kernStack) = block := by
    obtain ⟨_, forward, _⟩ := LinkedChain.chain_cons.mp ring.ring
    exact forward
  have selects : Selects block s := by
    refine ⟨?_, ?_⟩
    · rw [idle]
      exact (fresh.pcbsApart List.mem_cons_self).ne.symm
    · have live : s.current ≠ 0 := by
        rw [idle]
        exact placed.idleProc_ne_zero
      rw [Ring.schedule_current live, idle, next]
  have entered := (waiting.selected selects).ret
  have stage := (waiting.selected selects).stage placed
  cases stage with
  | switched esp entry =>
      rw [esp, entry] at entered
      exact ⟨_, _, entered⟩
  | beyond _ many => simp at many

/-- A function that returns makes `kthread_exit` pop the argument. -/
theorem ThreadFunction.Returns.popsArgument
    (placed : KernStackPlaced kernStack) (returns : fn.Returns arg block) :
    ∃ position popped state, ThreadRun fn arg block position popped state ∧
      block + stackSize - 4 ∈ popped := by
  obtain ⟨word, before, after, run, runs⟩ := returns
  have left := run.call (.inl rfl) runs
  have stage := left.stage placed
  cases stage with
  | functionDone esp returnTo =>
      have exiting := left.ret
      rw [esp, returnTo] at exiting
      have exited := exiting.call
        (.inr (Eq.refl (kthreadExitCode kernStack pgdKern kthreadExit)))
        (.refl _)
      refine ⟨_, _, _, exited.ret, ?_⟩
      apply List.mem_append_right
      rw [List.mem_singleton]
      have upper := run.fresh.2
      simp only [uint32, stackSize] at *
      omega
  | beyond _ many => simp at many

/-- A thread ends cleanly exactly if its function never returns. -/
theorem thread_endsCleanly_iff (placed : KernStackPlaced kernStack) :
    fn.EndsCleanly arg block ↔ ¬ fn.Returns arg block := by
  constructor
  · intro clean returns
    obtain ⟨position, popped, state, run, argument⟩ :=
      returns.popsArgument placed
    have below := (clean position popped state run).frame _ argument
    omega
  · intro never position popped state run
    have early : ¬ (position = .returning ∧ popped.length = 1 ∨
        2 ≤ popped.length) := fun behind => never (run.returns placed behind)
    have stage := run.stage placed
    cases stage with
    | waiting | switched =>
        exact ⟨by simp, by simp, by simp, by simp⟩
    | inFunction esp returnTo argument =>
        refine ⟨?_, by simp, ?_, by simp⟩
        · rintro address ⟨⟩ _
          rw [esp]
          exact ⟨rfl, returnTo, argument⟩
        · intro word member
          rw [List.mem_singleton.mp member]
          simp only [stackSize]
          omega
    | functionDone => exact absurd (.inl ⟨rfl, rfl⟩) early
    | inExit | exitDone => exact absurd (.inr (Nat.le_refl 2)) early
    | beyond _ many => exact absurd (.inr (by omega)) early

end Ending

/-- The thread of a function that loops, as `task_tty` does. -/
theorem thread_endsCleanly_loop :
    ∃ fn : ThreadFunction 0xC0103000 0xC0101000 0xC0100500,
      fn.address = 0xC0100600 ∧ ¬ fn.Returns 0 0xE000000C ∧
        fn.EndsCleanly 0 0xE000000C := by
  let loop : ThreadFunction 0xC0103000 0xC0101000 0xC0100500 := {
    address := 0xC0100600
    runs := fun _ _ => False
    call := False.elim
    exit := fun same => absurd same (by decide) }
  have never : ¬ loop.Returns 0 0xE000000C := fun ⟨_, _, _, _, runs⟩ => runs
  exact ⟨loop, rfl, never,
    (thread_endsCleanly_iff ⟨by decide, by decide⟩).mpr never⟩

/-- The thread of a function that returns at once. -/
theorem thread_endsCleanly_returnsAtOnce :
    ¬ ∀ (kernStack pgdKern kthreadExit : Nat)
      (fn : ThreadFunction kernStack pgdKern kthreadExit) (arg block : Nat),
      KernStackPlaced kernStack → fn.EndsCleanly arg block := by
  intro clean
  have placed : KernStackPlaced 0xC0103000 := ⟨by decide, by decide⟩
  let fn : ThreadFunction 0xC0103000 0xC0101000 0xC0100500 := {
    address := 0xC0100600
    runs := fun before after => after = before
    call := fun same => same ▸ .refl _
    exit := fun same => absurd same (by decide) }
  have fresh : FreshBlock 0xC0103000 [] 0xE000000C :=
    ⟨by decide, .inr (by decide), by simp⟩
  have returns : fn.Returns 0 0xE000000C := by
    obtain ⟨word, before, entered⟩ :=
      ThreadRun.exists_entered placed fresh (by decide)
    exact ⟨word, before, before, entered, rfl⟩
  obtain ⟨position, popped, state, run, argument⟩ :=
    returns.popsArgument placed
  have below := (clean _ _ _ fn 0 0xE000000C placed position popped state
    run).frame _ argument
  omega

end MiniOS
