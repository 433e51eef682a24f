import MiniOS.Lib.RoundRobin
import MiniOS.Schedule.ThreadExit

/-!
# `schedule` is round robin

The ring is a rotation of the threads in the order of their creation:
`schedule` takes a turn, and `kernel_thread`, which links its PCB in before the
idle thread, lets a thread join at the end.
-/

namespace MiniOS

open RoundRobin

/-- The threads that the next calls of `schedule` select.  In a ring of one
the thread selects itself, without a switch. -/
def selectedThreads : Nat → Sched → List Nat
  | 0, _ => []
  | count + 1, s => (schedule s).current :: selectedThreads count (schedule s)

/-- A run of the scheduler with its selections and its new threads. -/
inductive SchedTrace (kernStack pgdKern kthreadExit : Nat) :
    List Nat × Sched → List (TurnEvent Nat) → List Nat × Sched → Prop where
  | done (state : List Nat × Sched) :
      SchedTrace kernStack pgdKern kthreadExit state [] state
  | kernelThread {created : List Nat} {s s' : Sched} {fn arg block pid : Nat}
      {events : List (TurnEvent Nat)} {last : List Nat × Sched}
      (fresh : FreshBlock kernStack created block)
      (returned : kernelThread pgdKern fn kthreadExit arg block s =
        .ok (pid, s'))
      (rest : SchedTrace kernStack pgdKern kthreadExit
        (created ++ [block], s') events last) :
      SchedTrace kernStack pgdKern kthreadExit (created, s)
        (.joined block :: events) last
  | schedule {created : List Nat} {s : Sched} {events : List (TurnEvent Nat)}
      {last : List Nat × Sched}
      (rest : SchedTrace kernStack pgdKern kthreadExit
        (created, schedule s) events last) :
      SchedTrace kernStack pgdKern kthreadExit (created, s)
        (.selected (schedule s).current :: events) last
  | compute {created : List Nat} {s : Sched} {mem : ByteMemory.Mem} {cpu : Cpu}
      {events : List (TurnEvent Nat)} {last : List Nat × Sched}
      (same : SamePcbs (idleProc kernStack :: created) mem s.mem)
      (rest : SchedTrace kernStack pgdKern kthreadExit
        (created, { s with mem := mem, cpu := cpu }) events last) :
      SchedTrace kernStack pgdKern kthreadExit (created, s) events last

/-- The rotation that a ring of threads stands for. -/
structure Rotates (kernStack : Nat) (created : List Nat) (s : Sched)
    (rotation : Rotation Nat) : Prop where
  members : rotation.members = idleProc kernStack :: created
  now : rotation.now = s.current

/-- In a ring `next` leads to the member that has the next turn. -/
theorem next_eq_advance {α : Type*} {next prev : α → α} {first before : α}
    {nodes : List α}
    (ring : LinkedChain.Chain next prev before (first :: nodes) first)
    {rotation : Rotation α} (members : rotation.members = first :: nodes) :
    next rotation.now = rotation.advance.now := by
  obtain ⟨passed, now, after⟩ := rotation
  rw [← members, Rotation.members, LinkedChain.chain_append] at ring
  obtain ⟨_, _, forward, _⟩ := ring
  simp only at forward ⊢
  rw [forward]
  cases after with
  | cons next after => rfl
  | nil =>
      have order : passed ++ [now] = first :: nodes := members
      rw [Rotation.advance_last order]
      rfl

section Simulation

variable {kernStack pgdKern kthreadExit : Nat} {created : List Nat} {s : Sched}
variable {rotation : Rotation Nat}

theorem Ring.exists_rotates (ring : Ring kernStack created s) :
    ∃ rotation, Rotates kernStack created s rotation := by
  obtain ⟨before, after, split⟩ := List.append_of_mem ring.current
  exact ⟨⟨before, s.current, after⟩, split.symm, rfl⟩

theorem Rotates.schedule (rotates : Rotates kernStack created s rotation)
    (ring : Ring kernStack created s) (live : s.current ≠ 0) :
    Rotates kernStack created (schedule s) rotation.advance where
  members := (Rotation.members_advance rotation).trans rotates.members
  now := by
    rw [Ring.schedule_current live, ← rotates.now]
    exact (next_eq_advance ring.ring rotates.members).symm

theorem Rotates.kernelThread {fn arg block pid : Nat} {s' : Sched}
    (rotates : Rotates kernStack created s rotation)
    (returned : kernelThread pgdKern fn kthreadExit arg block s =
      .ok (pid, s')) :
    Rotates kernStack (created ++ [block]) s' (rotation.join block) where
  members := by
    rw [Rotation.members_join, rotates.members]
    rfl
  now := by
    rw [kernelThread_current returned]
    exact rotates.now

theorem FreshBlock.not_mem {block : Nat}
    (fresh : FreshBlock kernStack created block) :
    block ∉ idleProc kernStack :: created :=
  fun member => (fresh.pcbsApart member).ne rfl

/-- A run of the scheduler is a run of the rotation with the same events. -/
theorem SchedTrace.turns {events : List (TurnEvent Nat)}
    {state last : List Nat × Sched} (placed : KernStackPlaced kernStack)
    (trace : SchedTrace kernStack pgdKern kthreadExit state events last)
    (run : SchedRun kernStack pgdKern kthreadExit state.1 state.2)
    (rotates : Rotates kernStack state.1 state.2 rotation) :
    ∃ rotation', Turns rotation events rotation' := by
  induction trace generalizing rotation with
  | done => exact ⟨rotation, .done rotation⟩
  | kernelThread fresh returned _ induction =>
      have new := fresh.not_mem
      rw [← rotates.members] at new
      obtain ⟨rotation', turns⟩ := induction (run.kernelThread fresh returned)
        (rotates.kernelThread returned)
      exact ⟨rotation', .join new turns⟩
  | schedule _ induction =>
      have ring := run.ring placed
      have next := rotates.schedule ring (run.live placed _ ring.current)
      obtain ⟨rotation', turns⟩ := induction run.schedule next
      rw [← next.now]
      exact ⟨rotation', .select turns⟩
  | compute same _ induction =>
      exact induction (run.compute same) ⟨rotates.members, rotates.now⟩

theorem Rotates.turns_eq (placed : KernStackPlaced kernStack)
    (run : SchedRun kernStack pgdKern kthreadExit created s)
    (rotates : Rotates kernStack created s rotation) (count : Nat) :
    rotation.turns count = selectedThreads count s := by
  induction count generalizing s rotation with
  | zero => rfl
  | succ count induction =>
      have ring := run.ring placed
      have next := rotates.schedule ring (run.live placed _ ring.current)
      rw [Rotation.turns, selectedThreads, next.now,
        induction run.schedule next]

end Simulation

theorem selectedThreads_last (count : Nat) (s : Sched) :
    (selectedThreads (count + 1) s).getLast? =
      some (schedule^[count + 1] s).current := by
  induction count generalizing s with
  | zero => rfl
  | succ count induction =>
      rw [selectedThreads, List.getLast?_cons, induction,
        Function.iterate_succ_apply]
      rfl

/-- In every state of a run, as many calls of `schedule` as there are threads
select each of them once and end with the current one.  In every run from
there, with new threads anywhere, every thread of the time of a selection is
selected exactly once before the same thread is selected again. -/
theorem schedule_roundRobin {kernStack pgdKern kthreadExit : Nat}
    {created : List Nat} {s : Sched} (placed : KernStackPlaced kernStack)
    (run : SchedRun kernStack pgdKern kthreadExit created s) :
    ((selectedThreads (created.length + 1) s).Nodup ∧
      (selectedThreads (created.length + 1) s).Perm
        (idleProc kernStack :: created) ∧
      (schedule^[created.length + 1] s).current = s.current) ∧
    ∀ (earlier between later : List (TurnEvent Nat)) (thread : Nat)
      (last : List Nat × Sched),
      SchedTrace kernStack pgdKern kthreadExit (created, s)
        (earlier ++ .selected thread :: between ++ .selected thread :: later)
        last →
      thread ∉ selections between →
      ∀ other ∈ idleProc kernStack :: created ++ joiners earlier,
        other ≠ thread → (selections between).count other = 1 := by
  have ring := run.ring placed
  obtain ⟨rotation, rotates⟩ := ring.exists_rotates
  have distinct : rotation.members.Nodup := by
    rw [rotates.members]
    exact ring.nodup
  constructor
  · obtain ⟨others, turns, once⟩ := turns_members rotation
    rw [rotates.members, List.length_cons, rotates.turns_eq placed run] at turns
    rw [← turns, rotates.members] at once
    refine ⟨once.nodup_iff.mpr ring.nodup, once, ?_⟩
    have final := selectedThreads_last created.length s
    rw [turns, List.getLast?_concat, rotates.now] at final
    exact (Option.some.inj final).symm
  · intro earlier between later thread last trace none other old differ
    obtain ⟨rotation', turns⟩ := trace.turns placed run rotates
    rw [← rotates.members] at old
    exact turns.between distinct none old differ

/-- The idle thread has created one thread. -/
def oneThread : Sched :=
  let boot : Sched := ⟨fun _ => 0, 0, 0, 0, ⟨0, 0, 0, 0, 0, 0, 0, 0⟩⟩
  let idle := initSched 0xC0103000 0xC0101000 boot
  match kernelThread 0xC0101000 0xC0100600 0xC0100500 0 0xE000000C idle with
  | .ok (_, s) => s
  | .error _ => idle

theorem oneThread_run :
    SchedRun 0xC0103000 0xC0101000 0xC0100500 [0xE000000C] oneThread := by
  let boot : Sched := ⟨fun _ => 0, 0, 0, 0, ⟨0, 0, 0, 0, 0, 0, 0, 0⟩⟩
  have started : SchedRun 0xC0103000 0xC0101000 0xC0100500 []
      (initSched 0xC0103000 0xC0101000 boot) := .start rfl
  have fresh : FreshBlock 0xC0103000 [] 0xE000000C :=
    ⟨by decide, .inr (by decide), by simp⟩
  obtain ⟨pid, s, returned⟩ : ∃ pid s,
      kernelThread 0xC0101000 0xC0100600 0xC0100500 0 0xE000000C
        (initSched 0xC0103000 0xC0101000 boot) = .ok (pid, s) := ⟨_, _, rfl⟩
  have same : oneThread = s := by
    simp only [oneThread, boot, returned] at returned ⊢
  rw [same]
  exact started.kernelThread fresh returned

/-- The two threads take turns. -/
theorem schedule_roundRobin_oneThread :
    (selectedThreads 2 oneThread).Perm [idleProc 0xC0103000, 0xE000000C] ∧
      ∃ last, SchedTrace 0xC0103000 0xC0101000 0xC0100500
          ([0xE000000C], oneThread)
          [.selected 0xE000000C, .selected (idleProc 0xC0103000),
            .selected 0xE000000C] last ∧
        (selections [.selected (idleProc 0xC0103000)]).count
          (idleProc 0xC0103000) = 1 := by
  have placed : KernStackPlaced 0xC0103000 := ⟨by decide, by decide⟩
  obtain ⟨⟨_, whole, _⟩, between⟩ := schedule_roundRobin placed oneThread_run
  have first : (schedule oneThread).current = 0xE000000C := by
    decide +kernel
  have second : (schedule (schedule oneThread)).current =
      idleProc 0xC0103000 := by decide +kernel
  have third : (schedule (schedule (schedule oneThread))).current =
      0xE000000C := by decide +kernel
  have trace : SchedTrace 0xC0103000 0xC0101000 0xC0100500
      ([0xE000000C], oneThread)
      [.selected (schedule oneThread).current,
        .selected (schedule (schedule oneThread)).current,
        .selected (schedule (schedule (schedule oneThread))).current]
      _ := .schedule (.schedule (.schedule (.done _)))
  rw [first, second, third] at trace
  refine ⟨whole, _, trace, ?_⟩
  exact between [] [.selected (idleProc 0xC0103000)] [] 0xE000000C _ trace
    (by decide) _ List.mem_cons_self (by decide)

end MiniOS
