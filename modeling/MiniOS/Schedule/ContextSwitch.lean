import MiniOS.Schedule.Switchasm

/-!
# Threads across switches

While a thread waits, its context and its stack from the saved `esp` on stay
as they were when it left the processor; whatever the other threads compute,
create and switch to in between, it goes on from there.  A thread that is new
goes on with the call of its function.
-/

namespace MiniOS

open X86 Routine Routine.Move

/-! ## Threads that wait -/

def freshWords (thread : Word) : ContextWords :=
  ⟨thread + 8180, 0, 0, 0, 0, 0x200⟩

/-- Where a thread waits. -/
inductive Suspended where
  /-- In a call of `switch_to` from the state. -/
  | call (s : State)
  /-- In its block, as `kernel_thread` left memory. -/
  | new (block : Word) (fn arg : Nat) (mem : Memory)

def Suspended.words : Suspended → ContextWords
  | .call s => contextOf s
  | .new block _ _ _ => freshWords block

def Suspended.mem : Suspended → Memory
  | .call s => s.mem
  | .new _ _ _ mem => mem

def contextAddress (thread : Word) : Word := thread + 8

def threadBytes (thread : Word) : Set Word := bytes thread stackSize

def stackBytes (thread esp : Word) : Set Word :=
  bytes esp (stackSize - (esp - thread).toNat)

/-- Above `esp` are `size` bytes of the stack, and below it room for one word
before the PCB begins. -/
structure StackRoom (thread esp : Word) (size : Nat) : Prop where
  below : procSize + 4 ≤ (esp - thread).toNat
  above : (esp - thread).toNat + size ≤ stackSize

/-- The thread can be switched to. -/
structure Waits (mem : Memory) (thread : Word) (left : Suspended) : Prop where
  context : ContextAt mem (contextAddress thread) left.words
  stack : Set.EqOn mem left.mem (stackBytes thread left.words.esp)
  room : StackRoom thread left.words.esp 4

section Blocks

variable {thread other esp : Word} {size : Nat} {mem mem' : Memory}
  {left : Suspended}

theorem context_block : bytes (contextAddress thread) 24 ⊆ threadBytes thread :=
  bytes_part (by decide)

theorem stack_block (room : StackRoom thread esp size) :
    stackBytes thread esp ⊆ threadBytes thread := by
  have bound := room.above
  intro x member
  simp only [stackBytes, threadBytes, bytes, stackSize, Set.mem_ofPred_eq] at *
  bv_omega

/-- The words around `esp` lie in the block, behind the context. -/
theorem room_block (room : StackRoom thread esp size) :
    bytes (esp - 4) (4 + size) ⊆ threadBytes thread := by
  have below := room.below
  have above := room.above
  intro x member
  simp only [threadBytes, bytes, stackSize, procSize, Set.mem_ofPred_eq] at *
  bv_omega

theorem room_context (room : StackRoom thread esp size) :
    Disjoint (bytes (esp - 4) (4 + size))
      (bytes (contextAddress thread) 24) := by
  have below := room.below
  have above := room.above
  apply Set.disjoint_left.mpr
  intro x member context
  simp only [contextAddress, bytes, stackSize, procSize, Set.mem_ofPred_eq]
    at *
  bv_omega

theorem stack_context (room : StackRoom thread esp size) :
    Disjoint (stackBytes thread esp) (bytes (contextAddress thread) 24) := by
  have below := room.below
  have above := room.above
  apply Set.disjoint_left.mpr
  intro x member context
  simp only [stackBytes, contextAddress, bytes, stackSize, procSize,
    Set.mem_ofPred_eq] at *
  bv_omega

theorem stack_scratch (room : StackRoom thread esp size) :
    Disjoint (stackBytes thread esp) (bytes (esp - 4) 4) := by
  have below := room.below
  have above := room.above
  apply Set.disjoint_left.mpr
  intro x member context
  simp only [stackBytes, bytes, stackSize, procSize, Set.mem_ofPred_eq] at *
  bv_omega

theorem top_stack (room : StackRoom thread esp 4) :
    bytes esp 4 ⊆ stackBytes thread esp := by
  have above := room.above
  exact bytes_front (by omega)

/-- What a waiting thread needs is its context and its stack. -/
theorem Waits.eqOn (waits : Waits mem thread left)
    (context : Set.EqOn mem' mem (bytes (contextAddress thread) 24))
    (stack : Set.EqOn mem' mem (stackBytes thread left.words.esp)) :
    Waits mem' thread left :=
  ⟨waits.context.eqOn context, stack.trans waits.stack, waits.room⟩

theorem Waits.eqOn_block (waits : Waits mem thread left)
    (same : Set.EqOn mem' mem (threadBytes thread)) :
    Waits mem' thread left :=
  waits.eqOn (same.mono context_block) (same.mono (stack_block waits.room))

end Blocks

/-! ## One call -/

/-- A thread calls `switch_to(&thread->context, &next->context)`. -/
structure SwitchEntry (s : State) (thread next : Word) : Prop where
  prev_arg : X86.load s.mem (s.reg .esp + 4) = contextAddress thread
  next_arg : X86.load s.mem (s.reg .esp + 8) = contextAddress next
  room : StackRoom thread (s.reg .esp) 12

section Entry

variable {s : State} {thread next : Word} {left : Suspended}

theorem SwitchEntry.call (entry : SwitchEntry s thread next)
    (waits : Waits s.mem next left)
    (apart : Disjoint (threadBytes thread) (threadBytes next)) :
    SwitchCall s (contextAddress thread) (contextAddress next) left.words where
  prev_arg := entry.prev_arg
  next_arg := entry.next_arg
  next_words := waits.context
  contexts := (apart.mono context_block context_block).symm
  frame := room_context entry.room
  frame_next := (apart.mono ((bytes_front (by decide)).trans
    (room_block entry.room)) context_block).symm
  stack := (apart.mono context_block (room_block waits.room)).symm
  stack_frame := (apart.mono ((bytes_front (by decide)).trans
    (room_block entry.room))
    ((top_stack waits.room).trans (stack_block waits.room))).symm

end Entry

/-! ## The block of a new thread -/

theorem load_block {mem : Memory} {thread : Word} {offset value : Nat}
    (word : ByteMemory.load32 (natMem mem) (thread.toNat + offset) = value) :
    X86.load mem (thread + BitVec.ofNat 32 offset) =
      BitVec.ofNat 32 value := by
  rw [load32_natMem, BitVec.ofNat_add, BitVec.ofNat_toNat,
    BitVec.setWidth_eq] at word
  rw [← word, BitVec.ofNat_toNat, BitVec.setWidth_eq]

section FreshThread

variable {pgdKern fn kthreadExit arg pid : Nat} {mem : Memory} {thread : Word}

/-- What `kernel_thread` leaves in its block is the context and the stack
frame of a call of `fn`. -/
theorem ThreadBlock.fresh (filled : ThreadBlock pgdKern fn kthreadExit arg pid
      (natMem mem) thread.toNat) :
    ContextAt mem (contextAddress thread) (freshWords thread) ∧
      Holds mem (thread + 8180)
        [BitVec.ofNat 32 fn, BitVec.ofNat 32 kthreadExit,
          BitVec.ofNat 32 arg] := by
  have low : ∀ value, BitVec.ofNat 32 (uint32 value) = BitVec.ofNat 32 value :=
    fun value => BitVec.eq_of_toNat_eq (by simp [uint32])
  have register : ∀ i, 1 ≤ i → i < 5 →
      X86.load mem (thread + BitVec.ofNat 32 (8 + 4 * i)) = 0 := by
    intro i lower upper
    apply load_block
    rw [← Nat.add_assoc]
    exact filled.registers i lower upper
  have top : ∀ offset value, 4 ≤ offset → offset ≤ 12 →
      ByteMemory.load32 (natMem mem) (thread.toNat + stackSize - offset) =
        uint32 value →
      X86.load mem (thread + BitVec.ofNat 32 (stackSize - offset)) =
        BitVec.ofNat 32 value := by
    intro offset value lower upper word
    rw [← low value]
    apply load_block
    rw [← word, Nat.add_sub_assoc (by simp only [stackSize]; omega)]
  have esp := load_block filled.esp
  have espEq : BitVec.ofNat 32 (thread.toNat + stackSize - 12) =
      thread + 8180 := by
    simp only [stackSize]
    bv_omega
  have ebp := register 1 (by decide) (by decide)
  have ebx := register 2 (by decide) (by decide)
  have esi := register 3 (by decide) (by decide)
  have edi := register 4 (by decide) (by decide)
  have eflags : X86.load mem (thread + BitVec.ofNat 32 28) = _ :=
    load_block filled.eflags
  have entry := top 12 fn (by decide) (by decide) filled.entry
  have returnTo := top 8 kthreadExit (by decide) (by decide) filled.returnTo
  have argument := top 4 arg (by decide) (by decide) filled.argument
  simp only [stackSize, Nat.reduceMul, Nat.reduceAdd, Nat.reduceSub,
    BitVec.ofNat_eq_ofNat] at *
  simp only [ContextAt, ContextWords.toList, freshWords, contextAddress,
    Holds, BitVec.add_assoc, BitVec.reduceAdd, BitVec.ofNat_eq_ofNat,
    and_true, ebp, ebx, esi, edi, eflags, entry, returnTo, argument]
  exact esp.trans espEq

end FreshThread

/-! ## Runs -/

abbrev Waiting := Word → Option Suspended

/-- What the running thread does leaves alone what the waiting threads need. -/
def LeavesAlone (waiting : Waiting) (mem mem' : Memory) : Prop :=
  ∀ thread left, waiting thread = some left →
    Set.EqOn mem' mem (bytes (contextAddress thread) 24) ∧
      Set.EqOn mem' mem (stackBytes thread left.words.esp)

/-- The block has no byte in common with that of the running thread or of a
waiting one. -/
def ApartFromThreads (current : Word) (waiting : Waiting) (block : Word) :
    Prop :=
  Disjoint (threadBytes current) (threadBytes block) ∧
    ∀ thread left, waiting thread = some left →
      Disjoint (threadBytes thread) (threadBytes block)

/-- The running thread, the processor while it runs, and the threads that
wait.  A thread computes, creates another one with `kernel_thread`, or calls
`switch_to`. -/
inductive SwitchRun (pgdKern kthreadExit : Nat) :
    Word → State → Waiting → Prop
  | start (thread : Word) (s : State) :
      SwitchRun pgdKern kthreadExit thread s fun _ => none
  | compute {current : Word} {s s' : State} {waiting : Waiting}
      (run : SwitchRun pgdKern kthreadExit current s waiting)
      (same : LeavesAlone waiting s.mem s'.mem) :
      SwitchRun pgdKern kthreadExit current s' waiting
  | create {current block : Word} {s s' : State} {waiting : Waiting}
      {fn arg pid : Nat}
      (run : SwitchRun pgdKern kthreadExit current s waiting)
      (apart : ApartFromThreads current waiting block)
      (same : LeavesAlone waiting s.mem s'.mem)
      (filled : ThreadBlock pgdKern fn kthreadExit arg pid (natMem s'.mem)
        block.toNat) :
      SwitchRun pgdKern kthreadExit current s'
        (Function.update waiting block (some (.new block fn arg s'.mem)))
  | switch {current next : Word} {s : State} {waiting : Waiting}
      {left : Suspended}
      (run : SwitchRun pgdKern kthreadExit current s waiting)
      (waits : waiting next = some left)
      (entry : SwitchEntry s current next) :
      SwitchRun pgdKern kthreadExit next (runSwitchTo s).2
        (Function.update (Function.update waiting next none) current
          (some (.call s)))

/-- The invariant: every waiting thread can be switched to, and no two threads
share a byte. -/
structure ThreadsApart (current : Word) (s : State) (waiting : Waiting) :
    Prop where
  waits : ∀ thread left, waiting thread = some left → Waits s.mem thread left
  current : ∀ thread left, waiting thread = some left →
    Disjoint (threadBytes current) (threadBytes thread)
  apart : ∀ thread other left left', waiting thread = some left →
    waiting other = some left' → thread ≠ other →
    Disjoint (threadBytes thread) (threadBytes other)

/-- What a thread finds when it is switched in. -/
structure Resumed (thread : Word) (left : Suspended) (s : State) : Prop where
  esp : s.reg .esp = left.words.esp + 4
  ebp : s.reg .ebp = left.words.ebp
  ebx : s.reg .ebx = left.words.ebx
  esi : s.reg .esi = left.words.esi
  edi : s.reg .edi = left.words.edi
  eflags : s.eflags.bits &&& poppedFlags = left.words.eflags &&& poppedFlags
  stack : Set.EqOn s.mem left.mem (stackBytes thread left.words.esp)

section Runs

variable {pgdKern kthreadExit : Nat} {current next : Word} {s s' : State}
  {waiting : Waiting} {left : Suspended}

theorem Waits.leave (waits : Waits s.mem next left)
    (member : waiting next = some left)
    (same : LeavesAlone waiting s.mem s'.mem) : Waits s'.mem next left :=
  waits.eqOn (same next left member).1 (same next left member).2

theorem freshRoom (thread : Word) :
    StackRoom thread (freshWords thread).esp 4 := by
  have offset : (freshWords thread).esp - thread = 8180 := by
    simp only [freshWords]
    bv_omega
  constructor <;> rw [offset] <;> decide

namespace ThreadsApart

theorem compute (threads : ThreadsApart current s waiting)
    (same : LeavesAlone waiting s.mem s'.mem) :
    ThreadsApart current s' waiting where
  waits thread left member :=
    (threads.waits thread left member).leave member same
  current := threads.current
  apart := threads.apart

theorem create {block : Word} {fn arg pid : Nat}
    (threads : ThreadsApart current s waiting)
    (apart : ApartFromThreads current waiting block)
    (same : LeavesAlone waiting s.mem s'.mem)
    (filled : ThreadBlock pgdKern fn kthreadExit arg pid (natMem s'.mem)
      block.toNat) :
    ThreadsApart current s'
      (Function.update waiting block (some (.new block fn arg s'.mem))) where
  waits := by
    intro thread left member
    by_cases new : thread = block
    · subst new
      rw [Function.update_self, Option.some.injEq] at member
      subst member
      exact ⟨filled.fresh.1, Set.eqOn_refl _ _, freshRoom thread⟩
    · rw [Function.update_of_ne new] at member
      exact (threads.waits thread left member).leave member same
  current := by
    intro thread left member
    by_cases new : thread = block
    · exact new ▸ apart.1
    · rw [Function.update_of_ne new] at member
      exact threads.current thread left member
  apart := by
    intro thread other left left' member otherMember different
    by_cases new : thread = block
    · have old : other ≠ block := fun same => different (new.trans same.symm)
      rw [Function.update_of_ne old] at otherMember
      exact new ▸ (apart.2 other left' otherMember).symm
    · rw [Function.update_of_ne new] at member
      by_cases otherNew : other = block
      · exact otherNew ▸ apart.2 thread left member
      · rw [Function.update_of_ne otherNew] at otherMember
        exact threads.apart thread other left left' member otherMember
          different

/-- What is left of the stack of the thread that is switched out and of the
blocks of the others. -/
theorem switched_block {thread : Word} {words : ContextWords}
    (switched : Switched s (contextAddress current) words s')
    (entry : SwitchEntry s current next) (room : StackRoom next words.esp 4)
    (fromCurrent : Disjoint (threadBytes current) (threadBytes thread))
    (fromNext : Disjoint (threadBytes next) (threadBytes thread)) :
    Set.EqOn s'.mem s.mem (threadBytes thread) := by
  apply switched.others
  · exact (fromCurrent.mono_left context_block).symm
  · exact (fromCurrent.mono_left ((bytes_front (by decide)).trans
      (room_block entry.room))).symm
  · exact (fromNext.mono_left ((bytes_front (by decide)).trans
      (room_block room))).symm

theorem switched_current {words : ContextWords}
    (switched : Switched s (contextAddress current) words s')
    (entry : SwitchEntry s current next) (room : StackRoom next words.esp 4)
    (apart : Disjoint (threadBytes current) (threadBytes next)) :
    Waits s'.mem current (.call s) where
  context := switched.saved
  stack := by
    apply switched.others
    · exact stack_context entry.room
    · exact stack_scratch entry.room
    · exact apart.mono (stack_block entry.room)
        ((bytes_front (by decide)).trans (room_block room))
  room := ⟨entry.room.below, Nat.le_trans (Nat.add_le_add_left (by decide) _)
    entry.room.above⟩

theorem call (threads : ThreadsApart current s waiting)
    (member : waiting next = some left) (entry : SwitchEntry s current next) :
    SwitchCall s (contextAddress current) (contextAddress next) left.words :=
  entry.call (threads.waits next left member)
    (threads.current next left member)

theorem switch (threads : ThreadsApart current s waiting)
    (member : waiting next = some left) (entry : SwitchEntry s current next) :
    ThreadsApart next (runSwitchTo s).2
      (Function.update (Function.update waiting next none) current
        (some (.call s))) := by
  have call := threads.call member entry
  have room := (threads.waits next left member).room
  have switched := call.switched
  rw [call.run_eq]
  have other : ∀ thread left, thread ≠ current →
      Function.update (Function.update waiting next none) current
        (some (.call s)) thread = some left →
      thread ≠ next ∧ waiting thread = some left := by
    intro thread left different there
    rw [Function.update_of_ne different] at there
    by_cases in_ : thread = next
    · rw [in_, Function.update_self] at there
      cases there
    · rw [Function.update_of_ne in_] at there
      exact ⟨in_, there⟩
  constructor
  · intro thread left' there
    by_cases own : thread = current
    · rw [own, Function.update_self, Option.some.injEq] at there
      subst own there
      exact switched_current switched entry room
        (threads.current next left member)
    · obtain ⟨notNext, there⟩ := other thread left' own there
      exact (threads.waits thread left' there).eqOn_block
        (switched_block switched entry room
          (threads.current thread left' there)
          (threads.apart next thread left left' member there notNext.symm))
  · intro thread left' there
    by_cases own : thread = current
    · exact own ▸ (threads.current next left member).symm
    · obtain ⟨notNext, there⟩ := other thread left' own there
      exact threads.apart next thread left left' member there notNext.symm
  · intro thread thread' left' left'' there there' different
    by_cases own : thread = current
    · have different' : thread' ≠ current :=
        fun same => different (own.trans same.symm)
      obtain ⟨_, there'⟩ := other thread' left'' different' there'
      exact own ▸ threads.current thread' left'' there'
    · obtain ⟨_, there⟩ := other thread left' own there
      by_cases own' : thread' = current
      · exact own' ▸ (threads.current thread left' there).symm
      · obtain ⟨_, there'⟩ := other thread' left'' own' there'
        exact threads.apart thread thread' left' left'' there there' different

end ThreadsApart

theorem SwitchRun.threads
    (run : SwitchRun pgdKern kthreadExit current s waiting) :
    ThreadsApart current s waiting := by
  induction run with
  | start thread s => constructor <;> simp
  | compute run same induction => exact induction.compute same
  | create run apart same filled induction =>
      exact induction.create apart same filled
  | switch run waits entry induction => exact induction.switch waits entry

theorem SwitchRun.new_frame
    (run : SwitchRun pgdKern kthreadExit current s waiting) :
    ∀ thread block fn arg mem, waiting thread = some (.new block fn arg mem) →
      thread = block ∧ Holds mem (block + 8180)
        [BitVec.ofNat 32 fn, BitVec.ofNat 32 kthreadExit,
          BitVec.ofNat 32 arg] := by
  induction run with
  | start thread s => simp
  | compute run same induction => exact induction
  | @create current block s s' waiting fn arg pid run apart same filled
      induction =>
      intro thread block' fn' arg' mem member
      by_cases new : thread = block
      · rw [new, Function.update_self] at member
        cases member
        exact ⟨new, filled.fresh.2⟩
      · rw [Function.update_of_ne new] at member
        exact induction thread block' fn' arg' mem member
  | @switch current next s waiting left run waits entry induction =>
      intro thread block fn arg mem member
      by_cases own : thread = current
      · rw [own, Function.update_self] at member
        cases member
      · rw [Function.update_of_ne own] at member
        by_cases in_ : thread = next
        · rw [in_, Function.update_self] at member
          cases member
        · rw [Function.update_of_ne in_] at member
          exact induction thread block fn arg mem member

end Runs

/-! ## Two threads -/

/-- Memory that reads as the model says. -/
def ofNatMem (mem : ByteMemory.Mem) : Memory :=
  fun address => (mem address.toNat).toBitVec

theorem natMem_ofNatMem {mem : ByteMemory.Mem} {x : Nat}
    (bound : x < 4294967296) : natMem (ofNatMem mem) x = mem x := by
  simp [natMem, ofNatMem, Nat.mod_eq_of_lt bound]

/-- The state in which a thread calls `switch_to` for another one. -/
def callFrame (thread next : Word) (s : State) : State := { s with
  mem := storeWords s.mem (thread + 4096)
    [0, contextAddress thread, contextAddress next]
  reg := Function.update s.reg .esp (thread + 4096) }

theorem callFrame_room (thread : Word) :
    StackRoom thread (thread + 4096) 12 := by
  have offset : thread + 4096 - thread = 4096 := by bv_omega
  constructor <;> rw [offset] <;> decide

theorem callFrame_entry (thread next : Word) (s : State) :
    SwitchEntry (callFrame thread next s) thread next := by
  have words : Holds (callFrame thread next s).mem (thread + 4096)
      [0, contextAddress thread, contextAddress next] :=
    storeWords_holds (by simp)
  constructor
  · exact words.get 1 rfl
  · exact words.get 2 rfl
  · exact callFrame_room thread

theorem callFrame_alone {thread next : Word} {s : State} {waiting : Waiting}
    (threads : ThreadsApart thread s waiting) :
    LeavesAlone waiting s.mem (callFrame thread next s).mem := by
  intro other left member
  have frame : bytes (thread + 4096) 12 ⊆ threadBytes thread :=
    bytes_part (by decide)
  have apart := (threads.current other left member).mono_left frame
  have same : Set.EqOn (callFrame thread next s).mem s.mem
      (threadBytes other) :=
    storeWords_eqOn (by simp) apart.symm
  exact ⟨same.mono context_block,
    same.mono (stack_block (threads.waits other left member).room)⟩

def sampleState : State where
  mem := fun _ => 0
  reg := fun _ => 0
  seg := fun _ => 0x10
  cs := 0x08
  eflags := ⟨2, by decide⟩

def sampleSched : Sched :=
  ⟨fun _ => 0, 1, 0, 0, ⟨0, 0, 0, 0, 0, 0, 0, 0⟩⟩

/-- The block of a thread with `fn` 0x100000 and `arg` 7 at 0x20000. -/
def sampleCreated : State := { sampleState with
  mem := ofNatMem (fillProc 0xC0101000 0x100000 0x110000 7 0x20000
    sampleSched).mem }

theorem sampleCreated_filled :
    ThreadBlock 0xC0101000 0x100000 0x110000 7 1 (natMem sampleCreated.mem)
      (0x20000 : Word).toNat := by
  have filled : ThreadBlock 0xC0101000 0x100000 0x110000 7
      (uint32 sampleSched.nowPid)
      (fillProc 0xC0101000 0x100000 0x110000 7 0x20000 sampleSched).mem
      0x20000 := by
    apply fillProc_block
    decide
  apply filled.congr
  intro x lower upper _
  apply natMem_ofNatMem
  simp only [stackSize] at upper
  omega

theorem sampleBlocks_apart :
    Disjoint (threadBytes 0x10000) (threadBytes 0x20000) := by
  apply Set.disjoint_left.mpr
  intro x first second
  simp only [threadBytes, bytes, stackSize, Set.mem_ofPred_eq] at *
  bv_omega

def sampleWaiting : Waiting :=
  Function.update (fun _ => none) 0x20000
    (some (.new 0x20000 0x100000 7 sampleCreated.mem))

theorem sampleCreated_run :
    SwitchRun 0xC0101000 0x110000 0x10000 sampleCreated sampleWaiting :=
  (SwitchRun.start 0x10000 sampleState).create
    ⟨sampleBlocks_apart, by simp⟩ (by simp [LeavesAlone]) sampleCreated_filled

/-- It calls `switch_to` for the second one. -/
def sampleFirst : State := callFrame 0x10000 0x20000 sampleCreated

theorem sampleFirst_run :
    SwitchRun 0xC0101000 0x110000 0x10000 sampleFirst sampleWaiting :=
  sampleCreated_run.compute (callFrame_alone sampleCreated_run.threads)

def sampleSecond : State :=
  callFrame 0x20000 0x10000 (runSwitchTo sampleFirst).2

theorem sampleSecond_run :
    ∃ waiting, SwitchRun 0xC0101000 0x110000 0x20000 sampleSecond waiting ∧
      waiting 0x10000 = some (.call sampleFirst) := by
  have run := sampleFirst_run.switch (Function.update_self ..)
    (callFrame_entry 0x10000 0x20000 sampleCreated)
  exact ⟨_, run.compute (callFrame_alone run.threads), Function.update_self ..⟩

theorem sampleListing_loaded :
    Loaded (codeOf switchToListing) 0 switchToListing :=
  codeOf_loaded switchToListing (by decide)

/-! ## What a thread finds -/

section Resume

variable {pgdKern kthreadExit : Nat} {current next : Word} {s : State}
  {waiting : Waiting} {left : Suspended} {code : Routine.Code} {address : Word}

/-- Whatever has happened since, a thread that is switched in finds the
registers, the flags and the stack with which it was switched out, and goes on
at the word on top of this stack. -/
theorem switchTo_resumes
    (run : SwitchRun pgdKern kthreadExit current s waiting)
    (waits : waiting next = some left) (entry : SwitchEntry s current next)
    (loaded : Loaded code address switchToListing) :
    ∃ s', Steps code (address, s)
        (X86.load left.mem left.words.esp, s') ∧
      Resumed next left s' ∧ s'.cs = s.cs ∧
      s'.eflags.bits &&& virtual8086 = s.eflags.bits &&& virtual8086 ∧
      SwitchRun pgdKern kthreadExit next s'
        (Function.update (Function.update waiting next none) current
          (some (.call s))) := by
  have threads := run.threads
  have call := threads.call waits entry
  have waits' := threads.waits next left waits
  have switched := call.switched
  have steps := ret_steps switchToMoves s loaded
  have after := run.switch waits entry
  have top : X86.load s.mem left.words.esp =
      X86.load left.mem left.words.esp :=
    load_eqOn (waits'.stack.mono (top_stack waits'.room))
  change Steps code (address, s) (runSwitchTo s) at steps
  rw [call.run_eq] at steps after
  rw [top] at steps
  refine ⟨_, steps, ⟨switched.esp, switched.ebp, switched.ebx, switched.esi,
    switched.edi, switched.eflags, ?_⟩, switched.cs,
    Eflags.assign_and _ (by decide), after⟩
  have apart := (threads.current next left waits).symm
  have stack := stack_block waits'.room
  apply Set.EqOn.trans (switched.others _ ?_ ?_ ?_) waits'.stack
  · exact apart.mono stack context_block
  · exact apart.mono stack ((bytes_front (by decide)).trans
      (room_block entry.room))
  · exact stack_scratch waits'.room

/-- The call from which a thread returns. -/
theorem switchTo_returns {s₀ : State}
    (run : SwitchRun pgdKern kthreadExit current s waiting)
    (waits : waiting next = some (.call s₀))
    (entry : SwitchEntry s current next)
    (loaded : Loaded code address switchToListing) :
    ∃ s', Steps code (address, s)
        (X86.load s₀.mem (s₀.reg .esp), s') ∧
      s'.reg .esp = s₀.reg .esp + 4 ∧
      (∀ r ∈ [Reg.ebp, .ebx, .esi, .edi], s'.reg r = s₀.reg r) ∧
      s'.eflags.bits &&& poppedFlags = s₀.eflags.bits &&& poppedFlags ∧
      Set.EqOn s'.mem s₀.mem (stackBytes next (s₀.reg .esp)) := by
  obtain ⟨s', steps, resumed, -⟩ := switchTo_resumes run waits entry loaded
  refine ⟨s', steps, resumed.esp, ?_, ?_, resumed.stack⟩
  · simp only [List.mem_cons, List.not_mem_nil, or_false]
    rintro r (rfl | rfl | rfl | rfl)
    · exact resumed.ebp
    · exact resumed.ebx
    · exact resumed.esi
    · exact resumed.edi
  · refine resumed.eflags.trans ?_
    change s₀.eflags.bits &&& ~~~hiddenFlags &&& poppedFlags = _
    rw [BitVec.and_assoc]
    congr 1

theorem switchTo_returns_sample :
    ∃ s waiting s', SwitchRun 0xC0101000 0x110000 0x20000 s waiting ∧
      waiting 0x10000 = some (.call sampleFirst) ∧
      Steps (codeOf switchToListing) (0, s)
        (X86.load sampleFirst.mem (sampleFirst.reg .esp), s') ∧
      s'.reg .esp = sampleFirst.reg .esp + 4 := by
  obtain ⟨waiting, run, waits⟩ := sampleSecond_run
  obtain ⟨s', steps, esp, -⟩ := switchTo_returns run waits
    (callFrame_entry 0x20000 0x10000 _) sampleListing_loaded
  exact ⟨sampleSecond, waiting, s', run, waits, steps, esp⟩

/-- A new thread starts with the call of its function. -/
theorem newThread_enters {block : Word} {fn arg : Nat} {mem : Memory}
    (run : SwitchRun pgdKern kthreadExit current s waiting)
    (waits : waiting next = some (.new block fn arg mem))
    (entry : SwitchEntry s current next)
    (loaded : Loaded code address switchToListing) :
    ∃ s', Steps code (address, s) (BitVec.ofNat 32 fn, s') ∧
      Holds s'.mem (s'.reg .esp)
        [BitVec.ofNat 32 kthreadExit, BitVec.ofNat 32 arg] ∧
      s'.reg .esp + 8 = next + 8192 ∧
      s'.eflags.bits &&& interruptFlag = interruptFlag := by
  obtain ⟨s', steps, resumed, -⟩ := switchTo_resumes run waits entry loaded
  obtain ⟨rfl, frame⟩ := run.new_frame next block fn arg mem waits
  have frame' : Holds s'.mem (next + 8180)
      [BitVec.ofNat 32 fn, BitVec.ofNat 32 kthreadExit,
        BitVec.ofNat 32 arg] := by
    refine frame.eqOn (by simp) (resumed.stack.mono (bytes_front ?_))
    have offset : (freshWords next).esp - next = 8180 := by
      simp only [freshWords]
      bv_omega
    simp [Suspended.words, offset, stackSize]
  have esp : s'.reg .esp = next + 8180 + 4 := resumed.esp
  refine ⟨s', ?_, ?_, ?_, ?_⟩
  · rw [← frame.1]
    exact steps
  · rw [esp]
    exact frame'.2
  · rw [esp]
    bv_omega
  · have inside : s'.eflags.bits &&& interruptFlag =
        s'.eflags.bits &&& poppedFlags &&& interruptFlag := by
      rw [BitVec.and_assoc]
      congr 1
    rw [inside, resumed.eflags]
    change (0x200 : Word) &&& poppedFlags &&& interruptFlag = interruptFlag
    decide

theorem newThread_enters_sample :
    ∃ s', Steps (codeOf switchToListing) (0, sampleFirst)
        (0x100000, s') ∧
      Holds s'.mem (s'.reg .esp) [0x110000, 7] := by
  obtain ⟨s', steps, frame, -⟩ := newThread_enters sampleFirst_run
    (Function.update_self ..) (callFrame_entry 0x10000 0x20000 sampleCreated)
    sampleListing_loaded
  exact ⟨s', steps, frame⟩

/-- In every run, `switchTo` of the scheduler's model is what the listing
does. -/
theorem switchTo_refines {k : Sched}
    (run : SwitchRun pgdKern kthreadExit current s waiting)
    (waits : waiting next = some left) (entry : SwitchEntry s current next)
    (models : Models s k) (currentRoom : current.toNat + 32 ≤ 4294967296)
    (nextRoom : next.toNat + 32 ≤ 4294967296)
    (loaded : Loaded code address switchToListing) :
    ∃ s', Steps code (address, s) (X86.load s.mem left.words.esp, s') ∧
      ModelsSwitched s left.words s'
        (switchTo (contextAddress current).toNat (contextAddress next).toNat
          k) := by
  have room : ∀ thread : Word, thread.toNat + 32 ≤ 4294967296 →
      (contextAddress thread).toNat + 24 ≤ 4294967296 := by
    intro thread bound
    have offset : (contextAddress thread).toNat = thread.toNat + 8 :=
      offset_toNat 8 (by omega)
    omega
  exact (run.threads.call waits entry).refines models
    (room current currentRoom) (room next nextRoom) loaded

theorem switchTo_refines_sample :
    ∃ s', ModelsSwitched sampleFirst (freshWords 0x20000) s'
      (switchTo 0x10008 0x20008 (modelOf sampleFirst)) := by
  obtain ⟨s', -, switched⟩ := switchTo_refines sampleFirst_run
    (Function.update_self ..) (callFrame_entry 0x10000 0x20000 sampleCreated)
    (modelOf_models sampleFirst) (by decide) (by decide) sampleListing_loaded
  exact ⟨s', switched⟩

end Resume

end MiniOS
