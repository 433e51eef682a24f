import MiniOS.Schedule.ContextSwitch
import MiniOS.Trap.Idtasm

/-!
# Preemption

The timer takes the processor from a thread in the middle of its code: the
stub of the vector saves the registers, `schedule` calls `switch_to` within
the handler, and other threads run.  When one of them switches back, the
handler returns and the stub resumes the interrupted code.  Of the C code
between the stub and `switch_to` only the calling convention is known.
-/

namespace MiniOS

open X86

/-- `switch_to`, called from the state, has returned to its caller. -/
structure SwitchReturned (thread : Word) (call s : State) : Prop where
  esp : s.reg .esp = call.reg .esp + 4
  ebp : s.reg .ebp = call.reg .ebp
  ebx : s.reg .ebx = call.reg .ebx
  esi : s.reg .esi = call.reg .esi
  edi : s.reg .edi = call.reg .edi
  stack : Set.EqOn s.mem call.mem (stackBytes thread (call.reg .esp))

/-- `isr_handler` is called in the state `called` and calls `switch_to` from
`call`; when that has returned to `s`, the handler returns as `leave s` says.
On the way there and back the stack above its argument, the code segment and
the flags NT and VM are left alone. -/
structure CallsSwitchTo (thread : Word) (called call : State)
    (leave : State → Word × State) : Prop where
  deeper : (call.reg .esp - thread).toNat + 12 ≤
    (called.reg .esp - thread).toNat
  frames : Set.EqOn call.mem called.mem
    (stackBytes thread (called.reg .esp + 8))
  nestedTask : call.eflags.bits &&& X86.nestedTask =
    called.eflags.bits &&& X86.nestedTask
  returns : ∀ s, SwitchReturned thread call s →
    (leave s).1 = X86.load called.mem (called.reg .esp) ∧
    (leave s).2.reg .esp = called.reg .esp + 4 ∧
    Set.EqOn (leave s).2.mem s.mem
      (stackBytes thread (called.reg .esp + 8)) ∧
    (leave s).2.cs = s.cs ∧
    (leave s).2.eflags.bits &&& X86.nestedTask =
      s.eflags.bits &&& X86.nestedTask ∧
    (leave s).2.eflags.bits &&& virtual8086 = s.eflags.bits &&& virtual8086

/-- A thread runs in the kernel. -/
structure InKernel (s : State) : Prop where
  cs : s.cs = 0x08
  virtual8086 : s.eflags.bits &&& X86.virtual8086 = 0

/-! ## Parts of a stack -/

section Stack

variable {thread esp top : Word} {size : Nat}

theorem stackBytes_subset
    (deeper : (esp - thread).toNat ≤ (top - thread).toNat) :
    stackBytes thread top ⊆ stackBytes thread esp := by
  intro x member
  simp only [stackBytes, bytes, Set.mem_ofPred_eq] at *
  bv_omega

theorem StackRoom.above_toNat (room : StackRoom thread esp size)
    {offset : Word} (inside : offset.toNat ≤ size) :
    (esp + offset - thread).toNat = (esp - thread).toNat + offset.toNat := by
  have above := room.above
  simp only [stackSize] at above
  bv_omega

end Stack

/-! ## The handler's frame -/

section Frame

variable {labels : Labels} {code : Code} {vector : UInt8}
  {errorCode eip behind ds thread : Word}
  {s called call returned : State} {saved : Reg → Word}
  {leave : State → Word × State}

theorem HandlerCalled.withSegments (seg : SegReg → BitVec 16)
    (here : HandlerCalled labels code vector errorCode eip s saved behind ds
      called) :
    HandlerCalled labels code vector errorCode eip s saved behind ds
      { called with seg := seg } where
  loaded := here.loaded
  registers := here.registers
  low := here.low
  pushed := here.pushed.congr rfl rfl
  handling := here.handling.congr rfl rfl

theorem CallsSwitchTo.kept (calls : CallsSwitchTo thread called call leave)
    (room : StackRoom thread (called.reg .esp) 64)
    (back : SwitchReturned thread call s) :
    Set.EqOn (leave s).2.mem called.mem
      (stackBytes thread (called.reg .esp + 8)) := by
  have below := calls.deeper
  have deeper : (call.reg .esp - thread).toNat ≤
      (called.reg .esp + 8 - thread).toNat := by
    rw [room.above_toNat (by decide)]
    omega
  have here := (calls.returns s back).2.2.1
  exact (here.trans (back.stack.mono (stackBytes_subset deeper))).trans
    calls.frames

theorem CallsSwitchTo.toStub (calls : CallsSwitchTo thread called call leave)
    (here : HandlerCalled labels code vector errorCode eip s saved behind ds
      called) (room : StackRoom thread (called.reg .esp) 64)
    (back : SwitchReturned thread call returned) (kernel : InKernel returned)
    (noTask : returned.eflags.bits &&& X86.nestedTask = 0) :
    Returned { called with seg := (leave returned).2.seg } (leave returned).1
      (leave returned).2 := by
  obtain ⟨address, esp, -, cs, task, mode⟩ := calls.returns returned back
  have frame : bytes (argument called) 56 ⊆
      stackBytes thread (called.reg .esp + 8) := by
    have above := room.above
    rw [here.argument_eq]
    apply bytes_front
    rw [room.above_toNat (by decide)]
    simp only [BitVec.reduceToNat, stackSize] at *
    omega
  constructor
  case back => exact address
  case esp => exact esp
  case frame => exact fun x inside => calls.kept room back (frame inside)
  case seg => rfl
  case cs => exact (cs.trans kernel.cs).trans here.handling.cs.symm
  case nestedTask =>
    exact (task.trans noTask).trans here.handling.nestedTask.symm
  case virtual8086 =>
    exact (mode.trans kernel.virtual8086).trans here.handling.virtual8086.symm

end Frame

/-! ## The whole way -/

section Preempted

variable {labels : Labels} {code : Code} {vector : UInt8}
  {errorCode eip thread : Word} {s : State}

theorem Resumed.switchReturned {call s' : State}
    (resumed : Resumed thread (.call call) s') :
    SwitchReturned thread call s' ∧
      s'.eflags.bits &&& nestedTask = call.eflags.bits &&& nestedTask := by
  refine ⟨⟨resumed.esp, resumed.ebp, resumed.ebx, resumed.esi, resumed.edi,
    resumed.stack⟩, ?_⟩
  have inside : ∀ flags : Word, flags &&& nestedTask =
      flags &&& poppedFlags &&& nestedTask := by
    intro flags
    rw [BitVec.and_assoc]
    congr 1
  rw [inside, resumed.eflags]
  change call.eflags.bits &&& ~~~hiddenFlags &&& poppedFlags &&& nestedTask = _
  rw [BitVec.and_assoc, BitVec.and_assoc]
  congr 1

/-- A thread that an interrupt takes the processor from goes on where it was,
whatever happens until another thread switches back to it: at the interrupted
instruction, with all registers, segments and flags and the stack that it
had. -/
theorem preempted_goes_on (assembled : Assembled labels code)
    (hasStub : vector ∈ isrVectors) (errorCode eip : Word)
    (inRing0 : ring s.cs = 0)
    (protectedMode : s.eflags.bits &&& virtual8086 = 0)
    (oneSegment : ∀ sr, s.seg sr = s.seg .ds)
    (room : StackRoom thread (s.reg .esp - 64) 64) :
    ∃ gate called,
      (initIdt labels.isr vector).gate = some gate ∧
      Steps code (interrupt gate (pushedErrorCode vector errorCode) (eip, s))
        (labels.isrHandler, called) ∧
      InKernel called ∧ called.reg .esp = s.reg .esp - 64 ∧
      (∀ x, 64 ≤ (x - (s.reg .esp - 64)).toNat → called.mem x = s.mem x) ∧
      ∀ call leave, CallsSwitchTo thread called call leave →
        ∀ {pgdKern kthreadExit : Nat} {current address : Word} {now : State}
          {waiting : Waiting} {listing : Routine.Code},
          SwitchRun pgdKern kthreadExit current now waiting →
          waiting thread = some (.call call) →
          SwitchEntry now current thread → InKernel now →
          Loaded listing address switchToListing →
          ∃ s' resumed,
            Steps listing (address, now)
              (X86.load call.mem (call.reg .esp), s') ∧
            Steps code (leave s') (eip, resumed) ∧
            resumed.reg = s.reg ∧ resumed.seg = s.seg ∧ resumed.cs = s.cs ∧
            resumed.eflags = s.eflags ∧
            Set.EqOn resumed.mem s.mem (stackBytes thread (s.reg .esp)) := by
  obtain ⟨stub, member, rfl⟩ : ∃ stub ∈ idtasmStubs, stub.vector = vector := by
    rwa [isrVectors_eq, List.mem_map] at hasStub
  obtain ⟨saved, behind, ds, called, steps, here⟩ :=
    assembled.handlerCalled member errorCode eip s
  have esp : called.reg .esp = s.reg .esp - 64 := here.pushed.esp
  have others := here.pushed.others
  refine ⟨⟨labels.isr stub.vector, 0x08⟩, called, ?_, steps,
    ⟨here.handling.cs, here.handling.virtual8086⟩, esp, esp ▸ others, ?_⟩
  · rw [initIdt_gate, if_pos hasStub]
  intro call leave calls _ _ current address now waiting listing run waits
    entry kernel loaded
  rw [← esp] at room
  obtain ⟨s', switched, resumed, cs, mode, -⟩ :=
    switchTo_resumes run waits entry loaded
  obtain ⟨back, task⟩ := resumed.switchReturned
  have inKernel : InKernel s' :=
    ⟨cs.trans kernel.cs, mode.trans kernel.virtual8086⟩
  have noTask : s'.eflags.bits &&& nestedTask = 0 :=
    (task.trans calls.nestedTask).trans here.handling.nestedTask
  have returned := calls.toStub here room back inKernel noTask
  obtain ⟨last, resumes, reg, seg, cs, eflags, mem⟩ :=
    (here.withSegments _).resumes inRing0 protectedMode oneSegment returned
  refine ⟨s', last, switched, resumes, reg, seg, cs, eflags, ?_⟩
  rw [mem]
  have top : s.reg .esp = called.reg .esp + 64 := by
    rw [esp]
    bv_omega
  have deeper : (called.reg .esp + 8 - thread).toNat ≤
      (s.reg .esp - thread).toNat := by
    rw [top, room.above_toNat (by decide), room.above_toNat (by decide)]
    exact Nat.add_le_add_left (by decide) _
  refine ((calls.kept room back).mono (stackBytes_subset deeper)).trans ?_
  intro x inside
  apply others
  have above := room.above
  simp only [stackBytes, bytes, Set.mem_ofPred_eq, List.length_cons,
    frameWords_length, esp, stackSize] at *
  bv_omega

end Preempted

/-! ### A thread preempted by another one -/

/-- The first thread with 76 bytes above the position of a call. -/
def preemptedState : State :=
  { sampleCreated with reg := fun _ => 0x1104C }

/-- A handler that only calls `switch_to` drops the arguments and returns. -/
def dropAndReturn (s : State) : Word × State :=
  (s.setReg .esp (s.reg .esp + 8)).pop

theorem interrupt_alone {thread : Word} {s called : State} {waiting : Waiting}
    (threads : ThreadsApart thread s waiting)
    (room : StackRoom thread (s.reg .esp - 64) 64)
    (others : ∀ x, 64 ≤ (x - (s.reg .esp - 64)).toNat →
      called.mem x = s.mem x) : LeavesAlone waiting s.mem called.mem := by
  intro other left member
  have frame : bytes (s.reg .esp - 64) 64 ⊆ threadBytes thread :=
    Set.Subset.trans (bytes_front (by
      have above := room.above
      omega)) (stack_block room)
  have same : Set.EqOn called.mem s.mem (threadBytes other) := by
    intro x inside
    apply others
    by_contra within
    exact Set.disjoint_left.mp (threads.current other left member)
      (frame (Nat.lt_of_not_le within)) inside
  exact ⟨same.mono context_block,
    same.mono (stack_block (threads.waits other left member).room)⟩

theorem callFrame_above {start : Word} {size : Nat} {called : State}
    (low : start = 0x1100C ∨ start = 0x11014) (inside : size ≤ 4096) :
    Set.EqOn (callFrame 0x10000 0x20000 called).mem called.mem
      (bytes start size) := by
  apply storeWords_eqOn (by simp)
  apply Set.disjoint_left.mpr
  intro x above written
  simp only [bytes, Set.mem_ofPred_eq, List.length_cons, List.length_nil] at *
  rcases low with rfl | rfl <;> bv_omega

theorem dropAndReturn_calls {called : State}
    (esp : called.reg .esp = 0x1100C) :
    CallsSwitchTo 0x10000 called (callFrame 0x10000 0x20000 called)
      dropAndReturn := by
  have callEsp : (callFrame 0x10000 0x20000 called).reg .esp = 0x11000 := by
    simp [callFrame]
  constructor
  case deeper =>
    rw [esp, callEsp]
    decide
  case frames =>
    rw [esp]
    exact callFrame_above (.inr rfl) (by decide)
  case nestedTask => rfl
  case returns =>
    intro s back
    have at_ : s.reg .esp + 8 = 0x1100C := by
      rw [back.esp, callEsp]
      decide
    refine ⟨?_, ?_, Set.eqOn_refl _ _, rfl, rfl, rfl⟩
    · rw [dropAndReturn, at_]
      simp only [State.pop, State.setReg, Function.update_self, esp]
      apply load_eqOn
      apply Set.EqOn.trans (back.stack.mono _)
      · exact callFrame_above (.inl rfl) (by decide)
      · rw [callEsp]
        change bytes (0x11000 + 12) 4 ⊆ _
        exact bytes_part (by decide)
    · rw [dropAndReturn, at_]
      simp only [State.pop, State.setReg, Function.update_self, esp]

/-- The second thread is switched in and switches back. -/
theorem preempted_goes_on_sample :
    ∃ call other s' resumed : State,
      Steps (codeOf switchToListing)
        (0, callFrame 0x20000 0x10000 other)
        (X86.load call.mem (call.reg .esp), s') ∧
      Steps exampleCode (dropAndReturn s') (0x100500, resumed) ∧
      resumed.reg = preemptedState.reg := by
  have room : StackRoom 0x10000 (preemptedState.reg .esp - 64) 64 := by
    constructor <;> decide
  obtain ⟨gate, called, -, -, kernel, esp, others, goesOn⟩ :=
    preempted_goes_on exampleCode_assembled (show 32 ∈ isrVectors by decide)
      0 0x100500 (s := preemptedState) (by decide) (by decide)
      (fun _ => rfl) room
  have esp' : called.reg .esp = 0x1100C := esp.trans (by decide)
  have preempted :
      SwitchRun 0xC0101000 0x110000 0x10000 preemptedState sampleWaiting :=
    sampleCreated_run.compute fun _ _ _ =>
      ⟨Set.eqOn_refl _ _, Set.eqOn_refl _ _⟩
  have handling := preempted.compute
    (interrupt_alone preempted.threads room others)
  have calling : SwitchRun _ _ _ (callFrame 0x10000 0x20000 called) _ :=
    handling.compute (callFrame_alone handling.threads)
  obtain ⟨other, -, -, cs, mode, run⟩ := switchTo_resumes calling
    (Function.update_self ..) (callFrame_entry 0x10000 0x20000 called)
    sampleListing_loaded
  have back : SwitchRun _ _ _ (callFrame 0x20000 0x10000 other) _ :=
    run.compute (callFrame_alone run.threads)
  have inKernel : InKernel (callFrame 0x20000 0x10000 other) :=
    ⟨cs.trans kernel.cs, mode.trans kernel.virtual8086⟩
  obtain ⟨s', resumed, switched, steps, reg, -⟩ :=
    goesOn _ _ (dropAndReturn_calls esp') back (Function.update_self ..)
      (callFrame_entry 0x20000 0x10000 other) inKernel sampleListing_loaded
  exact ⟨_, other, s', resumed, switched, steps, reg⟩

end MiniOS
