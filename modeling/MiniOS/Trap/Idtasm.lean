import MiniOS.Trap.Idt

/-!
# Entry and exit of an interrupt (`idtasm.S`)

The stub of a vector pushes what makes all frames alike, `isr_common_stub`
saves the registers and calls `isr_handler` with the address of the frame, and
afterwards pops everything in reverse.
-/

namespace MiniOS

open X86 Op Instr

/-! ## The listing -/

/-- The addresses of the labels. -/
structure Labels where
  isr : UInt8 → Word
  isrCommonStub : Word
  isrHandler : Word

def operand (n : UInt8) : Word := BitVec.ofNat 32 n.toNat

def isrNoErrCode (labels : Labels) (n : UInt8) : List Instr :=
  [cli, pushImm 0, pushImm (operand n), jmp labels.isrCommonStub]

def isrErrCode (labels : Labels) (n : UInt8) : List Instr :=
  [cli, pushImm (operand n), jmp labels.isrCommonStub]

/-- A use of one of the two macros. -/
inductive Stub where
  | noErrCode (n : UInt8)
  | errCode (n : UInt8)
  deriving DecidableEq, Repr

def Stub.vector : Stub → UInt8
  | .noErrCode n => n
  | .errCode n => n

def Stub.listing (labels : Labels) : Stub → List Instr
  | .noErrCode n => isrNoErrCode labels n
  | .errCode n => isrErrCode labels n

def idtasmStubs : List Stub := [
  .noErrCode 0, .noErrCode 1, .noErrCode 2, .noErrCode 3, .noErrCode 4,
  .noErrCode 5, .noErrCode 6, .noErrCode 7, .errCode 8, .noErrCode 9,
  .errCode 10, .errCode 11, .errCode 12, .errCode 13, .errCode 14,
  .noErrCode 15, .noErrCode 16, .errCode 17, .noErrCode 18, .noErrCode 19,
  .noErrCode 20, .noErrCode 21, .noErrCode 22, .noErrCode 23, .noErrCode 24,
  .noErrCode 25, .noErrCode 26, .noErrCode 27, .noErrCode 28, .noErrCode 29,
  .noErrCode 30, .noErrCode 31,
  .noErrCode 32, .noErrCode 33, .noErrCode 34, .noErrCode 35, .noErrCode 36,
  .noErrCode 37, .noErrCode 38, .noErrCode 39, .noErrCode 40, .noErrCode 41,
  .noErrCode 42, .noErrCode 43, .noErrCode 44, .noErrCode 45, .noErrCode 46,
  .noErrCode 47,
  .noErrCode 80]

def isrCommonStub (labels : Labels) : List Instr := [
  Op.pusha,
  movFromSeg .eax .ds,
  Op.push .eax,
  movImm16 .eax 0x10,
  movToSeg .ds .eax,
  movToSeg .es .eax,
  movToSeg .fs .eax,
  movToSeg .gs .eax,
  movToSeg .ss .eax,
  Op.push .esp,
  call labels.isrHandler,
  addImm .esp 4,
  Op.pop .ebx,
  movToSeg .ds .ebx,
  movToSeg .es .ebx,
  movToSeg .fs .ebx,
  movToSeg .gs .ebx,
  movToSeg .ss .ebx,
  Op.popa,
  addImm .esp 8,
  iret]

/-- The listing lies in memory. -/
structure Assembled (labels : Labels) (code : Code) : Prop where
  stubs : ∀ stub ∈ idtasmStubs,
    Loaded code (labels.isr stub.vector) (stub.listing labels)
  common : Loaded code labels.isrCommonStub (isrCommonStub labels)

/-! ## What the handler gets and gives back -/

/-- `pt_regs_t` -/
structure PtRegs where
  ds : Word
  edi : Word
  esi : Word
  ebp : Word
  esp : Word
  ebx : Word
  edx : Word
  ecx : Word
  eax : Word
  intNo : Word
  errCode : Word
  eip : Word
  cs : Word
  eflags : Word
  useresp : Word
  ss : Word
  deriving DecidableEq, Repr

def ptRegsAt (mem : Memory) (regs : Word) : PtRegs where
  ds := load mem regs
  edi := load mem (regs + 4)
  esi := load mem (regs + 8)
  ebp := load mem (regs + 12)
  esp := load mem (regs + 16)
  ebx := load mem (regs + 20)
  edx := load mem (regs + 24)
  ecx := load mem (regs + 28)
  eax := load mem (regs + 32)
  intNo := load mem (regs + 36)
  errCode := load mem (regs + 40)
  eip := load mem (regs + 44)
  cs := load mem (regs + 48)
  eflags := load mem (regs + 52)
  useresp := load mem (regs + 56)
  ss := load mem (regs + 60)

/-- The vectors for which the processor pushes an error code. -/
def pushesErrorCode (vector : UInt8) : Bool :=
  vector == 8 || (10 ≤ vector && vector ≤ 14) || vector == 17

def pushedErrorCode (vector : UInt8) (errorCode : Word) : Option Word :=
  if pushesErrorCode vector then some errorCode else none

def argument (s : State) : Word := load s.mem (s.reg .esp + 4)

/-- The structure describes the interrupted code. -/
structure InterruptFrame (vector : UInt8) (errorCode : Word) (eip : Word)
    (s : State) (regs : PtRegs) : Prop where
  intNo : regs.intNo = operand vector
  errCode : regs.errCode = (pushedErrorCode vector errorCode).getD 0
  edi : regs.edi = s.reg .edi
  esi : regs.esi = s.reg .esi
  ebp : regs.ebp = s.reg .ebp
  ebx : regs.ebx = s.reg .ebx
  edx : regs.edx = s.reg .edx
  ecx : regs.ecx = s.reg .ecx
  eax : regs.eax = s.reg .eax
  eip : regs.eip = eip
  cs : regs.cs = s.cs.setWidth 32
  eflags : regs.eflags = s.eflags.bits
  ds : regs.ds.setWidth 16 = s.seg .ds

/-- A function has returned to its caller: its frame is popped, the 14 words
that the processor and the stub have pushed are as they were, and no
instruction of C has touched the segment registers, NT and VM.  Anything else
may have changed. -/
structure Returned (called : State) (back : Word) (returned : State) :
    Prop where
  back : back = load called.mem (called.reg .esp)
  esp : returned.reg .esp = called.reg .esp + 4
  frame : ∀ x, (x - argument called).toNat < 56 →
    returned.mem x = called.mem x
  seg : returned.seg = called.seg
  cs : returned.cs = called.cs
  nestedTask : returned.eflags.bits &&& X86.nestedTask =
    called.eflags.bits &&& X86.nestedTask
  virtual8086 : returned.eflags.bits &&& X86.virtual8086 =
    called.eflags.bits &&& X86.virtual8086

/-- `ret` at once is such a return. -/
theorem Returned.pop (called : State) :
    Returned called called.pop.1 called.pop.2 where
  back := rfl
  esp := by
    simp only [State.pop, State.setReg, Function.update_self]
  frame _ _ := rfl
  seg := rfl
  cs := rfl
  nestedTask := rfl
  virtual8086 := rfl

/-! ## Entry -/

section Entry

variable {code : Code} {labels : Labels} {s s' : State} {words : List Word}

/-- What `iret` will ask for. -/
structure Handling (s : State) : Prop where
  cs : s.cs = 0x08
  nestedTask : s.eflags.bits &&& X86.nestedTask = 0
  virtual8086 : s.eflags.bits &&& X86.virtual8086 = 0

/-- On the way to the handler: words on the stack of the interrupted code,
all else as it was but for `cs` and the flags. -/
structure Entered (s : State) (words : List Word) (s' : State) : Prop extends
    Pushed s words s', Handling s' where
  reg : ∀ r, r ≠ .esp → s'.reg r = s.reg r
  seg : s'.seg = s.seg

theorem Entered.interrupt (offset : Word) (errorCode : Option Word)
    (eip : Word) (s : State) :
    Entered s (errorCode.toList ++ [eip, s.cs.setWidth 32, s.eflags.bits])
      (interrupt ⟨offset, 0x08⟩ errorCode (eip, s)).2 where
  toPushed := interrupt_pushed ..
  reg := by
    intro r different
    simp only [X86.interrupt]
    rw [State.pushAll_eq]
    exact Function.update_of_ne different ..
  seg := by
    simp only [X86.interrupt]
    rw [State.pushAll_eq]
  cs := rfl
  nestedTask := Eflags.assign_zero_and _ (by decide)
  virtual8086 := Eflags.assign_zero_and _ (by decide)

theorem Entered.cli (entered : Entered s words s') :
    Entered s words (Op.cli.exec s') where
  toPushed := entered.toPushed.congr rfl rfl
  reg := entered.reg
  seg := entered.seg
  cs := entered.cs
  nestedTask := by
    rw [← entered.nestedTask]
    exact Eflags.assign_and _ (by decide)
  virtual8086 := by
    rw [← entered.virtual8086]
    exact Eflags.assign_and _ (by decide)

theorem Entered.push (entered : Entered s words s')
    (room : 4 * (words.length + 1) ≤ 4294967296) (value : Word) :
    Entered s (value :: words) (s'.push value) where
  toPushed := entered.toPushed.push room value
  reg := by
    intro r different
    rw [State.push_reg different, entered.reg r different]
  seg := entered.seg
  cs := entered.cs
  nestedTask := entered.nestedTask
  virtual8086 := entered.virtual8086

/-- The registers in the order of their fields in `pt_regs_t`. -/
def savedRegs : List Reg := [.edi, .esi, .ebp, .esp, .ebx, .edx, .ecx, .eax]

/-- The words of `pt_regs_t` up to `eflags`. -/
def frameWords (saved : Reg → Word) (ds vector errCode eip : Word)
    (cs : BitVec 16) (flags : Eflags) : List Word :=
  ds :: (savedRegs.map saved ++
    [vector, errCode, eip, cs.setWidth 32, flags.bits])

theorem frameWords_length (saved : Reg → Word) (ds vector errCode eip : Word)
    (cs : BitVec 16) (flags : Eflags) :
    (frameWords saved ds vector errCode eip cs flags).length = 14 :=
  rfl

/-- The macros agree with the processor on who pushes the error code. -/
theorem idtasmStubs_agree :
    ∀ stub ∈ idtasmStubs, stub = if pushesErrorCode stub.vector then
      .errCode stub.vector else .noErrCode stub.vector := by
  decide

/-- Whatever the stub, the vector and an error code lie on top of the words
of the processor. -/
theorem Assembled.stub (assembled : Assembled labels code) {stub : Stub}
    (member : stub ∈ idtasmStubs) {errorCode : Word}
    (entered : Entered s
      ((pushedErrorCode stub.vector errorCode).toList ++ words) s')
    (few : words.length = 3) :
    ∃ s'', Steps code (labels.isr stub.vector, s')
        (labels.isrCommonStub, s'') ∧
      Entered s (operand stub.vector ::
        (pushedErrorCode stub.vector errorCode).getD 0 :: words) s'' := by
  have loaded := assembled.stubs stub member
  have agree := idtasmStubs_agree stub member
  cases stub with
  | noErrCode n =>
      have none : pushedErrorCode n errorCode = none := by
        by_cases pushes : pushesErrorCode n <;>
          simp [Stub.vector, pushes, pushedErrorCode] at agree ⊢
      simp only [Stub.vector, none] at *
      obtain ⟨behind, loaded, steps⟩ :=
        loaded.ops [Op.cli, pushImm 0, pushImm (operand n)] s'
      exact ⟨_, steps.trans loaded.jmp,
        (entered.cli.push (by simp [few]) 0).push (by simp [few]) _⟩
  | errCode n =>
      have some : pushedErrorCode n errorCode = some errorCode := by
        by_cases pushes : pushesErrorCode n <;>
          simp [Stub.vector, pushes, pushedErrorCode] at agree ⊢
      simp only [Stub.vector, some] at *
      obtain ⟨behind, loaded, steps⟩ :=
        loaded.ops [Op.cli, pushImm (operand n)] s'
      exact ⟨_, steps.trans loaded.jmp, entered.cli.push (by simp [few]) _⟩

theorem Handling.congr (handling : Handling s) (cs : s'.cs = s.cs)
    (eflags : s'.eflags = s.eflags) : Handling s' := by
  obtain ⟨cs', nestedTask, virtual8086⟩ := handling
  rw [← cs, ← eflags] at *
  exact ⟨cs', nestedTask, virtual8086⟩

theorem pusha_others (s : State) :
    s.pusha.seg = s.seg ∧ s.pusha.cs = s.cs ∧ s.pusha.eflags = s.eflags := by
  rw [State.pusha, State.pushAll_eq]
  exact ⟨rfl, rfl, rfl⟩

theorem stubSaves {address : Word} {rest : List Instr}
    (loaded : Loaded code address
      (Op.pusha :: movFromSeg .eax .ds :: Op.push .eax :: rest))
    (entered : Entered s words s') (few : words.length = 5) :
    ∃ behind s₁ ds, Loaded code behind rest ∧
      Steps code (address, s') (behind, s₁) ∧ ds.setWidth 16 = s.seg .ds ∧
      Pushed s (ds :: (savedRegs.map s'.reg ++ words)) s₁ ∧ Handling s₁ := by
  obtain ⟨behind, loaded, steps⟩ :=
    loaded.ops [Op.pusha, movFromSeg .eax .ds, Op.push .eax] s'
  obtain ⟨seg, cs, eflags⟩ := pusha_others s'
  have saved : Pushed s (savedRegs.map s'.reg ++ words) s'.pusha :=
    entered.toPushed.pushAll (savedRegs.reverse.map s'.reg)
      (by simp [few, savedRegs])
  have withDs : Pushed s (savedRegs.map s'.reg ++ words)
      (s'.pusha.setLow .eax (s'.pusha.seg .ds)) :=
    saved.congr rfl (State.setLow_reg _ (by decide))
  refine ⟨behind, _, _, loaded, steps, ?_,
    withDs.push (by simp [few, savedRegs]) _,
    entered.toHandling.congr cs eflags⟩
  rw [← entered.seg, ← seg]
  exact State.setLow_low ..

/-- All data segments are those of the kernel; the stack is as before. -/
theorem stubSwitches {address : Word} {rest : List Instr}
    (loaded : Loaded code address
      (movImm16 .eax 0x10 :: movToSeg .ds .eax :: movToSeg .es .eax ::
        movToSeg .fs .eax :: movToSeg .gs .eax :: movToSeg .ss .eax :: rest))
    (pushed : Pushed s words s') (handling : Handling s') :
    ∃ behind s₁, Loaded code behind rest ∧
      Steps code (address, s') (behind, s₁) ∧ Pushed s words s₁ ∧
      Handling s₁ := by
  obtain ⟨behind, loaded, steps⟩ := loaded.ops
    [movImm16 .eax 0x10, movToSeg .ds .eax, movToSeg .es .eax,
      movToSeg .fs .eax, movToSeg .gs .eax, movToSeg .ss .eax] s'
  have esp : (s'.setLow .eax 0x10).reg .esp = s'.reg .esp :=
    State.setLow_reg _ (by decide)
  exact ⟨behind, _, loaded, steps, pushed.congr rfl esp,
    handling.congr rfl rfl⟩

/-- `isr_common_stub` calls the handler with the address of the frame as its
argument. -/
theorem Assembled.calls (assembled : Assembled labels code)
    (entered : Entered s words s') (few : words.length = 5) :
    ∃ behind called ds,
      Loaded code behind ((isrCommonStub labels).drop 11) ∧
      Steps code (labels.isrCommonStub, s') (labels.isrHandler, called) ∧
      ds.setWidth 16 = s.seg .ds ∧
      Pushed s (behind :: (called.reg .esp + 8) :: ds ::
        (savedRegs.map s'.reg ++ words)) called ∧ Handling called := by
  obtain ⟨_, s₁, ds, loaded, save, low, pushed, handling⟩ :=
    stubSaves assembled.common entered few
  obtain ⟨_, s₂, loaded, switch, pushed, handling⟩ :=
    stubSwitches loaded pushed handling
  obtain ⟨_, loaded, push⟩ := loaded.ops [Op.push .esp] s₂
  obtain ⟨behind, loaded, call⟩ := loaded.call (s₂.push (s₂.reg .esp))
  refine ⟨behind, (s₂.push (s₂.reg .esp)).push behind, ds, loaded,
    ((save.trans switch).trans push).trans call, low, ?_,
    handling.congr rfl rfl⟩
  have esp : ((s₂.push (s₂.reg .esp)).push behind).reg .esp + 8 =
      s₂.reg .esp := by
    simp only [State.push, Function.update_self]
    bv_omega
  rw [esp]
  exact (pushed.push (by simp [few, savedRegs]) _).push
    (by simp [few, savedRegs]) _

end Entry

/-! ## Exit -/

section Exit

variable {code : Code} {labels : Labels} {s : State} {saved : Reg → Word}
  {ds vector errCode eip : Word} {cs : BitVec 16} {flags : Eflags}

theorem Handling.addImm (handling : Handling s) (r : Reg) (value : Word) :
    Handling ((addImm r value).exec s) where
  cs := handling.cs
  nestedTask := by
    rw [← handling.nestedTask]
    exact Eflags.assign_and _ (by decide)
  virtual8086 := by
    rw [← handling.virtual8086]
    exact Eflags.assign_and _ (by decide)

theorem stubPopsDs {address : Word} {rest : List Instr}
    (loaded : Loaded code address
      (addImm .esp 4 :: Op.pop .ebx :: movToSeg .ds .ebx ::
        movToSeg .es .ebx :: movToSeg .fs .ebx :: movToSeg .gs .ebx ::
        movToSeg .ss .ebx :: rest))
    (word : load s.mem (s.reg .esp + 4) = ds) (handling : Handling s) :
    ∃ behind s', Loaded code behind rest ∧
      Steps code (address, s) (behind, s') ∧ s'.mem = s.mem ∧
      s'.reg .esp = s.reg .esp + 8 ∧ s'.seg = (fun _ => ds.setWidth 16) ∧
      Handling s' := by
  obtain ⟨behind, loaded, steps⟩ := loaded.ops
    [addImm .esp 4, Op.pop .ebx, movToSeg .ds .ebx, movToSeg .es .ebx,
      movToSeg .fs .ebx, movToSeg .gs .ebx, movToSeg .ss .ebx] s
  refine ⟨behind, _, loaded, steps, rfl, ?_, ?_,
    (handling.addImm .esp 4).congr rfl rfl⟩
  · simp only [runLine, Op.exec, State.popReg, State.pop, State.setReg,
      Function.update_self, Function.update_idem]
    rw [Function.update_of_ne (by decide), Function.update_self]
    bv_omega
  · funext sr
    rw [← word]
    cases sr <;> rfl

theorem stubPopsRegs {address : Word} {rest : List Instr}
    (loaded : Loaded code address (Op.popa :: addImm .esp 8 :: rest))
    (holds : Holds s.mem (s.reg .esp) (savedRegs.map saved))
    (handling : Handling s) :
    ∃ behind s', Loaded code behind rest ∧
      Steps code (address, s) (behind, s') ∧ s'.mem = s.mem ∧
      s'.reg = Function.update saved .esp (s.reg .esp + 40) ∧
      s'.seg = s.seg ∧ Handling s' := by
  obtain ⟨behind, loaded, steps⟩ := loaded.ops [Op.popa, addImm .esp 8] s
  rw [runLine, Op.exec, State.popa_eq holds] at steps
  refine ⟨behind, _, loaded, steps, rfl, ?_, rfl, ?_⟩
  · have top : s.reg .esp + 32 + 8 = s.reg .esp + 40 := by bv_omega
    simp only [runLine, Op.exec, State.setReg, Function.update_self,
      Function.update_idem, top]
  · have restored : Handling { s with
        reg := Function.update saved .esp (s.reg .esp + 32) } :=
      handling.congr rfl rfl
    exact restored.addImm .esp 8

/-- From behind the call the stub resumes the code that the frame
describes. -/
theorem stubResumes {behind : Word}
    (loaded : Loaded code behind ((isrCommonStub labels).drop 11))
    (holds : Holds s.mem (s.reg .esp + 4)
      (frameWords saved ds vector errCode eip cs flags))
    (handling : Handling s) (toRing0 : ring cs = 0)
    (protectedMode : flags.bits &&& virtual8086 = 0) :
    ∃ resumed, Steps code (behind, s) (eip, resumed) ∧
      resumed.reg = Function.update saved .esp (s.reg .esp + 60) ∧
      resumed.seg = (fun _ => ds.setWidth 16) ∧ resumed.cs = cs ∧
      resumed.eflags = flags ∧ resumed.mem = s.mem := by
  obtain ⟨dsWord, others⟩ := holds
  obtain ⟨registers, -, -, processor⟩ := Holds.append.mp others
  obtain ⟨_, s₁, loaded, popDs, mem₁, esp₁, seg₁, handling⟩ :=
    stubPopsDs loaded dsWord handling
  have at_regs : s.reg .esp + 4 + 4 = s₁.reg .esp := by
    rw [esp₁]
    bv_omega
  rw [at_regs, ← mem₁] at registers processor
  obtain ⟨_, s₂, loaded, popRegs, mem₂, reg₂, seg₂, handling⟩ :=
    stubPopsRegs loaded registers handling
  have at_eip : s₁.reg .esp + BitVec.ofNat 32 (4 * 8) + 4 + 4 =
      s₂.reg .esp := by
    rw [reg₂, Function.update_self]
    bv_omega
  rw [List.length_map, show savedRegs.length = 8 from rfl, at_eip, ← mem₂]
    at processor
  have returns := State.iret_eq processor (by rw [handling.cs]; rfl) toRing0
    handling.nestedTask handling.virtual8086 protectedMode
  refine ⟨_, (popDs.trans popRegs).trans (loaded.iret returns), ?_,
    seg₂.trans seg₁, rfl, rfl, mem₂.trans mem₁⟩
  have top : s.reg .esp + 8 + 40 + 12 = s.reg .esp + 60 := by bv_omega
  simp only [reg₂, Function.update_self, Function.update_idem, esp₁, top]

end Exit

/-! ## Both -/

section Both

variable {labels : Labels} {code : Code} {vector : UInt8}
  {errorCode eip behind ds : Word} {s called returned : State}
  {saved : Reg → Word}

theorem interruptFrame_of_holds {mem : Memory} {regs : Word}
    (same : ∀ r, r ≠ .esp → saved r = s.reg r)
    (low : ds.setWidth 16 = s.seg .ds)
    (holds : Holds mem regs (frameWords saved ds (operand vector)
      ((pushedErrorCode vector errorCode).getD 0) eip s.cs s.eflags)) :
    InterruptFrame vector errorCode eip s (ptRegsAt mem regs) where
  ds := by
    rw [← low]
    exact congrArg _ holds.1
  edi := (holds.get 1 rfl).trans (same .edi (by decide))
  esi := (holds.get 2 rfl).trans (same .esi (by decide))
  ebp := (holds.get 3 rfl).trans (same .ebp (by decide))
  ebx := (holds.get 5 rfl).trans (same .ebx (by decide))
  edx := (holds.get 6 rfl).trans (same .edx (by decide))
  ecx := (holds.get 7 rfl).trans (same .ecx (by decide))
  eax := (holds.get 8 rfl).trans (same .eax (by decide))
  intNo := holds.get 9 rfl
  errCode := holds.get 10 rfl
  eip := holds.get 11 rfl
  cs := holds.get 12 rfl
  eflags := holds.get 13 rfl

/-- The handler has just been called: its return address, its argument and the
frame lie on the stack of the interrupted code. -/
structure HandlerCalled (labels : Labels) (code : Code) (vector : UInt8)
    (errorCode eip : Word) (s : State) (saved : Reg → Word)
    (behind ds : Word) (called : State) : Prop where
  loaded : Loaded code behind ((isrCommonStub labels).drop 11)
  registers : ∀ r, r ≠ .esp → saved r = s.reg r
  low : ds.setWidth 16 = s.seg .ds
  pushed : Pushed s (behind :: (called.reg .esp + 8) ::
    frameWords saved ds (operand vector)
      ((pushedErrorCode vector errorCode).getD 0) eip s.cs s.eflags) called
  handling : Handling called

theorem Assembled.handlerCalled (assembled : Assembled labels code)
    {stub : Stub} (member : stub ∈ idtasmStubs) (errorCode eip : Word)
    (s : State) :
    ∃ saved behind ds called,
      Steps code (interrupt ⟨labels.isr stub.vector, 0x08⟩
        (pushedErrorCode stub.vector errorCode) (eip, s))
        (labels.isrHandler, called) ∧
      HandlerCalled labels code stub.vector errorCode eip s saved behind ds
        called := by
  have entered := Entered.interrupt (labels.isr stub.vector)
    (pushedErrorCode stub.vector errorCode) eip s
  obtain ⟨s₁, toCommon, entered⟩ := assembled.stub member entered rfl
  obtain ⟨behind, called, ds, loaded, toHandler, low, pushed, handling⟩ :=
    assembled.calls entered rfl
  exact ⟨s₁.reg, behind, ds, called, toCommon.trans toHandler,
    ⟨loaded, entered.reg, low, pushed, handling⟩⟩

theorem HandlerCalled.argument_eq
    (here : HandlerCalled labels code vector errorCode eip s saved behind ds
      called) : argument called = called.reg .esp + 8 :=
  here.pushed.holds.2.1

theorem HandlerCalled.frame
    (here : HandlerCalled labels code vector errorCode eip s saved behind ds
      called) :
    Holds called.mem (argument called) (frameWords saved ds (operand vector)
      ((pushedErrorCode vector errorCode).getD 0) eip s.cs s.eflags) := by
  have at_frame : called.reg .esp + 4 + 4 = called.reg .esp + 8 := by bv_omega
  rw [here.argument_eq, ← at_frame]
  exact here.pushed.holds.2.2

theorem Returned.handling (returns : Returned called behind returned)
    (handling : Handling called) : Handling returned where
  cs := returns.cs.trans handling.cs
  nestedTask := returns.nestedTask.trans handling.nestedTask
  virtual8086 := returns.virtual8086.trans handling.virtual8086

theorem HandlerCalled.resumes {back : Word}
    (here : HandlerCalled labels code vector errorCode eip s saved behind ds
      called) (inRing0 : ring s.cs = 0)
    (protectedMode : s.eflags.bits &&& virtual8086 = 0)
    (oneSegment : ∀ sr, s.seg sr = s.seg .ds)
    (returns : Returned called back returned) :
    ∃ resumed, Steps code (back, returned) (eip, resumed) ∧
      resumed.reg = s.reg ∧ resumed.seg = s.seg ∧ resumed.cs = s.cs ∧
      resumed.eflags = s.eflags ∧ resumed.mem = returned.mem := by
  have to_behind : back = behind := returns.back.trans here.pushed.holds.1
  have frame := here.frame.congr (by rw [frameWords_length]; decide)
    returns.frame
  have at_frame : returned.reg .esp + 4 = argument called := by
    rw [returns.esp, here.argument_eq]
    bv_omega
  rw [← at_frame] at frame
  obtain ⟨resumed, steps, reg, seg, cs, eflags, mem⟩ :=
    stubResumes here.loaded frame (returns.handling here.handling) inRing0
      protectedMode
  refine ⟨resumed, to_behind ▸ steps, ?_, ?_, cs, eflags, mem⟩
  · rw [reg]
    funext r
    by_cases same : r = .esp
    · have esp : called.reg .esp = s.reg .esp - 64 := here.pushed.esp
      subst same
      rw [Function.update_self, returns.esp, esp]
      bv_omega
    · rw [Function.update_of_ne same, here.registers r same]
  · rw [seg, here.low]
    funext sr
    exact (oneSegment sr).symm

theorem isrVectors_eq : isrVectors = idtasmStubs.map Stub.vector := by
  decide

/-- An interrupt of ring 0 reaches the handler with the frame of the
interrupted code, writing nothing but 64 bytes below its stack pointer; when
the handler has returned and left the frame alone, the code goes on as if
nothing had happened. -/
theorem interrupt_transparent (assembled : Assembled labels code)
    (hasStub : vector ∈ isrVectors) (errorCode eip : Word)
    (inRing0 : ring s.cs = 0)
    (protectedMode : s.eflags.bits &&& virtual8086 = 0)
    (oneSegment : ∀ sr, s.seg sr = s.seg .ds) :
    ∃ gate called,
      (initIdt labels.isr vector).gate = some gate ∧
      Steps code (interrupt gate (pushedErrorCode vector errorCode) (eip, s))
        (labels.isrHandler, called) ∧
      InterruptFrame vector errorCode eip s
        (ptRegsAt called.mem (argument called)) ∧
      (∀ x, 64 ≤ (x - (s.reg .esp - 64)).toNat → called.mem x = s.mem x) ∧
      ∀ back returned, Returned called back returned →
        ∃ resumed, Steps code (back, returned) (eip, resumed) ∧
          resumed.reg = s.reg ∧ resumed.seg = s.seg ∧ resumed.cs = s.cs ∧
          resumed.eflags = s.eflags ∧ resumed.mem = returned.mem := by
  obtain ⟨stub, member, rfl⟩ : ∃ stub ∈ idtasmStubs, stub.vector = vector := by
    rwa [isrVectors_eq, List.mem_map] at hasStub
  obtain ⟨saved, behind, ds, called, steps, here⟩ :=
    assembled.handlerCalled member errorCode eip s
  have esp : called.reg .esp = s.reg .esp - 64 := here.pushed.esp
  refine ⟨⟨labels.isr stub.vector, 0x08⟩, called, ?_, steps,
    interruptFrame_of_holds here.registers here.low here.frame, ?_, ?_⟩
  · rw [initIdt_gate, if_pos hasStub]
  · rw [← esp]
    exact here.pushed.others
  · intro back returned returns
    exact here.resumes inRing0 protectedMode oneSegment returns

end Both

/-- Stubs of 16 addresses from 0 on and the common part at 0x1000. -/
def exampleLabels : Labels where
  isr vector := 16 * operand vector
  isrCommonStub := 0x1000
  isrHandler := 0x2000

def exampleCode : Code := fun address =>
  let listing :=
    if address < 0x1000 then
      (idtasmStubs.find? fun stub => operand stub.vector = address / 16).elim
        [] (Stub.listing exampleLabels)
    else isrCommonStub exampleLabels
  let index := if address < 0x1000 then address % 16 else address - 0x1000
  listing[index.toNat]?.map fun instr => (instr, address + 1)

theorem exampleCode_assembled : Assembled exampleLabels exampleCode where
  stubs := by decide +kernel
  common := by decide +kernel

def exampleState : State where
  mem := fun _ => 0
  reg := fun _ => 0xC0108000
  seg := fun _ => 0x10
  cs := 0x08
  eflags := ⟨0x202, by decide⟩

/-- A page fault with error code 2, and a handler that only returns. -/
theorem interrupt_transparent_pageFault :
    ∃ gate called resumed,
      (initIdt exampleLabels.isr 14).gate = some gate ∧
      Steps exampleCode (interrupt gate (some 2) (0xC0100000, exampleState))
        (0x2000, called) ∧
      (ptRegsAt called.mem (argument called)).intNo = 14 ∧
      (ptRegsAt called.mem (argument called)).errCode = 2 ∧
      Steps exampleCode called.pop (0xC0100000, resumed) ∧
      resumed.reg = exampleState.reg ∧ resumed.seg = exampleState.seg := by
  obtain ⟨gate, called, present, steps, frame, -, back⟩ :=
    interrupt_transparent exampleCode_assembled (show 14 ∈ isrVectors by decide)
      2 0xC0100000 (s := exampleState) (by decide) (by decide) (fun _ => rfl)
  obtain ⟨resumed, resumes, reg, seg, -⟩ := back _ _ (Returned.pop called)
  exact ⟨gate, called, resumed, present, steps, frame.intNo, frame.errCode,
    resumes, reg, seg⟩

end MiniOS
