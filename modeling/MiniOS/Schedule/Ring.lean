import Mathlib.Data.List.Nodup
import Mathlib.Data.List.Pairwise
import MiniOS.Lib.LinkedChain
import MiniOS.Schedule.Process

/-!
# The ring of threads

`initSched` makes a ring of one PCB and `kernelThread` links a PCB in before
its head, behind the thread created last.  `Ring` holds in every state of a
run: the links of the PCBs form one ring in the order of creation, and the
pids count up along it.
-/

namespace MiniOS

open ByteMemory LinkedChain

/-! ## Fields and what is stored beside them -/

section Fields

variable {mem left right : Mem} {proc : Nat}

theorem strcpy_outside {dest x : Nat} (mem : Mem) (src : List UInt8)
    (outside : x < dest ∨ dest + src.length + 1 ≤ x) :
    strcpy mem dest src x = mem x := by
  induction src generalizing mem dest with
  | nil =>
      apply store8_other
      simp only [List.length_nil] at outside
      omega
  | cons char src induction =>
      simp only [List.length_cons] at outside
      rw [strcpy, induction _ (by omega), store8_other _ _ (by omega)]

theorem setProcName_outside {x : Nat} {name : List UInt8} (mem : Mem)
    (fits : name.length ≤ procNameLen)
    (outside : x < proc + nameOffset ∨
      proc + nameOffset + procNameLen + 1 ≤ x) :
    setProcName mem proc name x = mem x := by
  simp only [procNameLen] at *
  rw [setProcName, strcpy_outside _ _ (by omega), fill_outside _ _ (by omega)]

theorem load32_setProcName {other : Nat} {name : List UInt8} (mem : Mem)
    (fits : name.length ≤ procNameLen)
    (outside : other + 4 ≤ proc + nameOffset ∨
      proc + nameOffset + procNameLen + 1 ≤ other) :
    load32 (setProcName mem proc name) other = load32 mem other :=
  load32_congr fun _ _ _ => setProcName_outside mem fits (by omega)

theorem literal_idleproc_length :
    (literal "idleproc").length ≤ procNameLen := by decide

/-- The NUL of the empty name falls on a byte that is zero already. -/
theorem setProcName_empty (mem : Mem) :
    setProcName mem proc (literal "") =
      fill mem (proc + nameOffset) 0 (procNameLen + 1) := by
  funext x
  change store8 _ _ _ x = _
  by_cases first : x = proc + nameOffset
  · subst x
    rw [store8_same, fill_inside _ _ (by omega) (by simp)]
  · exact store8_other _ _ first

theorem SamePcbs.fields {procs : List Nat} (same : SamePcbs procs left right)
    (member : proc ∈ procs) :
    procNext left proc = procNext right proc ∧
      procPrev left proc = procPrev right proc ∧
      procPid left proc = procPid right proc := by
  have bytes := same proc member
  simp only [procSize] at bytes
  refine ⟨load32_congr ?_, load32_congr ?_, load32_congr ?_⟩ <;>
    intro x lower upper <;>
    simp only [nextOffset, prevOffset, pidOffset] at * <;>
    exact bytes x (by omega) (by omega)

end Fields

/-! ## The block of a new thread -/

/-- What `kernel_thread` leaves in its block: the PCB at the bottom, apart
from the links, and the three words that `switch_to` and `fn` will pop at the
top. -/
structure ThreadBlock (pgdKern fn kthreadExit arg pid : Nat) (mem : Mem)
    (block : Nat) : Prop where
  state : load32 mem (block + stateOffset) = taskRunnable
  registers : ∀ i, 1 ≤ i → i < 5 → load32 mem (block + contextOffset + 4 * i) = 0
  eflags : load32 mem (block + contextOffset + 20) = 0x200
  kstack : load32 mem (block + kstackOffset) = uint32 (block + stackSize)
  cr3 : load32 mem (block + cr3Offset) = uint32 (pgdKern - pageOffset)
  pid : procPid mem block = pid
  name : ∀ i ≤ procNameLen, mem (block + nameOffset + i) = 0
  esp : load32 mem (block + contextOffset) = block + stackSize - 12
  entry : load32 mem (block + stackSize - 12) = uint32 fn
  returnTo : load32 mem (block + stackSize - 8) = uint32 kthreadExit
  argument : load32 mem (block + stackSize - 4) = uint32 arg

/-- The PCB ends before the stack frame at the saved `esp` begins, and the
frame ends with the block. -/
theorem ThreadBlock.layout {pgdKern fn kthreadExit arg pid block : Nat}
    {mem : Mem} (filled : ThreadBlock pgdKern fn kthreadExit arg pid mem block) :
    block + procSize ≤ load32 mem (block + contextOffset) ∧
      load32 mem (block + contextOffset) + 12 = block + stackSize := by
  rw [filled.esp]
  simp only [procSize, stackSize]
  omega

theorem ThreadBlock.congr {pgdKern fn kthreadExit arg pid block : Nat}
    {left right : Mem}
    (filled : ThreadBlock pgdKern fn kthreadExit arg pid right block)
    (same : ∀ x, block ≤ x → x < block + stackSize →
      x < block + prevOffset ∨ block + procSize ≤ x → left x = right x) :
    ThreadBlock pgdKern fn kthreadExit arg pid left block := by
  have field : ∀ offset, offset + 4 ≤ prevOffset →
      load32 left (block + offset) = load32 right (block + offset) := by
    intro offset below
    apply load32_congr
    intro x lower upper
    simp only [prevOffset, stackSize] at *
    exact same x (by omega) (by omega) (by omega)
  have top : ∀ offset, 4 ≤ offset → offset ≤ 12 →
      load32 left (block + stackSize - offset) =
        load32 right (block + stackSize - offset) := by
    intro offset lower upper
    apply load32_congr
    intro x above below
    simp only [procSize, stackSize] at *
    exact same x (by omega) (by omega) (by omega)
  constructor
  case registers =>
    intro i lower upper
    rw [Nat.add_assoc, field _ (by simp only [prevOffset, contextOffset]; omega),
      ← Nat.add_assoc]
    exact filled.registers i lower upper
  case name =>
    intro i bound
    simp only [nameOffset, procNameLen, prevOffset, stackSize] at *
    rw [same _ (by omega) (by omega) (by omega)]
    exact filled.name i bound
  case eflags =>
    rw [Nat.add_assoc, field _ (by decide), ← Nat.add_assoc]
    exact filled.eflags
  case state => exact (field _ (by decide)).trans filled.state
  case kstack => exact (field _ (by decide)).trans filled.kstack
  case cr3 => exact (field _ (by decide)).trans filled.cr3
  case pid => exact (field _ (by decide)).trans filled.pid
  case esp => exact (field _ (by decide)).trans filled.esp
  case entry => exact (top 12 (by decide) (by decide)).trans filled.entry
  case returnTo => exact (top 8 (by decide) (by decide)).trans filled.returnTo
  case argument => exact (top 4 (by decide) (by decide)).trans filled.argument

section FillProc

variable {pgdKern fn kthreadExit arg block : Nat} {s : Sched}

theorem fillProc_outside {x : Nat}
    (outside : x < block ∨ block + stackSize ≤ x) :
    (fillProc pgdKern fn kthreadExit arg block s).mem x = s.mem x := by
  simp only [fillProc, setProcName_empty, stackSize, cr3Offset, stateOffset,
    pidOffset, nameOffset, procNameLen, kstackOffset, contextOffset,
    procSize] at *
  simp (disch := omega) only [store32_outside, fill_outside]

theorem fillProc_block (upper : block + stackSize ≤ 4294967296) :
    ThreadBlock pgdKern fn kthreadExit arg (uint32 s.nowPid)
      (fillProc pgdKern fn kthreadExit arg block s).mem block := by
  simp only [fillProc, setProcName_empty, stackSize, cr3Offset, stateOffset,
    pidOffset, nameOffset, procNameLen, kstackOffset, contextOffset,
    procSize, taskRunnable] at *
  constructor
  case registers =>
    intro i lower upper
    simp (disch := omega) only [contextOffset, load32_store32_disjoint,
      load32_fill_disjoint, load32_fill_zero]
  case name =>
    intro i bound
    simp only [nameOffset, procNameLen] at *
    simp (disch := omega) only [store32_outside, fill_inside]
  all_goals
    simp only [procPid, cr3Offset, stateOffset, pidOffset, kstackOffset,
      contextOffset, taskRunnable, stackSize, uint32]
    simp (disch := omega) only [load32_store32_disjoint,
      load32_store32_same, load32_fill_disjoint]
  omega

end FillProc

/-! ## Linking a PCB in -/

/-- Two PCBs are the same or have no byte in common. -/
def PcbsApart (left right : Nat) : Prop :=
  RangesApart left procSize right procSize

section LinkProc

variable {s : Sched} {new tail proc : Nat}

theorem linkProc_nowPid (pid : Nat) :
    linkProc new { s with nowPid := pid } =
      { linkProc new s with nowPid := pid } := rfl

theorem linkProc_mem (apart : PcbsApart new s.runningProcHead)
    (tailPrev : procPrev s.mem s.runningProcHead = tail) :
    (linkProc new s).mem =
      store32 (store32 (store32 (store32 s.mem
        (new + nextOffset) s.runningProcHead) (new + prevOffset) tail)
        (tail + nextOffset) new) (s.runningProcHead + prevOffset) new := by
  simp only [PcbsApart, RangesApart, procSize] at apart
  have before : procPrev (store32 s.mem (new + nextOffset) s.runningProcHead)
      s.runningProcHead = tail := by
    rw [← tailPrev]
    exact load32_store32_disjoint _ _ (by
      simp only [prevOffset, nextOffset]; omega)
  have after : procPrev (store32 (store32 s.mem (new + nextOffset)
      s.runningProcHead) (new + prevOffset) tail) s.runningProcHead = tail := by
    rw [← before]
    exact load32_store32_disjoint _ _ (by simp only [prevOffset]; omega)
  simp only [linkProc, before, after]

variable (apart : PcbsApart new s.runningProcHead)
variable (tailPrev : procPrev s.mem s.runningProcHead = tail)
include apart tailPrev

theorem linkProc_outside {x : Nat}
    (links : x < new + prevOffset ∨ new + procSize ≤ x)
    (head : x < s.runningProcHead + prevOffset ∨
      s.runningProcHead + prevOffset + 4 ≤ x)
    (last : x < tail + nextOffset ∨ tail + nextOffset + 4 ≤ x) :
    (linkProc new s).mem x = s.mem x := by
  rw [linkProc_mem apart tailPrev]
  simp only [prevOffset, nextOffset, procSize] at *
  rw [store32_outside _ _ (by omega), store32_outside _ _ (by omega),
    store32_outside _ _ (by omega), store32_outside _ _ (by omega)]

theorem linkProc_new (tailApart : PcbsApart new tail) :
    procNext (linkProc new s).mem new = uint32 s.runningProcHead ∧
      procPrev (linkProc new s).mem new = uint32 tail := by
  rw [linkProc_mem apart tailPrev]
  simp only [PcbsApart, RangesApart, procSize, procNext, procPrev, nextOffset,
    prevOffset, uint32] at *
  constructor <;>
    simp (disch := omega) only [load32_store32_disjoint, load32_store32_same]

theorem linkProc_ends
    (ends : tail = s.runningProcHead ∨ PcbsApart tail s.runningProcHead) :
    procNext (linkProc new s).mem tail = uint32 new ∧
      procPrev (linkProc new s).mem s.runningProcHead = uint32 new := by
  rw [linkProc_mem apart tailPrev]
  simp only [PcbsApart, RangesApart, procSize, procNext, procPrev, nextOffset,
    prevOffset, uint32] at *
  constructor <;>
    simp (disch := omega) only [load32_store32_disjoint, load32_store32_same]

theorem linkProc_block {x : Nat} (lower : new ≤ x) (upper : x < new + stackSize)
    (links : x < new + prevOffset ∨ new + procSize ≤ x)
    (head : RangesApart new stackSize s.runningProcHead procSize)
    (last : RangesApart new stackSize tail procSize) :
    (linkProc new s).mem x = s.mem x := by
  simp only [RangesApart, stackSize, procSize] at head last upper
  apply linkProc_outside apart tailPrev links <;>
    simp only [prevOffset, nextOffset] <;> omega

variable (procNew : PcbsApart new proc)
include procNew

theorem linkProc_next
    (head : proc = s.runningProcHead ∨ PcbsApart proc s.runningProcHead)
    (notLast : PcbsApart proc tail) :
    procNext (linkProc new s).mem proc = procNext s.mem proc := by
  rw [linkProc_mem apart tailPrev]
  simp only [PcbsApart, RangesApart, procSize, procNext, nextOffset,
    prevOffset] at *
  simp (disch := omega) only [load32_store32_disjoint]

theorem linkProc_prev (notHead : PcbsApart proc s.runningProcHead)
    (last : proc = tail ∨ PcbsApart proc tail) :
    procPrev (linkProc new s).mem proc = procPrev s.mem proc := by
  rw [linkProc_mem apart tailPrev]
  simp only [PcbsApart, RangesApart, procSize, procPrev, nextOffset,
    prevOffset] at *
  simp (disch := omega) only [load32_store32_disjoint]

theorem linkProc_pid
    (head : proc = s.runningProcHead ∨ PcbsApart proc s.runningProcHead)
    (last : proc = tail ∨ PcbsApart proc tail) :
    procPid (linkProc new s).mem proc = procPid s.mem proc := by
  rw [linkProc_mem apart tailPrev]
  simp only [PcbsApart, RangesApart, procSize, procPid, nextOffset,
    prevOffset, pidOffset] at *
  simp (disch := omega) only [load32_store32_disjoint]

end LinkProc

/-! ## The invariant -/

/-- The ring of the idle thread and the threads `created`, in this order. -/
structure Ring (kernStack : Nat) (created : List Nat) (s : Sched) : Prop where
  head : s.runningProcHead = idleProc kernStack
  ring : Chain (procNext s.mem) (procPrev s.mem)
    (created.getLastD (idleProc kernStack)) (idleProc kernStack :: created)
    (idleProc kernStack)
  current : s.current ∈ idleProc kernStack :: created
  apart : (idleProc kernStack :: created).Pairwise PcbsApart
  blocks : created.Pairwise fun left right =>
    RangesApart left stackSize right stackSize
  upper : ∀ proc ∈ idleProc kernStack :: created,
    proc + procSize ≤ 4294967296
  pids : (idleProc kernStack :: created).map (procPid s.mem) =
    (List.range (created.length + 1)).map uint32
  nowPid : s.nowPid = uint32 (created.length + 1)

instance : Std.Symm PcbsApart := ⟨fun _ _ => Or.symm⟩

theorem PcbsApart.ne {left right : Nat} (apart : PcbsApart left right) :
    left ≠ right := by
  rintro rfl
  simp only [PcbsApart, RangesApart, procSize] at apart
  omega

namespace Ring

variable {kernStack : Nat} {created : List Nat} {s : Sched}

theorem nodup (state : Ring kernStack created s) :
    (idleProc kernStack :: created).Nodup :=
  state.apart.imp PcbsApart.ne

theorem eq_or_apart (state : Ring kernStack created s) {left right : Nat}
    (leftMember : left ∈ idleProc kernStack :: created)
    (rightMember : right ∈ idleProc kernStack :: created) :
    left = right ∨ PcbsApart left right := by
  by_cases same : left = right
  · exact .inl same
  · exact .inr (state.apart.forall leftMember rightMember same)

theorem congr {s' : Sched} (state : Ring kernStack created s)
    (links : ∀ proc ∈ idleProc kernStack :: created,
      procNext s'.mem proc = procNext s.mem proc ∧
        procPrev s'.mem proc = procPrev s.mem proc ∧
        procPid s'.mem proc = procPid s.mem proc)
    (head : s'.runningProcHead = s.runningProcHead)
    (current : s'.current ∈ idleProc kernStack :: created)
    (nowPid : s'.nowPid = s.nowPid) : Ring kernStack created s' where
  head := head.trans state.head
  ring := state.ring.congr fun proc member =>
    ⟨(links proc member).1, (links proc member).2.1⟩
  current := current
  apart := state.apart
  blocks := state.blocks
  upper := state.upper
  pids := by
    rw [← state.pids]
    exact List.map_congr_left fun proc member => (links proc member).2.2
  nowPid := nowPid.trans state.nowPid

theorem head_mem (state : Ring kernStack created s) :
    s.runningProcHead ∈ idleProc kernStack :: created := by
  rw [state.head]
  exact List.mem_cons_self

theorem prev_head (state : Ring kernStack created s) :
    procPrev s.mem s.runningProcHead =
      created.getLastD (idleProc kernStack) := by
  rw [state.head]
  exact state.ring.1

theorem last_mem (kernStack : Nat) (created : List Nat) :
    created.getLastD (idleProc kernStack) ∈
      idleProc kernStack :: created := by
  rw [← List.getLast_eq_getLastD (List.cons_ne_nil _ _)]
  exact List.getLast_mem _

theorem last_apart (state : Ring kernStack created s) {proc : Nat}
    (member : proc ∈ (idleProc kernStack :: created).dropLast) :
    PcbsApart proc (created.getLastD (idleProc kernStack)) := by
  have split := List.dropLast_concat_getLast
    (List.cons_ne_nil (idleProc kernStack) created)
  have apart := state.apart
  rw [← split, List.pairwise_append] at apart
  rw [← List.getLast_eq_getLastD (List.cons_ne_nil _ _)]
  exact apart.2.2 proc member _ (List.mem_singleton_self _)

theorem next_mem (state : Ring kernStack created s) {proc : Nat}
    (member : proc ∈ idleProc kernStack :: created) :
    procNext s.mem proc ∈ idleProc kernStack :: created :=
  state.ring.ring_next_mem member

end Ring

/-! ## The calls preserve it -/

/-- Where the linker puts `kern_stack`. -/
structure KernStackPlaced (kernStack : Nat) : Prop where
  lower : pageOffset ≤ kernStack
  upper : kernStack + stackSize < 4294967296

/-- Rounding `kern_stack_top` down moves the PCB at most down. -/
theorem KernStackPlaced.idleProc_upper {kernStack : Nat}
    (placed : KernStackPlaced kernStack) :
    idleProc kernStack + procSize ≤ 4294967296 := by
  have upper := placed.upper
  have rounded : kernStackTop kernStack ≤ uint32 (kernStack + stackSize) := by
    unfold kernStackTop
    exact Nat.and_le_left
  rw [uint32, Nat.mod_eq_of_lt upper] at rounded
  have below : idleProc kernStack ≤ kernStack := Nat.sub_le_of_le_add rounded
  simp only [stackSize, procSize] at *
  omega

/-- Rounding `kern_stack_top` down keeps its highest bit. -/
theorem KernStackPlaced.idleProc_ne_zero {kernStack : Nat}
    (placed : KernStackPlaced kernStack) : idleProc kernStack ≠ 0 := by
  have high : (kernStackTop kernStack).testBit 31 = true := by
    have bit : (kernStack + stackSize) / 2 ^ 31 % 2 = 1 := by
      have lower := placed.lower
      have upper := placed.upper
      simp only [pageOffset, stackSize] at *
      omega
    rw [kernStackTop, uint32, Nat.mod_eq_of_lt placed.upper, Nat.testBit_and,
      Nat.testBit_eq_decide_div_mod_eq, bit]
    decide
  have large : 2 ^ 31 ≤ kernStackTop kernStack :=
    Nat.ge_two_pow_of_testBit high
  unfold idleProc
  simp only [stackSize]
  omega

namespace Ring

theorem initSched {kernStack pgdKern : Nat} {s : Sched}
    (placed : KernStackPlaced kernStack) (first : s.nowPid = 0) :
    Ring kernStack [] (initSched kernStack pgdKern s) := by
  have upper := placed.idleProc_upper
  have links : procNext (MiniOS.initSched kernStack pgdKern s).mem
        (idleProc kernStack) = idleProc kernStack ∧
      procPrev (MiniOS.initSched kernStack pgdKern s).mem
        (idleProc kernStack) = idleProc kernStack ∧
      procPid (MiniOS.initSched kernStack pgdKern s).mem
        (idleProc kernStack) = 0 := by
    simp only [MiniOS.initSched, first]
    generalize idleProc kernStack = idle at *
    simp only [procNext, procPrev, procPid, nextOffset, prevOffset, pidOffset,
      kstackOffset, cr3Offset, procSize] at *
    refine ⟨?_, ?_, ?_⟩
    · simp (disch := omega) only [load32_store32_disjoint, load32_store32_same,
        Nat.mod_eq_of_lt]
    · simp (disch := omega) only [load32_store32_same, Nat.mod_eq_of_lt]
    · simp (disch := omega) only [load32_store32_disjoint]
      rw [load32_setProcName _ literal_idleproc_length
        (by simp only [nameOffset]; omega)]
      simp (disch := omega) only [load32_store32_same]
  exact {
    head := by simp only [MiniOS.initSched]
    ring := by
      rw [chain_cons, List.getLastD_nil, List.headD_nil]
      exact ⟨links.2.1, links.1, chain_nil⟩
    current := by simp only [MiniOS.initSched, List.mem_singleton]
    apart := List.pairwise_singleton ..
    blocks := .nil
    upper := by
      intro proc member
      rw [List.mem_singleton.mp member]
      exact upper
    pids := by
      rw [List.map_singleton, links.2.2]
      rfl
    nowPid := by
      simp only [MiniOS.initSched, first]
      rfl }

variable {kernStack : Nat} {created : List Nat} {s : Sched}

theorem compute (state : Ring kernStack created s) {mem : Mem} (cpu : Cpu)
    (same : SamePcbs (idleProc kernStack :: created) mem s.mem) :
    Ring kernStack created { s with mem := mem, cpu := cpu } :=
  state.congr (fun _ member => same.fields member) rfl state.current rfl

theorem switchTo_fields {prev proc : Nat} (next : Nat)
    (apart : prev = proc ∨ PcbsApart prev proc) :
    procNext (switchTo (prev + contextOffset) next s).mem proc =
        procNext s.mem proc ∧
      procPrev (switchTo (prev + contextOffset) next s).mem proc =
        procPrev s.mem proc ∧
      procPid (switchTo (prev + contextOffset) next s).mem proc =
        procPid s.mem proc := by
  simp only [switchTo, procNext, procPrev, procPid, PcbsApart, RangesApart,
    procSize, contextOffset, nextOffset, prevOffset, pidOffset] at *
  refine ⟨?_, ?_, ?_⟩ <;>
    simp (disch := omega) only [load32_store32_disjoint]

theorem changeTaskTo {next : Nat} (state : Ring kernStack created s)
    (member : next ∈ idleProc kernStack :: created) :
    Ring kernStack created (changeTaskTo next s) := by
  unfold MiniOS.changeTaskTo
  split
  · apply state.congr
    · intro proc inRing
      exact switchTo_fields _ (state.eq_or_apart state.current inRing)
    · rfl
    · exact member
    · rfl
  · exact state

theorem schedule (state : Ring kernStack created s) :
    Ring kernStack created (schedule s) := by
  unfold MiniOS.schedule
  split
  · exact state.changeTaskTo (state.next_mem state.current)
  · exact state

theorem schedule_current (live : s.current ≠ 0) :
    (MiniOS.schedule s).current = procNext s.mem s.current := by
  unfold MiniOS.schedule MiniOS.changeTaskTo
  rw [if_pos live]
  split
  · rfl
  · rename_i same
    exact not_not.mp same

end Ring

/-! ## A new thread -/

section NewThread

variable {kernStack pgdKern fn kthreadExit arg block : Nat}
variable {created : List Nat} {s : Sched}

theorem FreshBlock.apart (fresh : FreshBlock kernStack created block)
    {proc : Nat} (member : proc ∈ idleProc kernStack :: created) :
    RangesApart block stackSize proc procSize := by
  rcases List.mem_cons.mp member with same | live
  · rw [same]
    exact fresh.idle
  · have wide := fresh.live proc live
    simp only [RangesApart, stackSize, procSize] at *
    omega

theorem FreshBlock.pcbsApart (fresh : FreshBlock kernStack created block)
    {proc : Nat} (member : proc ∈ idleProc kernStack :: created) :
    PcbsApart block proc := by
  have wide := fresh.apart member
  simp only [PcbsApart, RangesApart, stackSize, procSize] at *
  omega

/-- Filling the block leaves the PCBs of the ring alone. -/
theorem FreshBlock.samePcbs (fresh : FreshBlock kernStack created block) :
    SamePcbs (idleProc kernStack :: created)
      (fillProc pgdKern fn kthreadExit arg block s).mem s.mem := by
  intro proc member x lower upper
  apply fillProc_outside
  have apart := fresh.apart member
  simp only [RangesApart, stackSize, procSize] at *
  omega

/-- The ring before the new PCB is linked in. -/
theorem Ring.fillProc (state : Ring kernStack created s)
    (fresh : FreshBlock kernStack created block) :
    Ring kernStack created
      { fillProc pgdKern fn kthreadExit arg block s with nowPid := s.nowPid } :=
  state.congr (fun _ member => fresh.samePcbs.fields member) rfl state.current
    rfl

theorem Ring.uint32_eq (state : Ring kernStack created s) {proc : Nat}
    (member : proc ∈ idleProc kernStack :: created) : uint32 proc = proc := by
  have upper := state.upper proc member
  apply uint32_of_lt
  simp only [procSize] at upper
  omega

theorem FreshBlock.uint32_eq (fresh : FreshBlock kernStack created block) :
    uint32 block = block := by
  have upper := fresh.upper
  apply uint32_of_lt
  simp only [stackSize] at upper
  omega

/-- The stores of the links put the block between the last thread and the
head. -/
theorem Ring.linkProc_chain (state : Ring kernStack created s)
    (fresh : FreshBlock kernStack created block) :
    Chain (procNext (MiniOS.linkProc block s).mem)
      (procPrev (MiniOS.linkProc block s).mem) block
      (idleProc kernStack :: (created ++ [block])) (idleProc kernStack) := by
  have headMember := state.head_mem
  have lastMember := Ring.last_mem kernStack created
  have headApart := fresh.pcbsApart headMember
  obtain ⟨newNext, newPrev⟩ :=
    linkProc_new headApart state.prev_head (fresh.pcbsApart lastMember)
  obtain ⟨lastNext, headPrev⟩ := linkProc_ends headApart state.prev_head
    (state.eq_or_apart lastMember headMember)
  rw [state.uint32_eq headMember, state.head] at newNext
  rw [state.uint32_eq lastMember] at newPrev
  rw [fresh.uint32_eq] at lastNext headPrev
  rw [state.head] at headPrev
  rw [← List.cons_append]
  apply state.ring.ring_concat headPrev lastNext newNext newPrev
  · intro node member
    have inRing := List.mem_cons_of_mem (idleProc kernStack) member
    apply linkProc_prev headApart state.prev_head (fresh.pcbsApart inRing)
    · rw [state.head]
      exact Or.symm (List.rel_of_pairwise_cons state.apart member)
    · exact state.eq_or_apart inRing lastMember
  · intro node member
    have inRing := List.dropLast_subset _ member
    apply linkProc_next headApart state.prev_head (fresh.pcbsApart inRing)
    · exact state.eq_or_apart inRing headMember
    · exact state.last_apart member

theorem Ring.linkProc_pids (state : Ring kernStack created s)
    (fresh : FreshBlock kernStack created block)
    (pid : procPid s.mem block = s.nowPid) :
    (idleProc kernStack :: (created ++ [block])).map
        (procPid (MiniOS.linkProc block s).mem) =
      (List.range ((created ++ [block]).length + 1)).map uint32 := by
  have headMember := state.head_mem
  have lastMember := Ring.last_mem kernStack created
  have headApart := fresh.pcbsApart headMember
  have older : (idleProc kernStack :: created).map
      (procPid (MiniOS.linkProc block s).mem) =
      (idleProc kernStack :: created).map (procPid s.mem) := by
    apply List.map_congr_left
    intro proc member
    exact linkProc_pid headApart state.prev_head (fresh.pcbsApart member)
      (state.eq_or_apart member headMember)
      (state.eq_or_apart member lastMember)
  have new : procPid (MiniOS.linkProc block s).mem block = s.nowPid := by
    rw [← pid]
    apply load32_congr
    intro x lower upper
    simp only [pidOffset] at lower upper
    apply linkProc_block headApart state.prev_head (by omega)
      (by simp only [stackSize]; omega)
      (by simp only [prevOffset]; omega) (fresh.apart headMember)
      (fresh.apart lastMember)
  have grown : List.range (created.length + 1 + 1) =
      List.range (created.length + 1) ++ [created.length + 1] :=
    List.range_succ
  rw [← List.cons_append, List.map_append, older, state.pids,
    List.map_singleton, new, state.nowPid, List.length_append,
    List.length_singleton, grown, List.map_append, List.map_singleton]

theorem Ring.linkProc (state : Ring kernStack created s)
    (fresh : FreshBlock kernStack created block)
    (pid : procPid s.mem block = s.nowPid) :
    Ring kernStack (created ++ [block])
      { linkProc block s with nowPid := uint32 (s.nowPid + 1) } where
  head := state.head
  ring := by
    rw [List.getLastD_concat]
    exact state.linkProc_chain fresh
  current := by
    rw [← List.cons_append]
    exact List.mem_append_left _ state.current
  apart := by
    rw [← List.cons_append, List.pairwise_append]
    refine ⟨state.apart, List.pairwise_singleton .., ?_⟩
    intro left leftMember right rightMember
    rw [List.mem_singleton.mp rightMember]
    exact Or.symm (fresh.pcbsApart leftMember)
  blocks := by
    rw [List.pairwise_append]
    refine ⟨state.blocks, List.pairwise_singleton .., ?_⟩
    intro left leftMember right rightMember
    rw [List.mem_singleton.mp rightMember]
    exact Or.symm (fresh.live left leftMember)
  upper := by
    rw [← List.cons_append]
    intro proc member
    rcases List.mem_append.mp member with older | new
    · exact state.upper proc older
    · have upper := fresh.upper
      rw [List.mem_singleton.mp new]
      simp only [stackSize, procSize] at *
      omega
  pids := state.linkProc_pids fresh pid
  nowPid := by
    rw [state.nowPid, List.length_append, List.length_singleton]
    simp only [uint32]
    omega

/-- `kernel_thread` appends its thread to the ring and fills the block. -/
theorem Ring.kernelThread {pid : Nat} {s' : Sched}
    (state : Ring kernStack created s)
    (fresh : FreshBlock kernStack created block)
    (returned : kernelThread pgdKern fn kthreadExit arg block s =
      .ok (pid, s')) :
    Ring kernStack (created ++ [block]) s' ∧
      ThreadBlock pgdKern fn kthreadExit arg pid s'.mem block := by
  unfold MiniOS.kernelThread at returned
  split at returned
  case isFalse => cases returned
  cases returned
  let filled := MiniOS.fillProc pgdKern fn kthreadExit arg block s
  have before : Ring kernStack created { filled with nowPid := s.nowPid } :=
    state.fillProc fresh
  have inBlock : ThreadBlock pgdKern fn kthreadExit arg (uint32 s.nowPid)
      filled.mem block := fillProc_block fresh.upper
  have wrapped : uint32 s.nowPid = s.nowPid := by
    rw [state.nowPid, uint32, uint32, Nat.mod_mod]
  have ring : Ring kernStack (created ++ [block])
      (MiniOS.linkProc block filled) := by
    have linked := before.linkProc fresh (inBlock.pid.trans wrapped)
    rwa [linkProc_nowPid] at linked
  have headMember := before.head_mem
  have lastPrev := before.prev_head
  have linked : ThreadBlock pgdKern fn kthreadExit arg (uint32 s.nowPid)
      (MiniOS.linkProc block filled).mem block := by
    apply inBlock.congr
    intro x lower upper links
    exact linkProc_block (fresh.pcbsApart headMember) lastPrev lower upper links
      (fresh.apart headMember) (fresh.apart (Ring.last_mem kernStack created))
  refine ⟨ring, ?_⟩
  rw [linked.pid]
  exact linked

/-- Outside the block only the two links next to the new PCB are written. -/
theorem Ring.kernelThread_outside {pid x : Nat} {s' : Sched}
    (state : Ring kernStack created s)
    (fresh : FreshBlock kernStack created block)
    (returned : MiniOS.kernelThread pgdKern fn kthreadExit arg block s =
      .ok (pid, s'))
    (outside : x < block ∨ block + stackSize ≤ x)
    (head : x < s.runningProcHead + prevOffset ∨
      s.runningProcHead + prevOffset + 4 ≤ x)
    (last : x < created.getLastD (idleProc kernStack) + nextOffset ∨
      created.getLastD (idleProc kernStack) + nextOffset + 4 ≤ x) :
    s'.mem x = s.mem x := by
  unfold MiniOS.kernelThread at returned
  split at returned
  case isFalse => cases returned
  cases returned
  let filled := MiniOS.fillProc pgdKern fn kthreadExit arg block s
  have before : Ring kernStack created { filled with nowPid := s.nowPid } :=
    state.fillProc fresh
  have headApart : PcbsApart block filled.runningProcHead :=
    fresh.pcbsApart state.head_mem
  have lastPrev : procPrev filled.mem filled.runningProcHead =
      created.getLastD (idleProc kernStack) := before.prev_head
  have links : x < block + prevOffset ∨ block + procSize ≤ x := by
    simp only [stackSize, prevOffset, procSize] at *
    omega
  have unlinked : (MiniOS.linkProc block filled).mem x = filled.mem x :=
    linkProc_outside headApart lastPrev links head last
  exact unlinked.trans (fillProc_outside outside)

end NewThread

/-! ## Runs -/

theorem SchedRun.ring {kernStack pgdKern kthreadExit : Nat}
    {created : List Nat} {s : Sched} (placed : KernStackPlaced kernStack)
    (run : SchedRun kernStack pgdKern kthreadExit created s) :
    Ring kernStack created s := by
  induction run with
  | start first => exact .initSched placed first
  | kernelThread run fresh returned state =>
      exact (state.kernelThread fresh returned).1
  | schedule run state => exact state.schedule
  | compute run same state => exact state.compute _ same

/-- What the clients of the scheduler rely on: one ring through all threads
in the order of their creation. -/
structure ThreadRing (kernStack : Nat) (created : List Nat) (s : Sched) :
    Prop where
  visits : List.iterate (procNext s.mem) s.runningProcHead
    (created.length + 1) = idleProc kernStack :: created
  returns : Nat.iterate (procNext s.mem) (created.length + 1)
    s.runningProcHead = s.runningProcHead
  once : (idleProc kernStack :: created).Nodup
  inverse : ∀ proc ∈ idleProc kernStack :: created,
    procPrev s.mem (procNext s.mem proc) = proc ∧
      procNext s.mem (procPrev s.mem proc) = proc
  current : s.current ∈ idleProc kernStack :: created
  blocks : created.Pairwise fun left right =>
    RangesApart left stackSize right stackSize
  pids : created.length < 4294967296 →
    ((idleProc kernStack :: created).map (procPid s.mem)).Nodup

theorem Ring.pids_nodup {kernStack : Nat} {created : List Nat} {s : Sched}
    (state : Ring kernStack created s) (few : created.length < 4294967296) :
    ((idleProc kernStack :: created).map (procPid s.mem)).Nodup := by
  rw [state.pids]
  apply List.Nodup.map_on _ List.nodup_range
  intro left leftMember right rightMember same
  have leftBound := List.mem_range.mp leftMember
  have rightBound := List.mem_range.mp rightMember
  simp only [uint32] at same
  omega

theorem Ring.threadRing {kernStack : Nat} {created : List Nat} {s : Sched}
    (state : Ring kernStack created s) : ThreadRing kernStack created s := by
  obtain ⟨visits, returns⟩ := state.ring.iterate_next
  rw [← state.head] at returns
  exact {
    visits := by
      rw [state.head]
      exact visits
    returns := returns
    once := state.nodup
    inverse := fun _ member => state.ring.ring_inverse member
    current := state.current
    blocks := state.blocks
    pids := state.pids_nodup }

/-- In every state of a run the threads form the ring.  The next call of
`kernel_thread` puts its PCB at the bottom and the initial stack frame at the
top of its own block, and stores nothing else but two links. -/
theorem scheduler_ring {kernStack pgdKern kthreadExit : Nat}
    {created : List Nat} {s : Sched} (placed : KernStackPlaced kernStack)
    (run : SchedRun kernStack pgdKern kthreadExit created s) :
    ThreadRing kernStack created s ∧
      ∀ (fn arg block pid : Nat) (s' : Sched),
        FreshBlock kernStack created block →
        kernelThread pgdKern fn kthreadExit arg block s = .ok (pid, s') →
        ThreadBlock pgdKern fn kthreadExit arg pid s'.mem block ∧
          (block + procSize ≤ load32 s'.mem (block + contextOffset) ∧
            load32 s'.mem (block + contextOffset) + 12 = block + stackSize) ∧
          ∀ x, (x < block ∨ block + stackSize ≤ x) →
            (x < s.runningProcHead + prevOffset ∨
              s.runningProcHead + prevOffset + 4 ≤ x) →
            (x < created.getLastD (idleProc kernStack) + nextOffset ∨
              created.getLastD (idleProc kernStack) + nextOffset + 4 ≤ x) →
            s'.mem x = s.mem x := by
  have state := run.ring placed
  refine ⟨state.threadRing, ?_⟩
  intro fn arg block pid s' fresh returned
  have filled := (state.kernelThread fresh returned).2
  refine ⟨filled, filled.layout, ?_⟩
  intro x outside head last
  exact state.kernelThread_outside fresh returned outside head last

/-- The idle thread creates one thread and calls `schedule`. -/
theorem scheduler_ring_oneThread :
    ∃ s, SchedRun 0xC0103000 0xC0101000 0xC0100500 [0xE000000C] s ∧
      ThreadRing 0xC0103000 [0xE000000C] s := by
  have placed : KernStackPlaced 0xC0103000 := ⟨by decide, by decide⟩
  let boot : Sched := ⟨fun _ => 0, 0, 0, 0, ⟨0, 0, 0, 0, 0, 0, 0, 0⟩⟩
  have started : SchedRun 0xC0103000 0xC0101000 0xC0100500 []
      (initSched 0xC0103000 0xC0101000 boot) := .start rfl
  have fresh : FreshBlock 0xC0103000 [] 0xE000000C :=
    ⟨by decide, .inr (by decide), by simp⟩
  obtain ⟨pid, s, returned⟩ : ∃ pid s,
      kernelThread 0xC0101000 0xC0100600 0xC0100500 0 0xE000000C
        (initSched 0xC0103000 0xC0101000 boot) = .ok (pid, s) := ⟨_, _, rfl⟩
  have run := (started.kernelThread fresh returned).schedule
  exact ⟨_, run, (scheduler_ring placed run).1⟩

end MiniOS
