import MiniOS.Driver.Printing
import MiniOS.Mm.EntryFormat
import MiniOS.Schedule.KernelRun
import MiniOS.Trap.Interrupts

/-!
# Page faults (`vmm.c`)

`page_fault` prints where the fault happened and what its error code says, and
stops.  An access of the kernel to an address that nothing is mapped at gets
there: through the gate, the stub and `isr_handler`.
-/

namespace MiniOS

open X86

/-- What the processor tells about a page fault. -/
structure PageFault where
  /-- The page is present, but the access is not allowed. -/
  protection : Bool
  write : Bool
  user : Bool
  /-- A reserved bit of an entry is set. -/
  reserved : Bool
  fetch : Bool

namespace PageFault

variable (fault : PageFault)

def errorCode : Word :=
  (if fault.protection then 0x1 else 0) ||| (if fault.write then 0x2 else 0) |||
    (if fault.user then 0x4 else 0) ||| (if fault.reserved then 0x8 else 0) |||
      (if fault.fetch then 0x10 else 0)

/-- The fault of an access to a page that is not there, from ring 0. -/
def notPresent (write : Bool) : PageFault := ⟨false, write, false, false, false⟩

end PageFault

/-- An access from ring 0; whether read-only pages are protected from it is
up to `cr0`. -/
def kernelAccess (mem : ByteMemory.Mem) (cr3 : Nat) (writeProtect : Bool)
    (va : Nat) (write : Bool) : Option PageFault :=
  if (mmuWalk mem cr3 va).isNone then some (.notPresent write)
  else if writeProtect ∧ write ∧ ((pageHelper (walkedPde mem cr3 va)).rw = 0 ∨
      (pageHelper (walkedPte mem cr3 va)).rw = 0) then
    some ⟨true, true, false, false, false⟩
  else none

/-- `void page_fault(pt_regs_t *regs)` up to its endless loop. -/
def pageFault (regs : PtRegs) (cr2 : Word) : List PrintCall :=
  [PrintCall.plain "Page fault at 0x%x, virtual address 0x%x\n"
    [.word regs.eip, .word cr2]] ++
  [PrintCall.plain "Error code : %x\n" [.word regs.errCode]] ++
  (if regs.errCode &&& 0x1 = 0 then
    [PrintCall.red "The page wasn't present.\n"] else []) ++
  (if regs.errCode &&& 0x2 ≠ 0 then [PrintCall.red "Write error.\n"]
    else [PrintCall.red "Read error.\n"]) ++
  (if regs.errCode &&& 0x4 ≠ 0 then [PrintCall.red "User mode.\n"]
    else [PrintCall.red "Kernel mode.\n"]) ++
  (if regs.errCode &&& 0x8 ≠ 0 then
    [PrintCall.red "Reserved bits being overwritten.\n"] else []) ++
  (if regs.errCode &&& 0x10 ≠ 0 then
    [PrintCall.red "The fault occurred during an instruction fetch.\n"]
    else [])

/-! ## The report -/

namespace PageFault

variable (fault : PageFault)

def place (eip address : Word) : List Char :=
  "Page fault at 0x".toList ++ (hexText eip ++
    (", virtual address 0x".toList ++ (hexText address ++ "\n".toList)))

def code : List Char :=
  "Error code : ".toList ++ (hexText fault.errorCode ++ "\n".toList)

def kind : List Char :=
  (if !fault.protection then "The page wasn't present.\n".toList else []) ++
  (if fault.write then "Write error.\n".toList
    else "Read error.\n".toList) ++
  (if fault.user then "User mode.\n".toList
    else "Kernel mode.\n".toList) ++
  (if fault.reserved then "Reserved bits being overwritten.\n".toList
    else []) ++
  (if fault.fetch then
    "The fault occurred during an instruction fetch.\n".toList else [])

def report (eip address : Word) : List ColoredChar :=
  colored .black .white (place eip address) ++
    colored .black .white fault.code ++ colored .black .red fault.kind

theorem errorCode_bits :
    (fault.errorCode &&& 0x1 = 0 ↔ (!fault.protection) = true) ∧
    (fault.errorCode &&& 0x2 ≠ 0 ↔ fault.write = true) ∧
    (fault.errorCode &&& 0x4 ≠ 0 ↔ fault.user = true) ∧
    (fault.errorCode &&& 0x8 ≠ 0 ↔ fault.reserved = true) ∧
    (fault.errorCode &&& 0x10 ≠ 0 ↔ fault.fetch = true) := by
  obtain ⟨_ | _, _ | _, _ | _, _ | _, _ | _⟩ := fault <;> decide

end PageFault

section Report

variable {first second : List PrintCall} {yes no : List Char} {c : Prop}
  [Decidable c] {b : Bool}

theorem Reports.choice {back fore : RealColor} (same : c ↔ b = true)
    (set : Reports first (colored back fore yes))
    (unset : Reports second (colored back fore no)) :
    Reports (if c then first else second)
      (colored back fore (if b then yes else no)) := by
  by_cases holds : c
  · rw [if_pos holds, if_pos (same.mp holds)]
    exact set
  · rw [if_neg holds, if_neg (mt same.mpr holds)]
    exact unset

theorem Reports.nothing (back fore : RealColor) :
    Reports [] (colored back fore []) :=
  .nil

theorem Reports.red {format : String} (plain : Literal format.toList)
    (short : format.toList.length < bufferSize) :
    Reports [.red format] (colored .black .red format.toList) :=
  (Renders.constant plain).reports short .black .red

theorem pageFault_place (eip address : Word) :
    Renders "Page fault at 0x%x, virtual address 0x%x\n".toList
      [.word eip, .word address] (PageFault.place eip address) 101 := by
  have format : "Page fault at 0x%x, virtual address 0x%x\n".toList =
      "Page fault at 0x".toList ++ '%' :: 'x' ::
        (", virtual address 0x".toList ++ '%' :: 'x' :: "\n".toList) := by
    decide
  have last := Renders.constant (show Literal "\n".toList by decide)
  have second := (last.hex address).literal
    (show Literal ", virtual address 0x".toList by decide)
  rw [format]
  exact (second.hex eip).literal
    (show Literal "Page fault at 0x".toList by decide)

theorem pageFault_code (fault : PageFault) :
    Renders "Error code : %x\n".toList [.word fault.errorCode] fault.code
      46 := by
  have last := Renders.constant (show Literal "\n".toList by decide)
  exact (last.hex fault.errorCode).literal
    (show Literal "Error code : ".toList by decide)

/-- The lines about the error code say what the fault is. -/
theorem pageFault_reports (fault : PageFault) {regs : PtRegs} (address : Word)
    (errCode : regs.errCode = fault.errorCode) :
    Reports (pageFault regs address) (fault.report regs.eip address) := by
  obtain ⟨protection, write, user, reserved, fetch⟩ := fault.errorCode_bits
  have place := (pageFault_place regs.eip address).plain (by decide)
  have code := (pageFault_code fault).plain (by decide)
  have kind₁ := Reports.choice protection
    (.red (show Literal "The page wasn't present.\n".toList by decide)
      (by decide)) (.nothing _ _)
  have kind₂ := Reports.choice write
    (.red (show Literal "Write error.\n".toList by decide) (by decide))
    (.red (show Literal "Read error.\n".toList by decide) (by decide))
  have kind₃ := Reports.choice user
    (.red (show Literal "User mode.\n".toList by decide) (by decide))
    (.red (show Literal "Kernel mode.\n".toList by decide) (by decide))
  have kind₄ := Reports.choice reserved
    (.red (show Literal "Reserved bits being overwritten.\n".toList by
      decide) (by decide)) (.nothing _ _)
  have kind₅ := Reports.choice fetch
    (.red (show Literal
      "The fault occurred during an instruction fetch.\n".toList by
        decide) (by decide)) (.nothing _ _)
  have lines := (((((place.append code).append kind₁).append kind₂).append
    kind₃).append kind₄).append kind₅
  rw [pageFault, PageFault.report, PageFault.kind, errCode]
  simp only [colored_append, ← List.append_assoc]
  exact lines

end Report

/-! ## From the access to the report -/

section Access

variable {img : KernelImage} {frames : List Nat} {k : Kernel} {va : Nat}

/-- What is mapped: the direct map but for page 0, and the heap. -/
theorem HeapPaging.pteOf_iff (paging : HeapPaging img frames k)
    (small : va < 4294967296) :
    pteOf img.pgdKern k.mem va ≠ 0 ↔
      pageOffset + pageSize ≤ va ∧ va < k.heapMax := by
  have lower := paging.heapMax_lower
  simp only [heapStart] at lower
  by_cases high : heapStart ≤ va
  · by_cases inside : va < k.heapMax
    · rw [paging.mapped va high inside]
      simp only [heapStart, pageOffset, pageSize] at *
      omega
    · rw [paging.unmapped va (Nat.le_of_not_lt inside) small]
      simp [inside]
  · rw [paging.direct va (Nat.lt_of_not_le high), directPte]
    simp only [heapStart, pageOffset, pageSize, pmmMaxSize] at *
    split <;> omega

theorem HeapPaging.writable (paging : HeapPaging img frames k)
    (small : va < 4294967296) (mapped : pteOf img.pgdKern k.mem va ≠ 0) :
    (pageHelper (walkedPde k.mem (img.pgdKern - pageOffset) va)).rw = 1 ∧
      (pageHelper (walkedPte k.mem (img.pgdKern - pageOffset) va)).rw = 1 := by
  have bound : pgdIndex va < pgdSize := pgdIndex_lt va
  have present : tableOf img.pgdKern k.mem (pgdIndex va) ≠ 0 := by
    intro missing
    exact mapped (by rw [pteOf, if_pos missing])
  have tableAligned := (paging.tables.isFrame bound present).1
  have frameAligned := roundDown_mod (pteOf img.pgdKern k.mem va) pageSize
  have pde : walkedPde k.mem (img.pgdKern - pageOffset) va =
      tableOf img.pgdKern k.mem (pgdIndex va) + 3 :=
    paging.table_entry bound present
  have pte : walkedPte k.mem (img.pgdKern - pageOffset) va =
      frameAt img.pgdKern k.mem va + 3 := by
    rw [← (paging.entry_cases small).resolve_left mapped, pteOf,
      if_neg present]
    rfl
  rw [pde, pte, frameAt]
  simp only [pageHelper, pageSize] at *
  omega

/-- The kernel's accesses fault outside of what is mapped and nowhere else. -/
theorem HeapPaging.kernelAccess_eq (paging : HeapPaging img frames k)
    (small : va < 4294967296) (writeProtect write : Bool) :
    kernelAccess k.mem (img.pgdKern - pageOffset) writeProtect va write =
      if pageOffset + pageSize ≤ va ∧ va < k.heapMax then none
      else some (.notPresent write) := by
  have inside := paging.pteOf_iff small
  rw [kernelAccess, paging.mmuWalk_eq small]
  by_cases mapped : pteOf img.pgdKern k.mem va = 0
  · rw [if_pos mapped, if_neg (mt inside.mpr (not_not_intro mapped))]
    rfl
  · obtain ⟨pde, pte⟩ := paging.writable small mapped
    rw [if_neg mapped, if_pos (inside.mp mapped), pde, pte]
    simp

end Access

section Delivery

variable {labels : Labels} {code : Code}

/-- A page fault reaches `page_fault` with its place and its error code. -/
theorem Assembled.pageFault_called (assembled : Assembled labels code)
    (handlers : KernelHandlers) (errorCode eip : Word) (cpu : State) :
    ∃ gate called, (initIdt labels.isr 14).gate = some gate ∧
      Steps code (interrupt gate (some errorCode) (eip, cpu))
        (labels.isrHandler, called) ∧
      let regs := ptRegsAt called.mem (argument called)
      isrHandlerWrites regs.intNo = [] ∧
      isrHandlerDispatch handlers.table regs.intNo =
        .call handlers.pageFault regs.intNo ∧
      regs.errCode = errorCode ∧ regs.eip = eip := by
  obtain ⟨saved, behind, ds, called, steps, here⟩ :=
    assembled.handlerCalled (show Stub.errCode 14 ∈ idtasmStubs by decide)
      errorCode eip cpu
  have frame :=
    interruptFrame_of_holds here.registers here.low here.frame
  have nonnull := handlers.page_ne
  refine ⟨⟨labels.isr 14, 0x08⟩, called, ?_, steps, ?_, ?_, frame.errCode,
    frame.eip⟩
  · rw [initIdt_gate, if_pos (by decide)]
  · rw [frame.intNo]
    decide
  · have entry : handlers.table 14 = handlers.pageFault := rfl
    rw [frame.intNo, isrHandlerDispatch]
    change (if handlers.table 14 ≠ 0 then _ else _) = _
    rw [entry, if_pos nonnull]
    rfl

end Delivery

/-- In every run of the kernel its own accesses fault exactly outside the
direct map and the heap, or at page 0.  The fault reaches `page_fault`, and the
screen says where it was, that nothing was mapped there, and whether it was a
write. -/
theorem wild_access_reported (img : KernelImage) (frames : List Nat)
    (usable : ∀ frame ∈ frames, UsableFrame img frame)
    (distinct : frames.Nodup) {kernStack idle kthreadExit : Nat}
    (stack : KernStackInImage img kernStack idle) {created : List Nat}
    {live : List Block} {s : ThreadState}
    (run : KernelRun img frames kernStack idle kthreadExit created live s)
    {labels : Labels} {code : Code} (assembled : Assembled labels code)
    (handlers : KernelHandlers) (writeProtect write : Bool) {va : Nat}
    (small : va < 4294967296) :
    (kernelAccess s.kernel.mem s.cpu.cr3 writeProtect va write = none ↔
      pageOffset + pageSize ≤ va ∧ va < s.kernel.heapMax) ∧
    ∀ fault, kernelAccess s.kernel.mem s.cpu.cr3 writeProtect va write =
        some fault →
      fault = .notPresent write ∧
      ∀ (eip : Word) (cpu : State) (screen : Console) (t : Terminal),
        Shows screen t → ∃ gate called screen',
          (initIdt labels.isr 14).gate = some gate ∧
          Steps code (interrupt gate (some fault.errorCode) (eip, cpu))
            (labels.isrHandler, called) ∧
          let regs := ptRegsAt called.mem (argument called)
          isrHandlerWrites regs.intNo = [] ∧
          isrHandlerDispatch handlers.table regs.intNo =
            .call handlers.pageFault regs.intNo ∧
          runCalls (pageFault regs (BitVec.ofNat 32 va)) screen =
            some screen' ∧
          Shows screen'
            (t.type (fault.report eip (BitVec.ofNat 32 va))) := by
  obtain ⟨state, -⟩ := run.invariant stack usable distinct
  obtain ⟨chunks, heap, -⟩ := state.heap
  rw [state.cr3, heap.paging.kernelAccess_eq small]
  constructor
  · split <;> simp [*]
  intro fault raised
  refine ⟨?_, ?_⟩
  · split at raised
    · cases raised
    · exact (Option.some.inj raised).symm
  intro eip cpu screen t shows
  obtain ⟨gate, called, present, steps, writes, dispatch, errCode, place⟩ :=
    assembled.pageFault_called handlers fault.errorCode eip cpu
  obtain ⟨screen', printed, shows'⟩ :=
    pageFault_reports fault (BitVec.ofNat 32 va) errCode shows
  rw [place] at shows'
  exact ⟨gate, called, screen', present, steps, writes, dispatch, printed,
    shows'⟩

/-! ### A null pointer -/

def blankScreen : Console := consoleClear ⟨⟨fun _ => 0, []⟩, 0, 0, []⟩

/-- A store through a null pointer after `init_sched`. -/
theorem wild_access_reported_null :
    ∃ (s : ThreadState) (called : State) (screen : Console),
      kernelAccess s.kernel.mem s.cpu.cr3 false 0 true =
        some (.notPresent true) ∧
      runCalls (pageFault (ptRegsAt called.mem (argument called)) 0)
        blankScreen = some screen ∧
      Shows screen (Terminal.clear.type
        ((PageFault.notPresent true).report 0xC0100500 0)) := by
  have distinct : threadFrames.Nodup := by decide
  have heap := HeapState.boot threadFrames_usable distinct threadBoot_started
  have sees : SeesThreads sampleImage threadFrames 0xC0180000
      threadBoot.kernel.heapMax threadBoot
      (schedOf sampleImage 0xC0180000 threadBoot) :=
    ⟨heap.paging, rfl, rfl, rfl⟩
  obtain ⟨s, returned, -, -⟩ := initSchedPaged_computes sampleStack.inImage
    sees sampleStack.atIdle sampleImage.pgdKern
  have run : KernelRun sampleImage threadFrames 0xC0180000 0xC0180000
      0xC0100500 [] [] s := .start threadBoot_started rfl rfl returned
  obtain ⟨faults, reported⟩ := wild_access_reported sampleImage threadFrames
    threadFrames_usable distinct sampleStack run exampleCode_assembled
    sampleHandlers false true (show 0 < 4294967296 by decide)
  obtain ⟨fault, raised⟩ := Option.ne_none_iff_exists'.mp
    (mt faults.mp fun inside => absurd inside.1 (by decide))
  obtain ⟨rfl, shown⟩ := reported fault raised
  obtain ⟨gate, called, screen, -, -, -, -, printed, shows⟩ :=
    shown 0xC0100500 exampleState blankScreen .clear (consoleClear_shows rfl)
  exact ⟨s, called, screen, raised, printed, shows⟩

end MiniOS
