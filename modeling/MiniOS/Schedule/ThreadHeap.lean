import MiniOS.Schedule.ThreadMemory

/-!
# The scheduler on the kernel heap

`kernel_thread`, `schedule` and `init_sched` with the real `kmalloc` and with
every access through the page tables.  They do what the routines of `Sched` do
on the memory that `threadMem` shows; so the ring of threads and the heap hold
together, whatever clients of the heap do in between.
-/

namespace MiniOS

open ByteMemory Tiling

/-! ## The routines -/

section Routines

variable (idle pgdKern : Nat)

def setProcNamePaged (proc : Nat) (name : List UInt8) : ThreadM Unit := do
  clearBytes idle (proc + nameOffset) (procNameLen + 1)
  copyString idle (proc + nameOffset) name

def initSchedPaged (kernStack : Nat) : ThreadM Unit := do
  let current := idleProc kernStack
  modify fun s => { s with current := current }
  writeWord idle (current + stateOffset) taskRunnable
  let s ← get
  modify fun s => { s with nowPid := uint32 (s.nowPid + 1) }
  writeWord idle (current + pidOffset) s.nowPid
  setProcNamePaged idle current (literal "idleproc")
  writeWord idle (current + cr3Offset) (pgdKern - pageOffset)
  writeWord idle (current + kstackOffset) (kernStack + stackSize)
  writeWord idle (current + nextOffset) current
  writeWord idle (current + prevOffset) current
  modify fun s => { s with runningProcHead := current }

def switchToPaged (prev next : Nat) : ThreadM Unit := do
  let s ← get
  writeWord idle prev s.cpu.esp
  writeWord idle (prev + 4) s.cpu.ebp
  writeWord idle (prev + 8) s.cpu.ebx
  writeWord idle (prev + 12) s.cpu.esi
  writeWord idle (prev + 16) s.cpu.edi
  writeWord idle (prev + 20) s.cpu.eflags
  let esp ← readWord idle next
  let ebp ← readWord idle (next + 4)
  let ebx ← readWord idle (next + 8)
  let esi ← readWord idle (next + 12)
  let edi ← readWord idle (next + 16)
  let eflags ← readWord idle (next + 20)
  modify fun s => { s with
    cpu := { s.cpu with
      esp := esp, ebp := ebp, ebx := ebx, esi := esi, edi := edi
      eflags := eflags } }

def changeTaskToPaged (next : Nat) : ThreadM Unit := do
  let s ← get
  if s.current ≠ next then
    let prev := s.current
    modify fun s => { s with current := next }
    let kstack ← readWord idle (next + kstackOffset)
    modify fun s => { s with cpu := { s.cpu with esp0 := kstack } }
    -- `switch_pgd`: from here on accesses go through the directory of `next`.
    let cr3 ← readWord idle (next + cr3Offset)
    modify fun s => { s with cpu := { s.cpu with cr3 := cr3 } }
    switchToPaged idle (prev + contextOffset) (next + contextOffset)

def schedulePaged : ThreadM Unit := do
  let s ← get
  if s.current ≠ 0 then
    let next ← readWord idle (s.current + nextOffset)
    changeTaskToPaged idle next

section KernelThread

variable (fn kthreadExit arg : Nat)

def fillProcPaged (newProc : Nat) : ThreadM Unit := do
  clearBytes idle newProc procSize
  writeWord idle (newProc + cr3Offset) (pgdKern - pageOffset)
  writeWord idle (newProc + stateOffset) taskRunnable
  let s ← get
  modify fun s => { s with nowPid := uint32 (s.nowPid + 1) }
  writeWord idle (newProc + pidOffset) s.nowPid
  setProcNamePaged idle newProc (literal "")
  writeWord idle (newProc + kstackOffset) (newProc + stackSize)
  let stackTop := newProc + stackSize
  writeWord idle (stackTop - 4) arg
  writeWord idle (stackTop - 8) kthreadExit
  writeWord idle (stackTop - 12) fn
  writeWord idle (newProc + contextOffset) (newProc + stackSize - 3 * 4)
  writeWord idle (newProc + contextOffset + 20) 0x200

def linkProcPaged (newProc : Nat) : ThreadM Unit := do
  let s ← get
  let head := s.runningProcHead
  writeWord idle (newProc + nextOffset) head
  let prev ← readWord idle (head + prevOffset)
  writeWord idle (newProc + prevOffset) prev
  let prev ← readWord idle (head + prevOffset)
  writeWord idle (prev + nextOffset) newProc
  writeWord idle (head + prevOffset) newProc

/-- `kernel_thread(fn, arg)` behind its assertion. -/
def startProcPaged (newProc : Nat) : ThreadM Nat := do
  fillProcPaged idle pgdKern fn kthreadExit arg newProc
  linkProcPaged idle newProc
  readWord idle (newProc + pidOffset)

def kernelThreadPaged : ThreadM Nat := do
  let newProc ← onKernel (kmalloc pgdKern stackSize)
  if newProc ≠ 0 then
    startProcPaged idle pgdKern fn kthreadExit arg newProc
  else throw (.panic "kernel_thread : kmalloc error\n")

end KernelThread

end Routines

/-! ## They compute what the routines of `Sched` compute -/

section Computes

variable {img : KernelImage} {frames : List Nat} {idle top : Nat}
variable {s : ThreadState} {t : Sched} {mem : Mem}
variable {nowPid runningProcHead current : Nat} {cpu : Cpu}

theorem static_computes (sees : SeesThreads img frames idle top s t)
    {change : ThreadState → ThreadState} {t' : Sched}
    (kernel : (change s).kernel = s.kernel)
    (cr3 : (change s).cpu.cr3 = img.pgdKern - pageOffset)
    (shown : schedOf img idle (change s) = t') :
    (threadView img frames idle top).Computes s
      (modify change : ThreadM PUnit) ⟨⟩ t' := by
  refine .modify ⟨?_, ?_, ?_⟩ ⟨?_, ?_, cr3, shown⟩
  · rw [kernel]
    exact .refl img s.kernel
  · rw [kernel]
  · rw [kernel]
  · rw [kernel]
    exact sees.paging
  · rw [kernel]
    exact sees.heapMax

section Statics

variable (sees : SeesThreads img frames idle top s
  ⟨mem, nowPid, runningProcHead, current, cpu⟩)
include sees

theorem SeesThreads.statics :
    s.nowPid = nowPid ∧ s.runningProcHead = runningProcHead ∧
      s.current = current ∧ s.cpu = cpu := by
  have shown := sees.shown
  simp only [schedOf, Sched.mk.injEq] at shown
  exact shown.2

theorem nextPid_computes :
    (threadView img frames idle top).Computes s
      (modify fun s => { s with nowPid := uint32 (s.nowPid + 1) } :
        ThreadM PUnit) ⟨⟩
      ⟨mem, uint32 (nowPid + 1), runningProcHead, current, cpu⟩ := by
  have shown := sees.shown
  simp only [schedOf, Sched.mk.injEq] at shown
  obtain ⟨rfl, rfl, rfl, rfl, rfl⟩ := shown
  exact static_computes sees rfl sees.cr3 rfl

theorem setCurrent_computes (next : Nat) :
    (threadView img frames idle top).Computes s
      (modify fun s => { s with current := next } : ThreadM PUnit) ⟨⟩
      ⟨mem, nowPid, runningProcHead, next, cpu⟩ := by
  have shown := sees.shown
  simp only [schedOf, Sched.mk.injEq] at shown
  obtain ⟨rfl, rfl, rfl, rfl, rfl⟩ := shown
  exact static_computes sees rfl sees.cr3 rfl

theorem setHead_computes (head : Nat) :
    (threadView img frames idle top).Computes s
      (modify fun s => { s with runningProcHead := head } : ThreadM PUnit) ⟨⟩
      ⟨mem, nowPid, head, current, cpu⟩ := by
  have shown := sees.shown
  simp only [schedOf, Sched.mk.injEq] at shown
  obtain ⟨rfl, rfl, rfl, rfl, rfl⟩ := shown
  exact static_computes sees rfl sees.cr3 rfl

theorem setCpu_computes (change : Cpu → Cpu)
    (cr3 : (change cpu).cr3 = img.pgdKern - pageOffset) :
    (threadView img frames idle top).Computes s
      (modify fun s => { s with cpu := change s.cpu } : ThreadM PUnit) ⟨⟩
      ⟨mem, nowPid, runningProcHead, current, change cpu⟩ := by
  have shown := sees.shown
  simp only [schedOf, Sched.mk.injEq] at shown
  obtain ⟨rfl, rfl, rfl, rfl, rfl⟩ := shown
  exact static_computes sees rfl cr3 rfl

theorem setProcNamePaged_computes (inImage : IdleInImage img idle) {proc : Nat}
    {name : List UInt8} (fits : name.length ≤ procNameLen)
    (inside : InBlock idle top proc procSize) :
    (threadView img frames idle top).Computes s
      (setProcNamePaged idle proc name) ()
      ⟨setProcName mem proc name, nowPid, runningProcHead, current, cpu⟩ := by
  unfold setProcNamePaged
  refine (clearBytes_computes inImage sees _ (inside.part (by decide))).bind
    fun s₁ _ sees₁ => ?_
  refine copyString_computes inImage sees₁ _ (inside.part ?_)
  simp only [nameOffset, procNameLen, procSize] at *
  omega

end Statics

theorem initSchedPaged_computes (inImage : IdleInImage img idle)
    (sees : SeesThreads img frames idle top s t) {kernStack : Nat}
    (atIdle : idleProc kernStack = idle) (pgdKern : Nat) :
    (threadView img frames idle top).Computes s
      (initSchedPaged idle pgdKern kernStack) ()
      (initSched kernStack pgdKern t) := by
  obtain ⟨mem, nowPid, runningProcHead, current, cpu⟩ := t
  have inside : InBlock idle top idle procSize := by
    refine .inl ⟨Nat.le_refl _, ?_⟩
    simp only [procSize, stackSize]
    omega
  simp only [initSchedPaged, initSched, atIdle]
  refine (setCurrent_computes sees idle).bind fun s₁ _ sees₁ => ?_
  refine (writeWord_computes inImage sees₁ _ (inside.part (by decide))).bind
    fun s₂ _ sees₂ => ?_
  apply StateView.Computes.get
  rw [sees₂.statics.1]
  refine (nextPid_computes sees₂).bind fun s₃ _ sees₃ => ?_
  refine (writeWord_computes inImage sees₃ _ (inside.part (by decide))).bind
    fun s₄ _ sees₄ => ?_
  refine (setProcNamePaged_computes sees₄ inImage literal_idleproc_length
    inside).bind fun s₅ _ sees₅ => ?_
  refine (writeWord_computes inImage sees₅ _ (inside.part (by decide))).bind
    fun s₆ _ sees₆ => ?_
  refine (writeWord_computes inImage sees₆ _ (inside.part (by decide))).bind
    fun s₇ _ sees₇ => ?_
  refine (writeWord_computes inImage sees₇ _ (inside.part (by decide))).bind
    fun s₈ _ sees₈ => ?_
  refine (writeWord_computes inImage sees₈ _ (inside.part (by decide))).bind
    fun s₉ _ sees₉ => ?_
  exact setHead_computes sees₉ idle

section Switch

variable (inImage : IdleInImage img idle)
include inImage

theorem switchToPaged_computes (sees : SeesThreads img frames idle top s t)
    {prev next : Nat} (prevInside : InBlock idle top prev 24)
    (nextInside : InBlock idle top next 24) :
    (threadView img frames idle top).Computes s
      (switchToPaged idle prev next) () (switchTo prev next t) := by
  obtain ⟨mem, nowPid, runningProcHead, current, cpu⟩ := t
  unfold switchToPaged switchTo
  apply StateView.Computes.get
  rw [sees.statics.2.2.2]
  refine (writeWord_computes inImage sees _
    (prevInside.front (by decide))).bind fun s₁ _ sees₁ => ?_
  refine (writeWord_computes inImage sees₁ _
    (prevInside.part (by decide))).bind fun s₂ _ sees₂ => ?_
  refine (writeWord_computes inImage sees₂ _
    (prevInside.part (by decide))).bind fun s₃ _ sees₃ => ?_
  refine (writeWord_computes inImage sees₃ _
    (prevInside.part (by decide))).bind fun s₄ _ sees₄ => ?_
  refine (writeWord_computes inImage sees₄ _
    (prevInside.part (by decide))).bind fun s₅ _ sees₅ => ?_
  refine (writeWord_computes inImage sees₅ _
    (prevInside.part (by decide))).bind fun s₆ _ sees₆ => ?_
  refine (readWord_computes inImage sees₆
    (nextInside.front (by decide))).bind fun s₇ _ sees₇ => ?_
  refine (readWord_computes inImage sees₇
    (nextInside.part (by decide))).bind fun s₈ _ sees₈ => ?_
  refine (readWord_computes inImage sees₈
    (nextInside.part (by decide))).bind fun s₉ _ sees₉ => ?_
  refine (readWord_computes inImage sees₉
    (nextInside.part (by decide))).bind fun s₁₀ _ sees₁₀ => ?_
  refine (readWord_computes inImage sees₁₀
    (nextInside.part (by decide))).bind fun s₁₁ _ sees₁₁ => ?_
  refine (readWord_computes inImage sees₁₁
    (nextInside.part (by decide))).bind fun s₁₂ _ sees₁₂ => ?_
  have cr3 := sees.cr3
  rw [sees.statics.2.2.2] at cr3
  exact setCpu_computes sees₁₂ (fun cpu => ⟨_, _, _, _, _, _, cpu.cr3,
    cpu.esp0⟩) cr3

/-- All threads run in the directory of the kernel, so that the new directory
shows the same memory. -/
theorem changeTaskToPaged_computes (sees : SeesThreads img frames idle top s t)
    {next : Nat} (currentInside : InBlock idle top t.current procSize)
    (nextInside : InBlock idle top next procSize)
    (directory : load32 t.mem (next + cr3Offset) =
      img.pgdKern - pageOffset) :
    (threadView img frames idle top).Computes s (changeTaskToPaged idle next) ()
      (changeTaskTo next t) := by
  obtain ⟨mem, nowPid, runningProcHead, current, cpu⟩ := t
  unfold changeTaskToPaged changeTaskTo
  apply StateView.Computes.get
  rw [sees.statics.2.2.1]
  split
  · refine (setCurrent_computes sees next).bind fun s₁ _ sees₁ => ?_
    refine (readWord_computes inImage sees₁
      (nextInside.part (by decide))).bind fun s₂ _ sees₂ => ?_
    have cr3 := sees₂.cr3
    rw [sees₂.statics.2.2.2] at cr3
    refine (setCpu_computes sees₂ (fun cpu => { cpu with
      esp0 := load32 mem (next + kstackOffset) }) cr3).bind
      fun s₃ _ sees₃ => ?_
    refine (readWord_computes inImage sees₃
      (nextInside.part (by decide))).bind fun s₄ _ sees₄ => ?_
    refine (setCpu_computes sees₄ (fun cpu => { cpu with
      cr3 := load32 mem (next + cr3Offset) }) directory).bind
      fun s₅ _ sees₅ => ?_
    exact switchToPaged_computes inImage sees₅ (currentInside.part (by decide))
      (nextInside.part (by decide))
  · exact .pure sees ()

theorem schedulePaged_computes (sees : SeesThreads img frames idle top s t)
    (currentInside : InBlock idle top t.current procSize)
    (nextInside : InBlock idle top (procNext t.mem t.current) procSize)
    (directory : load32 t.mem (procNext t.mem t.current + cr3Offset) =
      img.pgdKern - pageOffset) :
    (threadView img frames idle top).Computes s (schedulePaged idle) ()
      (schedule t) := by
  obtain ⟨mem, nowPid, runningProcHead, current, cpu⟩ := t
  unfold schedulePaged schedule
  apply StateView.Computes.get
  rw [sees.statics.2.2.1]
  split
  · refine (readWord_computes inImage sees
      (currentInside.part (by decide))).bind fun s₁ _ sees₁ => ?_
    exact changeTaskToPaged_computes inImage sees₁ currentInside nextInside
      directory
  · exact .pure sees ()

end Switch

section NewThread

variable (inImage : IdleInImage img idle)
include inImage

theorem fillProcPaged_computes (sees : SeesThreads img frames idle top s t)
    {newProc : Nat} (pgdKern fn kthreadExit arg : Nat)
    (inside : InBlock idle top newProc stackSize) :
    (threadView img frames idle top).Computes s
      (fillProcPaged idle pgdKern fn kthreadExit arg newProc) ()
      (fillProc pgdKern fn kthreadExit arg newProc t) := by
  obtain ⟨mem, nowPid, runningProcHead, current, cpu⟩ := t
  have word : ∀ offset, 4 ≤ offset → offset ≤ stackSize →
      InBlock idle top (newProc + stackSize - offset) 4 := by
    intro offset lower upper
    rw [Nat.add_sub_assoc upper]
    exact inside.part (by omega)
  unfold fillProcPaged fillProc
  refine (clearBytes_computes inImage sees _ (inside.front (by decide))).bind
    fun s₁ _ sees₁ => ?_
  refine (writeWord_computes inImage sees₁ _ (inside.part (by decide))).bind
    fun s₂ _ sees₂ => ?_
  refine (writeWord_computes inImage sees₂ _ (inside.part (by decide))).bind
    fun s₃ _ sees₃ => ?_
  apply StateView.Computes.get
  rw [sees₃.statics.1]
  refine (nextPid_computes sees₃).bind fun s₄ _ sees₄ => ?_
  refine (writeWord_computes inImage sees₄ _ (inside.part (by decide))).bind
    fun s₅ _ sees₅ => ?_
  refine (setProcNamePaged_computes sees₅ inImage (by decide)
    (inside.front (by decide))).bind fun s₆ _ sees₆ => ?_
  refine (writeWord_computes inImage sees₆ _ (inside.part (by decide))).bind
    fun s₇ _ sees₇ => ?_
  refine (writeWord_computes inImage sees₇ _
    (word 4 (by decide) (by decide))).bind fun s₈ _ sees₈ => ?_
  refine (writeWord_computes inImage sees₈ _
    (word 8 (by decide) (by decide))).bind fun s₉ _ sees₉ => ?_
  refine (writeWord_computes inImage sees₉ _
    (word 12 (by decide) (by decide))).bind fun s₁₀ _ sees₁₀ => ?_
  refine (writeWord_computes inImage sees₁₀ _ (inside.part (by decide))).bind
    fun s₁₁ _ sees₁₁ => ?_
  have fits : contextOffset + 20 + 4 ≤ stackSize := by decide
  have eflags : InBlock idle top (newProc + contextOffset + 20) 4 := by
    rw [Nat.add_assoc]
    exact inside.part fits
  exact writeWord_computes inImage sees₁₁ _ eflags

theorem linkProcPaged_computes (sees : SeesThreads img frames idle top s t)
    {newProc tail : Nat} (apart : PcbsApart newProc t.runningProcHead)
    (tailPrev : procPrev t.mem t.runningProcHead = tail)
    (inside : InBlock idle top newProc procSize)
    (headInside : InBlock idle top t.runningProcHead procSize)
    (tailInside : InBlock idle top tail procSize) :
    (threadView img frames idle top).Computes s (linkProcPaged idle newProc) ()
      (linkProc newProc t) := by
  have final := linkProc_mem apart tailPrev
  obtain ⟨mem, nowPid, runningProcHead, current, cpu⟩ := t
  have shown : linkProc newProc
      ⟨mem, nowPid, runningProcHead, current, cpu⟩ =
        ⟨_, nowPid, runningProcHead, current, cpu⟩ :=
    congrArg (Sched.mk · nowPid runningProcHead current cpu) final
  simp only [PcbsApart, RangesApart, procSize] at apart
  have before : load32 (store32 mem (newProc + nextOffset) runningProcHead)
      (runningProcHead + prevOffset) = tail := by
    rw [← tailPrev]
    apply load32_store32_disjoint
    simp only [nextOffset, prevOffset]
    omega
  have after : load32 (store32 (store32 mem (newProc + nextOffset)
      runningProcHead) (newProc + prevOffset) tail)
      (runningProcHead + prevOffset) = tail := by
    rw [← before]
    apply load32_store32_disjoint
    simp only [prevOffset]
    omega
  rw [shown]
  unfold linkProcPaged
  apply StateView.Computes.get
  rw [sees.statics.2.1]
  refine (writeWord_computes inImage sees _ (inside.part (by decide))).bind
    fun s₁ _ sees₁ => ?_
  refine (readWord_computes inImage sees₁
    (headInside.part (by decide))).bind fun s₂ _ sees₂ => ?_
  rw [before]
  refine (writeWord_computes inImage sees₂ _ (inside.part (by decide))).bind
    fun s₃ _ sees₃ => ?_
  refine (readWord_computes inImage sees₃
    (headInside.part (by decide))).bind fun s₄ _ sees₄ => ?_
  rw [after]
  refine (writeWord_computes inImage sees₄ _
    (tailInside.part (by decide))).bind fun s₅ _ sees₅ => ?_
  exact writeWord_computes inImage sees₅ _ (headInside.part (by decide))

/-- The first thread in the ring and the last one take the links. -/
theorem startProcPaged_computes (sees : SeesThreads img frames idle top s t)
    {newProc tail : Nat} (pgdKern fn kthreadExit arg : Nat)
    (apart : RangesApart newProc stackSize t.runningProcHead procSize)
    (tailPrev : procPrev t.mem t.runningProcHead = tail)
    (inside : InBlock idle top newProc stackSize)
    (headInside : InBlock idle top t.runningProcHead procSize)
    (tailInside : InBlock idle top tail procSize) :
    (threadView img frames idle top).Computes s
      (startProcPaged idle pgdKern fn kthreadExit arg newProc)
      (procPid (linkProc newProc
        (fillProc pgdKern fn kthreadExit arg newProc t)).mem newProc)
      (linkProc newProc (fillProc pgdKern fn kthreadExit arg newProc t)) := by
  unfold startProcPaged
  refine (fillProcPaged_computes inImage sees pgdKern fn kthreadExit arg
    inside).bind fun s₁ _ sees₁ => ?_
  have kept : procPrev (fillProc pgdKern fn kthreadExit arg newProc t).mem
      t.runningProcHead = tail := by
    rw [← tailPrev]
    apply load32_congr
    intro x lower upper
    apply fillProc_outside
    simp only [RangesApart, procSize, prevOffset, stackSize] at *
    omega
  have pcbs : PcbsApart newProc t.runningProcHead := by
    simp only [PcbsApart, RangesApart, procSize, stackSize] at *
    omega
  refine (linkProcPaged_computes inImage sees₁ pcbs kept
    (inside.front (by decide)) headInside tailInside).bind
    fun s₂ _ sees₂ => ?_
  exact readWord_computes inImage sees₂ (inside.part (by decide))

end NewThread

end Computes

end MiniOS
