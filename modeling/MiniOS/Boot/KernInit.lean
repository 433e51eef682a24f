import MiniOS.Boot.Entry
import MiniOS.Mm.BootSoundness
import MiniOS.Mm.FrameDemand
import MiniOS.Schedule.KernelRun

/-!
# From the memory map to the first thread (`entry.c`)

`kern_init` up to `sti()`, as far as memory and threads are concerned: it
starts on the tables of `kern_entry` and leaves a state from which the runs of
threads and heap clients go on.
-/

namespace MiniOS

open ByteMemory Tiling

section KernInit

variable (img : KernelImage) (idle : Nat)

/-- `void init_vmm()`.  A store that is not mapped comes again and again:
interrupt 14 has no handler yet. -/
def initVmmSwitched : ThreadM Unit := do
  let s ← get
  match initVmmPaged s.cpu.cr3 img.pgdKern img.pteKern s.kernel.mem with
  | none => throw .spin
  | some mem => set { s with
      kernel := { s.kernel with mem := mem }
      cpu := { s.cpu with cr3 := img.pgdKern - pageOffset } }

/-- `init_pmm` to `init_sched` -/
def initMemory (glbMbootPtr : Multiboot) (kernStack : Nat) : ThreadM Unit := do
  onKernel (initPmm glbMbootPtr img.kernEnd)
  initVmmSwitched img
  onKernel initHeap
  initSchedPaged idle img.pgdKern kernStack

/-- `void kern_init()`, without its output. -/
def kernInit (glbMbootPtr : Multiboot) (kernStack taskTty kthreadExit : Nat) :
    ThreadM Nat := do
  initMemory img idle glbMbootPtr kernStack
  let addr2 ← onKernel (kmalloc img.pgdKern 500)
  let addr3 ← onKernel (kmalloc img.pgdKern 5000)
  let addr4 ← onKernel (kmalloc img.pgdKern 50000)
  onKernel (kfree img.pgdKern addr2)
  onKernel (kfree img.pgdKern addr3)
  onKernel (kfree img.pgdKern addr4)
  kernelThreadPaged idle img.pgdKern taskTty kthreadExit 0

end KernInit

/-- `kern_entry` is about to call `kern_init`, with a memory map of `count`
records at `mmap`. -/
structure KernInitEntry (img : KernelImage) (kernStack idle mmap count : Nat)
    (s : ThreadState) : Prop where
  low : LowImage img
  tables : TmpTables s.kernel.mem
  cr3 : s.cpu.cr3 = pgdTmp
  zero : img.BssZero s.kernel.mem
  stack : KernStackInImage img kernStack idle
  heapMax : s.kernel.heapMax = heapStart
  nowPid : s.nowPid = 0
  map : BootMap s.kernel img.kernEnd mmap count
  mapped : mmap + mmapEntrySize * count ≤ 4194304
  below : Below4G (mmapRecords s.kernel.mem mmap count)
  within : WithinLimit (img.kernEnd - pageOffset)
    (mmapRecords s.kernel.mem mmap count)

def bootFrames (img : KernelImage) (mem : Mem) (mmap count : Nat) : List Nat :=
  (namedFrames (img.kernEnd - pageOffset) (mmapRecords mem mmap count)).reverse

theorem onKernel_of_ok {α : Type} {routine : KernelM α} {s : ThreadState}
    {a : α} {k : Kernel} (returned : routine s.kernel = .ok a k) :
    onKernel routine s = .ok a { s with kernel := k } := by
  simp only [onKernel, returned]

theorem onKernel_of_error {α : Type} {routine : KernelM α} {s : ThreadState}
    {stop : Stop} {k : Kernel} (stopped : routine s.kernel = .error stop k) :
    onKernel routine s = .error stop { s with kernel := k } := by
  simp only [onKernel, stopped]

namespace KernInitEntry

variable {img : KernelImage} {kernStack idle mmap count : Nat}
variable {s : ThreadState}

/-! ### Frames -/

theorem frames (entry : KernInitEntry img kernStack idle mmap count s) :
    (bootFrames img s.kernel.mem mmap count).Nodup ∧
      ∀ frame ∈ bootFrames img s.kernel.mem mmap count,
        UsableFrame img frame := by
  obtain ⟨positive, kernel⟩ := entry.map.kernel
  have words : ∀ record ∈ mmapRecords s.kernel.mem mmap count,
      record.Word32 := fun _ => mmapRecords_word count mmap
  have sound := (soundStack_iff words positive kernel entry.map.disjoint).mpr
    (entry.within.suffice words entry.below)
  refine ⟨List.nodup_reverse.mpr sound.once, ?_⟩
  intro frame reversed
  have member := List.mem_reverse.mp reversed
  obtain ⟨record, inRecords, inFrames⟩ := List.mem_flatMap.mp member
  apply UsableFrame.of_kernEnd (sound.aligned frame member)
    (sound.behind_kernel frame member)
  exact Nat.lt_of_lt_of_le (MmapEntry.mem_lowFrames.mp inFrames).2.2.2
    (entry.within.frameEnd_le inRecords inFrames)

theorem initPmm_returns
    (entry : KernInitEntry img kernStack idle mmap count s) :
    ∃ k, initPmm ⟨mmapEntrySize * count, mmap⟩ img.kernEnd s.kernel =
        .ok () k ∧
      k.mem = s.kernel.mem ∧ k.heapMax = heapStart ∧
      k.pmmStack = bootFrames img s.kernel.mem mmap count ∧
      k.phyPageCount = (bootFrames img s.kernel.mem mmap count).length := by
  obtain ⟨distinct, usable⟩ := entry.frames
  have few := frames_few distinct
    (fun frame member => (usable frame member).isFrame.1)
    (fun frame member => (usable frame member).isFrame.2.2)
  rw [bootFrames, List.length_reverse] at few
  refine ⟨_, (initPmm_spec entry.map.fresh img.kernEnd entry.map.fits).1 few,
    rfl, entry.heapMax, pushed_stack entry.map.fresh _, ?_⟩
  rw [bootFrames, List.length_reverse]
  exact (congrArg (· + _) entry.map.fresh.count).trans (Nat.zero_add _)

/-! ### Memory and the idle thread -/

/-- `init_vmm` goes through the tables of `kern_entry`. -/
theorem initVmm_returns
    (entry : KernInitEntry img kernStack idle mmap count s) {k : Kernel}
    (same : k.mem = s.kernel.mem) :
    ∃ s', initVmmSwitched img { s with kernel := k } = .ok () s' ∧
      s'.kernel = { k with mem := initVmm img.pgdKern img.pteKern k.mem } ∧
      s'.cpu.cr3 = img.pgdKern - pageOffset ∧ s'.nowPid = s.nowPid := by
  have filled := (entry.low.initVmmPaged entry.tables).1
  rw [← entry.cr3, ← same] at filled
  refine ⟨{ s with
    kernel := { k with mem := initVmm img.pgdKern img.pteKern k.mem }
    cpu := { s.cpu with cr3 := img.pgdKern - pageOffset } }, ?_, rfl, rfl, rfl⟩
  unfold initVmmSwitched
  generalize initVmm img.pgdKern img.pteKern k.mem = mem at filled
  generalize img.pgdKern - pageOffset = cr3
  change (match initVmmPaged s.cpu.cr3 img.pgdKern img.pteKern k.mem with
    | none => throw Stop.spin
    | some mem => set _ : ThreadM Unit) _ = _
  rw [filled]
  rfl

end KernInitEntry

/-- `init_sched` after boot: nothing is allocated yet. -/
theorem initSched_returns {img : KernelImage} {frames : List Nat}
    {kernStack idle : Nat} {s : ThreadState}
    (stack : KernStackInImage img kernStack idle)
    (usable : ∀ frame ∈ frames, UsableFrame img frame)
    (distinct : frames.Nodup) (booted : AfterBoot img frames s.kernel)
    (all : s.kernel.pmmStack = frames) (first : s.nowPid = 0)
    (cr3 : s.cpu.cr3 = img.pgdKern - pageOffset) (kthreadExit : Nat) :
    ∃ s', initSchedPaged idle img.pgdKern kernStack s = .ok () s' ∧
      KernelRun img frames kernStack idle kthreadExit [] [] s' ∧
      FullHeap img frames s'.kernel [] 0 ∧
      s'.kernel.phyPageCount = s.kernel.phyPageCount := by
  have heap := HeapState.boot usable distinct booted
  have sees : SeesThreads img frames idle s.kernel.heapMax s
      (schedOf img idle s) := ⟨heap.paging, rfl, cr3, rfl⟩
  obtain ⟨s', returned, kept, sees'⟩ := initSchedPaged_computes stack.inImage
    sees stack.atIdle img.pgdKern
  have heap' : HeapState img frames s'.kernel [] := by
    apply heap.of_headers sees'.paging kept.same.heapMax kept.first
    intro chunk member
    cases member
  obtain ⟨atStart, small, aligned, missing⟩ := booted.needsTable
  refine ⟨s', returned, .start booted first cr3 returned, .empty heap'
    (kept.same.heapMax.trans atStart) (kept.same.stack.trans all) ?_,
    kept.count⟩
  rw [kept.same.heapMax]
  refine ⟨small, aligned, ?_⟩
  rw [kept.same.tableOf_eq (pgdIndex_lt _)]
  exact missing

namespace KernInitEntry

variable {img : KernelImage} {kernStack idle mmap count : Nat}
variable {s : ThreadState}

theorem initMemory_returns
    (entry : KernInitEntry img kernStack idle mmap count s)
    (kthreadExit : Nat) :
    ∃ s', initMemory img idle ⟨mmapEntrySize * count, mmap⟩ kernStack s =
        .ok () s' ∧
      KernelRun img (bootFrames img s.kernel.mem mmap count) kernStack idle
        kthreadExit [] [] s' ∧
      FullHeap img (bootFrames img s.kernel.mem mmap count) s'.kernel [] 0 ∧
      s'.kernel.phyPageCount =
        (bootFrames img s.kernel.mem mmap count).length := by
  obtain ⟨distinct, usable⟩ := entry.frames
  obtain ⟨k, collected, same, max, stack, counted⟩ := entry.initPmm_returns
  obtain ⟨s₂, switched, kernel, cr3, nowPid⟩ := entry.initVmm_returns same
  have booted : AfterBoot img (bootFrames img s.kernel.mem mmap count)
      { s₂.kernel with heapFirst := 0 } := by
    rw [kernel]
    exact ⟨k.mem, { k with mem := initVmm img.pgdKern img.pteKern k.mem },
      same ▸ entry.zero, rfl, stack, max, rfl⟩
  have initialised : onKernel initHeap s₂ =
      .ok () { s₂ with kernel := { s₂.kernel with heapFirst := 0 } } := rfl
  have all : s₂.kernel.pmmStack =
      bootFrames img s.kernel.mem mmap count := by
    rw [kernel]
    exact stack
  obtain ⟨s', returned, run, full, kept⟩ := initSched_returns
    (s := { s₂ with kernel := { s₂.kernel with heapFirst := 0 } })
    entry.stack usable distinct booted all (nowPid.trans entry.nowPid) cr3
    kthreadExit
  refine ⟨s', ?_, run, full, ?_⟩
  · unfold initMemory
    rw [Outcome.bind_of_ok (onKernel_of_ok collected),
      Outcome.bind_of_ok switched, Outcome.bind_of_ok initialised]
    exact returned
  · have same : s₂.kernel.phyPageCount = k.phyPageCount := by rw [kernel]
    exact (kept.trans same).trans counted

end KernInitEntry

/-! ### The heap before the first thread -/

section Heap

variable {img : KernelImage} {frames : List Nat}
variable {kernStack idle kthreadExit : Nat} {live : List Block}
variable {s : ThreadState}

theorem KernelRun.kmalloc_full
    (run : KernelRun img frames kernStack idle kthreadExit [] live s)
    {size n : Nat} (full : FullHeap img frames s.kernel live size)
    (low : size + (n + headerSize) ≤ 4194304)
    (small : n + headerSize < 130 * pageSize) :
    (frames.length <
        (size + (n + headerSize) + (pageSize - 1)) / pageSize + 1 ∧
      ∃ s', onKernel (MiniOS.kmalloc img.pgdKern n) s =
        .error (.panic "out of memory") s') ∨
      ∃ s', onKernel (MiniOS.kmalloc img.pgdKern n) s =
          .ok (heapStart + size + headerSize) s' ∧
        KernelRun img frames kernStack idle kthreadExit []
          (⟨heapStart + size + headerSize, n⟩ :: live) s' ∧
        FullHeap img frames s'.kernel
          (⟨heapStart + size + headerSize, n⟩ :: live)
          (size + (n + headerSize)) := by
  rcases full.kmalloc low with ⟨few, k', stopped⟩ | ⟨k', returned, full'⟩
  · exact .inl ⟨few, _, onKernel_of_error stopped⟩
  · right
    obtain ⟨chunks, state, _⟩ := full.heap
    have called : onKernel (MiniOS.kmalloc img.pgdKern n) s = _ :=
      onKernel_of_ok returned
    exact ⟨_, called, run.kmalloc (state.small_request small) called, full'⟩

/-- Freed pages go back to the page stack; with the last block all do but
one. -/
theorem KernelRun.kfree_held
    (stack : KernStackInImage img kernStack idle)
    (usable : ∀ frame ∈ frames, UsableFrame img frame)
    (distinct : frames.Nodup)
    (run : KernelRun img frames kernStack idle kthreadExit [] live s)
    (block : Block) (member : block ∈ live) :
    ∃ s', onKernel (MiniOS.kfree img.pgdKern block.ptr) s = .ok () s' ∧
      KernelRun img frames kernStack idle kthreadExit [] (live.erase block)
        s' ∧
      heapPages s'.kernel + s'.kernel.pmmStack.length =
        heapPages s.kernel + s.kernel.pmmStack.length ∧
      (heapStart + pageSize ≤ s.kernel.heapMax →
        heapStart + pageSize ≤ s'.kernel.heapMax) ∧
      (live.erase block = [] → HeapState img frames s'.kernel [] ∧
        s'.kernel.heapMax ≤ heapStart + pageSize) := by
  obtain ⟨⟨⟨chunks, state, held⟩, _, _⟩, _⟩ :=
    run.invariant stack usable distinct
  obtain ⟨k', chunks', returned, freed, _, held'⟩ :=
    state.kfree_block (held.perm (List.perm_cons_erase member))
  have called : onKernel (MiniOS.kfree img.pgdKern block.ptr) s = _ :=
    onKernel_of_ok returned
  have counted := congrArg List.length freed.releases.frames
  simp only [List.length_append, heapFrames, List.length_map,
    List.length_range] at counted
  have max := freed.heapMax_eq
  have lower : heapStart ≤ endOf heapStart chunks' :=
    freed.state.canonical.tiles.base_le
  refine ⟨_, called, run.kfree member called, counted, ?_, ?_⟩
  · intro page
    simp only [max, roundDown, heapStart, pageSize] at *
    omega
  · intro last
    obtain rfl := (freed.state.empty_iff held').mpr last
    exact ⟨freed.state, freed.state.tight⟩

/-- The first thread gets its block behind the page that is left. -/
theorem KernelRun.firstThread
    (stack : KernStackInImage img kernStack idle)
    (usable : ∀ frame ∈ frames, UsableFrame img frame)
    (distinct : frames.Nodup)
    (run : KernelRun img frames kernStack idle kthreadExit [] live s)
    (none : live = []) (empty : HeapState img frames s.kernel [])
    (max : s.kernel.heapMax = heapStart + pageSize)
    (enough : 2 ≤ s.kernel.pmmStack.length) (fn arg : Nat) :
    ∃ block pid s', kernelThreadPaged idle img.pgdKern fn kthreadExit arg s =
        .ok pid s' ∧
      KernelRun img frames kernStack idle kthreadExit [block] [] s' ∧
      ThreadBlock img.pgdKern fn kthreadExit arg pid (threadMem img idle s')
        block := by
  subst none
  obtain ⟨state, sched⟩ := run.invariant stack usable distinct
  have pages : pagesTo s.kernel
      (endOf heapStart [] + (stackSize + headerSize)) = 2 := by
    rw [pagesTo, max]
    rfl
  have demand := empty.kmalloc_demand (n := stackSize) (by simp) (by decide)
  rw [pages, framesFor_inside 2] at demand
  rcases demand with ⟨_, _, few⟩ | ⟨k', granted, _, _⟩
  · omega
  · obtain ⟨called, pid, s', started⟩ :=
      state.kernelThread_granted stack sched fn arg granted
    exact ⟨_, pid, s', started, run.kernelThread called started,
      (state.kernelThread_step stack sched called started).2.2.2.1⟩
  · intro i below
    simp only [pageBehind, max, heapStart, pageSize]
    omega

end Heap

/-! ### `kern_init` -/

section Boots

variable {img : KernelImage} {kernStack idle mmap count : Nat}
variable {s : ThreadState}

/-- The calls of `kern_init`, one after the other. -/
structure KernInitSteps (img : KernelImage) (kernStack idle mmap count : Nat)
    (taskTty kthreadExit : Nat) (s s₁ s₂ s₃ s₄ s₅ s₆ s₇ s' : ThreadState)
    (pid : Nat) : Prop where
  memory : initMemory img idle ⟨mmapEntrySize * count, mmap⟩ kernStack s =
    .ok () s₁
  kmalloc2 : onKernel (kmalloc img.pgdKern 500) s₁ = .ok 0xE000000C s₂
  kmalloc3 : onKernel (kmalloc img.pgdKern 5000) s₂ = .ok 0xE000020C s₃
  kmalloc4 : onKernel (kmalloc img.pgdKern 50000) s₃ = .ok 0xE00015A0 s₄
  kfree2 : onKernel (kfree img.pgdKern 0xE000000C) s₄ = .ok () s₅
  kfree3 : onKernel (kfree img.pgdKern 0xE000020C) s₅ = .ok () s₆
  kfree4 : onKernel (kfree img.pgdKern 0xE00015A0) s₆ = .ok () s₇
  thread : kernelThreadPaged idle img.pgdKern taskTty kthreadExit 0 s₇ =
    .ok pid s'

theorem KernInitSteps.kernInit_eq {taskTty kthreadExit pid : Nat}
    {s₁ s₂ s₃ s₄ s₅ s₆ s₇ s' : ThreadState}
    (steps : KernInitSteps img kernStack idle mmap count taskTty kthreadExit
      s s₁ s₂ s₃ s₄ s₅ s₆ s₇ s' pid) :
    kernInit img idle ⟨mmapEntrySize * count, mmap⟩ kernStack taskTty
      kthreadExit s = .ok pid s' := by
  rw [kernInit, Outcome.bind_of_ok steps.memory,
    Outcome.bind_of_ok steps.kmalloc2, Outcome.bind_of_ok steps.kmalloc3,
    Outcome.bind_of_ok steps.kmalloc4, Outcome.bind_of_ok steps.kfree2,
    Outcome.bind_of_ok steps.kfree3, Outcome.bind_of_ok steps.kfree4]
  exact steps.thread

theorem kernInit_cases
    (entry : KernInitEntry img kernStack idle mmap count s)
    (taskTty kthreadExit : Nat) :
    ((bootFrames img s.kernel.mem mmap count).length < 15 ∧
      ∃ s', kernInit img idle ⟨mmapEntrySize * count, mmap⟩ kernStack taskTty
        kthreadExit s = .error (.panic "out of memory") s') ∨
    15 ≤ (bootFrames img s.kernel.mem mmap count).length ∧
      ∃ s₁ s₂ s₃ s₄ s₅ s₆ s₇ s' pid block,
        KernInitSteps img kernStack idle mmap count taskTty kthreadExit
          s s₁ s₂ s₃ s₄ s₅ s₆ s₇ s' pid ∧
        s₁.kernel.phyPageCount =
          (bootFrames img s.kernel.mem mmap count).length ∧
        KernelRun img (bootFrames img s.kernel.mem mmap count) kernStack idle
          kthreadExit [block] [] s' ∧
        ThreadBlock img.pgdKern taskTty kthreadExit 0 pid
          (threadMem img idle s') block := by
  obtain ⟨distinct, usable⟩ := entry.frames
  obtain ⟨s₁, initialised, run₁, full₁, counted⟩ :=
    entry.initMemory_returns kthreadExit
  generalize bootFrames img s.kernel.mem mmap count = frames at *
  rcases run₁.kmalloc_full full₁ (by decide : 0 + (500 + headerSize) ≤ _)
      (by decide) with ⟨few, s', stopped⟩ | ⟨s₂, granted₂, run₂, full₂⟩
  · refine .inl ⟨Nat.lt_of_lt_of_le few (by decide), s', ?_⟩
    rw [kernInit, Outcome.bind_of_ok initialised]
    exact Outcome.bind_of_error stopped
  rcases run₂.kmalloc_full full₂
      (by decide : 0 + (500 + headerSize) + (5000 + headerSize) ≤ _)
      (by decide) with ⟨few, s', stopped⟩ | ⟨s₃, granted₃, run₃, full₃⟩
  · refine .inl ⟨Nat.lt_of_lt_of_le few (by decide), s', ?_⟩
    rw [kernInit, Outcome.bind_of_ok initialised,
      Outcome.bind_of_ok granted₂]
    exact Outcome.bind_of_error stopped
  rcases run₃.kmalloc_full full₃
      (by decide : 0 + (500 + headerSize) + (5000 + headerSize) +
        (50000 + headerSize) ≤ _)
      (by decide) with ⟨few, s', stopped⟩ | ⟨s₄, granted₄, run₄, full₄⟩
  · refine .inl ⟨Nat.lt_of_lt_of_le few (by decide), s', ?_⟩
    rw [kernInit, Outcome.bind_of_ok initialised,
      Outcome.bind_of_ok granted₂, Outcome.bind_of_ok granted₃]
    exact Outcome.bind_of_error stopped
  have max := full₄.heapMax
  have all := full₄.stack
  obtain ⟨s₅, freed₅, run₅, counted₅, page₅, _⟩ := run₄.kfree_held entry.stack
    usable distinct ⟨heapStart + 0 + headerSize, 500⟩ (by decide)
  obtain ⟨s₆, freed₆, run₆, counted₆, page₆, _⟩ := run₅.kfree_held entry.stack
    usable distinct
    ⟨heapStart + (0 + (500 + headerSize)) + headerSize, 5000⟩ (by decide)
  obtain ⟨s₇, freed₇, run₇, counted₇, page₇, last⟩ := run₆.kfree_held
    entry.stack usable distinct
    ⟨heapStart + (0 + (500 + headerSize) + (5000 + headerSize)) + headerSize,
      50000⟩ (by decide)
  obtain ⟨empty, upper⟩ := last (by decide)
  have lower := page₇ (page₆ (page₅ (by rw [max]; decide)))
  have atPage := Nat.le_antisymm upper lower
  have pages : heapPages s₄.kernel = 14 := by
    rw [heapPages, max]
    rfl
  have page : heapPages s₇.kernel = 1 := by
    rw [heapPages, atPage]
    rfl
  have frameCount : s₄.kernel.pmmStack.length + 14 + 1 = frames.length := all
  obtain ⟨block, pid, s', started, run, filled⟩ := run₇.firstThread
    entry.stack usable distinct (by decide) empty atPage (by omega) taskTty 0
  exact .inr ⟨by omega, s₁, s₂, s₃, s₄, s₅, s₆, s₇, s', pid, block,
    ⟨initialised, granted₂, granted₃, granted₄, freed₅, freed₆, freed₇,
      started⟩, counted, run, filled⟩

/-- `kern_init` comes up exactly if the memory map has 15 frames for it, and
then the first thread is ready to run. -/
theorem kernInit_boots (img : KernelImage) (kernStack idle mmap count : Nat)
    {s : ThreadState}
    (entry : KernInitEntry img kernStack idle mmap count s)
    (taskTty kthreadExit : Nat) :
    let frames := bootFrames img s.kernel.mem mmap count
    (15 ≤ frames.length → ∃ block pid s',
      kernInit img idle ⟨mmapEntrySize * count, mmap⟩ kernStack taskTty
          kthreadExit s = .ok pid s' ∧
        KernelRun img frames kernStack idle kthreadExit [block] [] s' ∧
        ThreadRing kernStack [block] (schedOf img idle s') ∧
        ThreadBlock img.pgdKern taskTty kthreadExit 0 pid
          (threadMem img idle s') block) ∧
    (frames.length < 15 → ∃ s',
      kernInit img idle ⟨mmapEntrySize * count, mmap⟩ kernStack taskTty
        kthreadExit s = .error (.panic "out of memory") s') := by
  intro frames
  obtain ⟨distinct, usable⟩ := entry.frames
  rcases kernInit_cases entry taskTty kthreadExit with
    ⟨few, stopped⟩ | ⟨enough, _, _, _, _, _, _, _, s', pid, block, steps, _,
      run, filled⟩
  · exact ⟨fun many => absurd few (Nat.not_lt.mpr many), fun _ => stopped⟩
  · refine ⟨fun _ => ⟨block, pid, s', steps.kernInit_eq, run, ?_, filled⟩,
      fun few => absurd enough (Nat.not_le.mpr few)⟩
    have sched := (run.invariant entry.stack usable distinct).2
    exact (sched.ring entry.stack.placed).threadRing

end Boots

/-! ### A map of 16 frames -/

def bootEntry : MmapEntry := ⟨20, 0x200000, 0, 0x10000, 0, 1⟩

def kernInitStart : ThreadState where
  kernel := {
    mem := fillTmp (storeMmapEntry (fun _ => 0) 0x9500 bootEntry)
    pmmStack := []
    phyPageCount := 0
    heapFirst := 0
    heapMax := heapStart }
  idleBlock := fun _ => 0
  nowPid := 0
  runningProcHead := 0
  current := 0
  cpu := ⟨0, 0, 0, 0, 0, 0, pgdTmp, 0⟩

theorem kernInitStart_records :
    mmapRecords kernInitStart.kernel.mem 0x9500 1 = [bootEntry] := by
  have word : ∀ mem address, pteHign + pageSize ≤ address →
      load32 (fillTmp mem) address = load32 mem address := by
    intro mem address behind
    apply load32_congr
    intro x lower _
    exact fillTmp_outside mem (.inr (Nat.le_trans behind lower))
  have read : readMmapEntry kernInitStart.kernel.mem 0x9500 = bootEntry := by
    simp (disch := decide) only [kernInitStart, readMmapEntry, word]
    decide
  rw [mmapRecords, read]
  rfl

theorem kernInitStart_zero : sampleImage.BssZero kernInitStart.kernel.mem := by
  have blank : ∀ x, 0x100000 ≤ x →
      storeMmapEntry (fun _ => 0) 0x9500 bootEntry x = 0 := by
    intro x behind
    unfold storeMmapEntry
    iterate 6 rw [store32_outside _ _ (by omega)]
  apply sampleImage_low.bssZero
  constructor <;> intro x lower _ <;> apply blank
  · exact Nat.le_trans (by decide) lower
  · exact Nat.le_trans (by decide) lower

theorem kernInitStart_entry :
    KernInitEntry sampleImage 0xC0180000 0xC0180000 0x9500 1
      kernInitStart where
  low := sampleImage_low
  tables := fillTmp_tables _
  cr3 := rfl
  zero := kernInitStart_zero
  stack := sampleStack
  heapMax := rfl
  nowPid := rfl
  map := by
    refine ⟨⟨rfl, rfl⟩, by decide, by decide, by decide, ?_⟩
    rw [kernInitStart_records]
    exact List.pairwise_singleton _ _
  mapped := by decide
  below := by
    rw [kernInitStart_records]
    intro record member _
    obtain rfl := List.mem_singleton.mp member
    decide
  within := by
    rw [kernInitStart_records]
    intro record member _
    obtain rfl := List.mem_singleton.mp member
    exact .inr (.inr (by decide))

theorem kernInit_boots_sample :
    ∃ block pid s', kernInit sampleImage 0xC0180000 ⟨24, 0x9500⟩ 0xC0180000
        0xC0100600 0xC0100500 kernInitStart = .ok pid s' ∧
      ThreadRing 0xC0180000 [block] (schedOf sampleImage 0xC0180000 s') := by
  have enough : 15 ≤
      (bootFrames sampleImage kernInitStart.kernel.mem 0x9500 1).length := by
    rw [bootFrames, kernInitStart_records]
    decide
  obtain ⟨block, pid, s', booted, _, ring, _⟩ := (kernInit_boots sampleImage
    0xC0180000 0xC0180000 0x9500 1 kernInitStart_entry 0xC0100600
    0xC0100500).1 enough
  exact ⟨block, pid, s', booted, ring⟩

end MiniOS
