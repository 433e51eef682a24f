import MiniOS.Mm.HeapRoom
import MiniOS.Schedule.ThreadExit
import MiniOS.Schedule.ThreadHeap

/-!
# Threads and clients of the heap together

Runs in which threads are created and switched while clients take and free
blocks of the same heap.  Clients make safe requests only, and stores go to
bytes that a client or a stack owns.  The blocks of the threads are blocks that
are held, so `kmalloc` keeps its promise to `kernel_thread`: the run is one of
`SchedRun`, with no assumption on the blocks.
-/

namespace MiniOS

open ByteMemory Tiling

/-- `kern_stack` is part of the image, with the idle thread's PCB at `idle`. -/
structure KernStackInImage (img : KernelImage) (kernStack idle : Nat) :
    Prop where
  placed : KernStackPlaced kernStack
  atIdle : idleProc kernStack = idle
  inImage : IdleInImage img idle

theorem KernStackInImage.isThread_iff {img : KernelImage}
    {kernStack idle proc : Nat} {created : List Nat}
    (stack : KernStackInImage img kernStack idle) :
    proc ∈ idleProc kernStack :: created ↔ proc ∈ idle :: created := by
  rw [stack.atIdle]

def threadBlocks (created : List Nat) : List Block :=
  created.map fun proc => ⟨proc, stackSize⟩

/-- A byte of a client's block, or of the stack above a thread's PCB. -/
def Owned (idle : Nat) (created : List Nat) (live : List Block) (va : Nat) :
    Prop :=
  (∃ block ∈ live, block.Covers va) ∨
    ∃ proc ∈ idle :: created, proc + procSize ≤ va ∧ va < proc + stackSize

/-- The states after boot and `init_sched`, with the threads created so far
and the blocks that clients hold. -/
inductive KernelRun (img : KernelImage) (frames : List Nat)
    (kernStack idle kthreadExit : Nat) :
    List Nat → List Block → ThreadState → Prop
  | start {s s' : ThreadState} (booted : AfterBoot img frames s.kernel)
      (first : s.nowPid = 0) (cr3 : s.cpu.cr3 = img.pgdKern - pageOffset)
      (returned : initSchedPaged idle img.pgdKern kernStack s = .ok () s') :
      KernelRun img frames kernStack idle kthreadExit [] [] s'
  | kmalloc {created : List Nat} {live : List Block} {s s' : ThreadState}
      {n p : Nat}
      (run : KernelRun img frames kernStack idle kthreadExit created live s)
      (request : SafeRequest img.pgdKern s.kernel n)
      (returned : onKernel (kmalloc img.pgdKern n) s = .ok p s') :
      KernelRun img frames kernStack idle kthreadExit created
        (⟨p, n⟩ :: live) s'
  | kfree {created : List Nat} {live : List Block} {s s' : ThreadState}
      {block : Block}
      (run : KernelRun img frames kernStack idle kthreadExit created live s)
      (member : block ∈ live)
      (returned : onKernel (kfree img.pgdKern block.ptr) s = .ok () s') :
      KernelRun img frames kernStack idle kthreadExit created
        (live.erase block) s'
  | store {created : List Nat} {live : List Block} {s s' : ThreadState}
      {va : Nat} {byte : UInt8}
      (run : KernelRun img frames kernStack idle kthreadExit created live s)
      (owned : Owned idle created live va)
      (returned : writeByte idle va byte s = .ok () s') :
      KernelRun img frames kernStack idle kthreadExit created live s'
  | compute {created : List Nat} {live : List Block} {s : ThreadState}
      {cpu : Cpu}
      (run : KernelRun img frames kernStack idle kthreadExit created live s)
      (same : cpu.cr3 = s.cpu.cr3) :
      KernelRun img frames kernStack idle kthreadExit created live
        { s with cpu := cpu }
  | kernelThread {created : List Nat} {live : List Block}
      {s s₁ s' : ThreadState} {fn arg block pid : Nat}
      (run : KernelRun img frames kernStack idle kthreadExit created live s)
      (granted : onKernel (kmalloc img.pgdKern stackSize) s = .ok block s₁)
      (returned : kernelThreadPaged idle img.pgdKern fn kthreadExit arg s =
        .ok pid s') :
      KernelRun img frames kernStack idle kthreadExit (created ++ [block])
        live s'
  | schedule {created : List Nat} {live : List Block} {s s' : ThreadState}
      (run : KernelRun img frames kernStack idle kthreadExit created live s)
      (returned : schedulePaged idle s = .ok () s') :
      KernelRun img frames kernStack idle kthreadExit created live s'

theorem onKernel_ok {α : Type} {routine : KernelM α} {s s' : ThreadState}
    {a : α} (returned : onKernel routine s = .ok a s') :
    ∃ k, routine s.kernel = .ok a k ∧ s' = { s with kernel := k } := by
  unfold onKernel at returned
  split at returned
  · rename_i b k computed
    cases returned
    exact ⟨k, computed, rfl⟩
  · cases returned

/-! ## The heap under stores that miss its headers -/

theorem HeapState.of_headers {img : KernelImage} {frames : List Nat}
    {k k' : Kernel} {chunks : List Segment}
    (state : HeapState img frames k chunks)
    (paging : HeapPaging img frames k') (heapMax : k'.heapMax = k.heapMax)
    (first : k'.heapFirst = k.heapFirst)
    (view : ∀ chunk ∈ chunks, ∀ va, chunk.start ≤ va →
      va < chunk.start + headerSize → heapView img k' va = heapView img k va) :
    HeapState img frames k' chunks := by
  refine ⟨paging, ?_, state.canonical, ?_, ?_⟩
  · rw [first]
    apply state.list.congr
    intro field chunk member
    apply load32_congr
    intro x lower upper
    apply view chunk member x <;> cases field <;>
      simp only [HeaderField.offset, headerSize] at * <;> omega
  · rw [heapMax]
    exact state.fits
  · rw [heapMax]
    exact state.tight

theorem BlocksApart.ranges {left right leftSize rightSize : Nat}
    (apart : BlocksApart ⟨left, leftSize⟩ ⟨right, rightSize⟩)
    (leftLive : 0 < leftSize) (rightLive : 0 < rightSize) :
    RangesApart left leftSize right rightSize := by
  have above := apart left
  have below := apart right
  simp only [Block.Covers, RangesApart] at *
  omega

/-! ## The invariant -/

section Invariant

variable (img : KernelImage) (frames : List Nat) (idle : Nat)

/-- The heap is in order, all threads run in the directory of the kernel, and
their blocks are among those held. -/
structure ThreadHeap (created : List Nat) (live : List Block)
    (s : ThreadState) : Prop where
  heap : ∃ chunks, HeapState img frames s.kernel chunks ∧
    LiveBlocks chunks (threadBlocks created ++ live)
  cr3 : s.cpu.cr3 = img.pgdKern - pageOffset
  directories : ∀ proc ∈ idle :: created,
    load32 (threadMem img idle s) (proc + cr3Offset) =
      img.pgdKern - pageOffset

end Invariant

theorem SamePcbs.directory {procs : List Nat} {left right : Mem} {proc : Nat}
    (same : SamePcbs procs left right) (member : proc ∈ procs) :
    load32 left (proc + cr3Offset) = load32 right (proc + cr3Offset) := by
  apply load32_congr
  intro x lower upper
  have bytes := same proc member x
  simp only [cr3Offset, procSize] at *
  exact bytes (by omega) (by omega)

namespace ThreadHeap

variable {img : KernelImage} {frames : List Nat} {kernStack idle : Nat}
variable {created : List Nat} {live : List Block} {s s' : ThreadState}
variable {t : Sched}

theorem sees (state : ThreadHeap img frames idle created live s) :
    SeesThreads img frames idle s.kernel.heapMax s (schedOf img idle s) := by
  obtain ⟨chunks, heap, held⟩ := state.heap
  exact ⟨heap.paging, rfl, state.cr3, rfl⟩

theorem thread_bounds (state : ThreadHeap img frames idle created live s)
    {proc : Nat} (member : proc ∈ created) :
    heapStart ≤ proc ∧ proc + stackSize ≤ s.kernel.heapMax := by
  obtain ⟨chunks, heap, held⟩ := state.heap
  have inBlocks : (⟨proc, stackSize⟩ : Block) ∈ threadBlocks created ++ live :=
    List.mem_append_left _ (List.mem_map.mpr ⟨proc, member, rfl⟩)
  exact heap.block_bounds held inBlocks

/-- `kmalloc(STACK_SIZE)` never wraps. -/
theorem stack_request (state : ThreadHeap img frames idle created live s) :
    SafeRequest img.pgdKern s.kernel stackSize := by
  obtain ⟨chunks, heap, held⟩ := state.heap
  exact heap.small_request (by decide)

theorem inBlock (state : ThreadHeap img frames idle created live s)
    {proc : Nat} (member : proc ∈ idle :: created) :
    InBlock idle s.kernel.heapMax proc stackSize := by
  rcases List.mem_cons.mp member with rfl | other
  · exact .inl ⟨Nat.le_refl _, Nat.le_refl _⟩
  · exact .inr (state.thread_bounds other)

theorem inPcb (state : ThreadHeap img frames idle created live s)
    {proc : Nat} (member : proc ∈ idle :: created) :
    InBlock idle s.kernel.heapMax proc procSize :=
  (state.inBlock member).front (by decide)

/-- A byte of the heap in no block is in no thread's block either. -/
theorem outside_threads (inImage : IdleInImage img idle) {va : Nat}
    (lower : heapStart ≤ va)
    (free : ∀ block ∈ threadBlocks created ++ live, ¬block.Covers va)
    {proc : Nat} (member : proc ∈ idle :: created) :
    va < proc ∨ proc + stackSize ≤ va := by
  rcases List.mem_cons.mp member with rfl | other
  · have off := inImage.heap_not_idle lower
    unfold OnIdle at off
    omega
  · have uncovered := free ⟨proc, stackSize⟩
      (List.mem_append_left _ (List.mem_map.mpr ⟨proc, other, rfl⟩))
    unfold Block.Covers at uncovered
    simp only at uncovered
    omega

/-- What is stored into the blocks leaves the heap in order. -/
theorem heap_of_stores {chunks : List Segment} {blocks : List Block}
    (inImage : IdleInImage img idle)
    (heap : HeapState img frames s.kernel chunks)
    (held : LiveBlocks chunks blocks) (kept : KeepsHeap img s s')
    (sees : SeesThreads img frames idle s.kernel.heapMax s' t)
    (same : ∀ va, heapStart ≤ va →
      (∀ block ∈ blocks, ¬block.Covers va) →
        t.mem va = threadMem img idle s va) :
    HeapState img frames s'.kernel chunks := by
  apply heap.of_headers sees.paging kept.same.heapMax kept.first
  intro chunk member va lower upper
  have inHeap : heapStart ≤ va :=
    Nat.le_trans (heap.placed.bounds chunk member).1 lower
  have bytes := same va inHeap fun block inBlocks covers => by
    have missed := heap.block_header held inBlocks covers member
    omega
  rw [← sees.shown] at bytes
  rw [← inImage.threadMem_heap inHeap, ← inImage.threadMem_heap inHeap]
  exact bytes

/-! ### The memory manager -/

theorem samePcbs (inImage : IdleInImage img idle) {k' : Kernel}
    (lower : ∀ proc ∈ created, heapStart ≤ proc)
    (view : ∀ block ∈ threadBlocks created, ∀ va, block.Covers va →
      heapView img k' va = heapView img s.kernel va) :
    SamePcbs (idle :: created)
      (threadMem img idle { s with kernel := k' }) (threadMem img idle s) := by
  intro proc member x above below
  simp only [procSize] at below
  rcases List.mem_cons.mp member with rfl | other
  · have on : OnIdle proc x := by
      simp only [OnIdle, stackSize]
      omega
    rw [threadMem_idle on, threadMem_idle on]
  · have inHeap := Nat.le_trans (lower proc other) above
    rw [inImage.threadMem_heap inHeap, inImage.threadMem_heap inHeap]
    refine view ⟨proc, stackSize⟩ (List.mem_map.mpr ⟨proc, other, rfl⟩) x
      ⟨above, ?_⟩
    simp only [stackSize]
    omega

theorem kmalloc_view {k k' : Kernel} {n : Nat} {chunk : Segment}
    {chunks chunks' : List Segment} {blocks : List Block}
    (heap : HeapState img frames k chunks) (held : LiveBlocks chunks blocks)
    (allocated : Allocated img frames n k k' chunk chunks chunks') :
    ∀ block ∈ blocks, ∀ va, block.Covers va →
      heapView img k' va = heapView img k va := by
  intro block member va covers
  have bounds := heap.block_bounds held member
  have held' : LiveBlocks chunks'
      (⟨chunk.start + headerSize, n⟩ :: blocks) :=
    held.push ⟨rfl, allocated.enough⟩ allocated.used
  apply allocated.view va
  · unfold Block.Covers at covers
    omega
  · intro header headerMember
    obtain ⟨other, inChunks, rfl⟩ := List.mem_map.mp headerMember
    exact allocated.state.block_header held' (List.mem_cons_of_mem _ member)
      covers inChunks

theorem kfree_view {k k' : Kernel} {chunks chunks' : List Segment}
    {blocks others : List Block} (heap : HeapState img frames k chunks)
    (held : LiveBlocks chunks blocks) (subset : others ⊆ blocks)
    (freed : Freed img frames (chunks.map Segment.start)
      (endOf heapStart chunks) k k' chunks')
    (held' : LiveBlocks chunks' others) :
    ∀ block ∈ others, ∀ va, block.Covers va →
      heapView img k' va = heapView img k va := by
  intro block member va covers
  have bounds := freed.state.block_bounds held' member
  apply freed.view va
  · unfold Block.Covers at covers
    omega
  · intro header headerMember
    obtain ⟨other, inChunks, rfl⟩ := List.mem_map.mp headerMember
    exact heap.block_header held (subset member) covers inChunks

theorem of_call (inImage : IdleInImage img idle)
    (state : ThreadHeap img frames idle created live s) {k' : Kernel}
    {chunks' : List Segment} {live' : List Block}
    (heap : HeapState img frames k' chunks')
    (held : LiveBlocks chunks' (threadBlocks created ++ live'))
    (view : ∀ block ∈ threadBlocks created, ∀ va, block.Covers va →
      heapView img k' va = heapView img s.kernel va) :
    ThreadHeap img frames idle created live' { s with kernel := k' } ∧
      SamePcbs (idle :: created)
        (threadMem img idle { s with kernel := k' })
        (threadMem img idle s) := by
  have same := samePcbs inImage
    (fun _ member => (state.thread_bounds member).1) view
  refine ⟨⟨⟨chunks', heap, held⟩, state.cr3, ?_⟩, same⟩
  intro proc member
  rw [same.directory member]
  exact state.directories proc member

theorem kmalloc_step (inImage : IdleInImage img idle)
    (state : ThreadHeap img frames idle created live s) {n p : Nat}
    (request : SafeRequest img.pgdKern s.kernel n)
    (returned : onKernel (kmalloc img.pgdKern n) s = .ok p s') :
    ThreadHeap img frames idle created (⟨p, n⟩ :: live) s' ∧
      s' = { s with kernel := s'.kernel } ∧
      SamePcbs (idle :: created) (threadMem img idle s')
        (threadMem img idle s) ∧
      ∀ block ∈ threadBlocks created ++ live, ∀ va, block.Covers va →
        heapView img s'.kernel va = heapView img s.kernel va := by
  obtain ⟨chunks, heap, held⟩ := state.heap
  obtain ⟨k', called, rfl⟩ := onKernel_ok returned
  rcases heap.kmalloc_spec (heap.safeRequest_iff.mp request) with
    ⟨k, stopped, _⟩ | ⟨k, chunk, chunks', granted, allocated⟩
  · rw [called] at stopped
    cases stopped
  · rw [called] at granted
    injection granted with ptr same
    subst same
    have view := kmalloc_view heap held allocated
    have pushed : LiveBlocks chunks' (⟨p, n⟩ ::
        (threadBlocks created ++ live)) :=
      held.push ⟨ptr, allocated.enough⟩ allocated.used
    have held' : LiveBlocks chunks'
        (threadBlocks created ++ ⟨p, n⟩ :: live) :=
      pushed.perm List.perm_middle.symm
    obtain ⟨state', pcbs⟩ := state.of_call inImage allocated.state held'
      fun block member => view block (List.mem_append_left _ member)
    exact ⟨state', rfl, pcbs, view⟩

theorem kfree_step (inImage : IdleInImage img idle)
    (state : ThreadHeap img frames idle created live s) {block : Block}
    (member : block ∈ live)
    (returned : onKernel (kfree img.pgdKern block.ptr) s = .ok () s') :
    ThreadHeap img frames idle created (live.erase block) s' ∧
      s' = { s with kernel := s'.kernel } ∧
      SamePcbs (idle :: created) (threadMem img idle s')
        (threadMem img idle s) := by
  obtain ⟨chunks, heap, held⟩ := state.heap
  obtain ⟨k', called, rfl⟩ := onKernel_ok returned
  have first : (threadBlocks created ++ live).Perm
      (block :: (threadBlocks created ++ live.erase block)) :=
    ((List.perm_cons_erase member).append_left _).trans List.perm_middle
  obtain ⟨k, chunks', returned', freed, _, held'⟩ :=
    heap.kfree_block (held.perm first)
  rw [called] at returned'
  injection returned' with _ same
  subst same
  have view := kfree_view heap held
    (fun _ kept => first.mem_iff.mpr (List.mem_cons_of_mem _ kept)) freed
    held'
  obtain ⟨state', pcbs⟩ := state.of_call inImage freed.state held'
    fun block member => view block (List.mem_append_left _ member)
  exact ⟨state', rfl, pcbs⟩

/-! ### Owned bytes -/

theorem blocks_apart (stack : KernStackInImage img kernStack idle)
    (state : ThreadHeap img frames idle created live s)
    (ring : Ring kernStack created (schedOf img idle s)) {proc other : Nat}
    (member : proc ∈ idle :: created) (isThread : other ∈ idle :: created)
    (differ : other ≠ proc) : RangesApart proc stackSize other procSize := by
  have below := stack.inImage.below_heap
  rcases List.mem_cons.mp member with rfl | created
  · rcases List.mem_cons.mp isThread with same | created
    · exact absurd same differ
    · have lower := (state.thread_bounds created).1
      exact .inl (Nat.le_trans below lower)
  · have lower := (state.thread_bounds created).1
    rw [← stack.atIdle] at isThread below
    apply ring.block_apart created _ isThread differ
    simp only [RangesApart, stackSize, procSize] at *
    omega

theorem client_apart (stack : KernStackInImage img kernStack idle)
    (state : ThreadHeap img frames idle created live s) {block : Block}
    {va : Nat} (member : block ∈ live) (covers : block.Covers va) {proc : Nat}
    (isThread : proc ∈ idle :: created) :
    va < proc ∨ proc + stackSize ≤ va := by
  obtain ⟨chunks, heap, held⟩ := state.heap
  rcases List.mem_cons.mp isThread with rfl | other
  · have bounds := heap.block_bounds held (List.mem_append_right _ member)
    have below := stack.inImage.below_heap
    have lower := covers.1
    omega
  · have apart := (List.pairwise_append.mp (held.pairwise heap.placed)).2.2
      ⟨proc, stackSize⟩ (List.mem_map.mpr ⟨proc, other, rfl⟩) block member va
    simp only [Block.Covers] at *
    omega

theorem owned_outside_pcbs (stack : KernStackInImage img kernStack idle)
    (state : ThreadHeap img frames idle created live s)
    (ring : Ring kernStack created (schedOf img idle s)) {va : Nat}
    (owned : Owned idle created live va) :
    ∀ proc ∈ idle :: created, va < proc ∨ proc + procSize ≤ va := by
  intro proc isThread
  rcases owned with ⟨block, member, covers⟩ | ⟨own, member, lower, upper⟩
  · have apart := state.client_apart stack member covers isThread
    simp only [stackSize, procSize] at *
    omega
  · by_cases same : proc = own
    · rw [same]
      exact .inr lower
    · have apart := state.blocks_apart stack ring member isThread same
      simp only [RangesApart, stackSize, procSize] at *
      omega

theorem owned_inBlock (state : ThreadHeap img frames idle created live s)
    {va : Nat} (owned : Owned idle created live va) :
    InBlock idle s.kernel.heapMax va 1 := by
  rcases owned with ⟨block, member, covers⟩ | ⟨own, member, lower, upper⟩
  · obtain ⟨chunks, heap, held⟩ := state.heap
    have bounds := heap.block_bounds held (List.mem_append_right _ member)
    unfold Block.Covers at covers
    exact .inr (by omega)
  · have inside := state.inBlock member
    unfold InBlock at *
    omega

/-- In the heap the owned bytes are bytes of blocks that are held. -/
theorem owned_covered (inImage : IdleInImage img idle) {va : Nat}
    (owned : Owned idle created live va) (lower : heapStart ≤ va) :
    ∃ block ∈ threadBlocks created ++ live, block.Covers va := by
  rcases owned with ⟨block, member, covers⟩ | ⟨own, member, above, upper⟩
  · exact ⟨block, List.mem_append_right _ member, covers⟩
  · rcases List.mem_cons.mp member with rfl | isThread
    · have below := inImage.below_heap
      omega
    · refine ⟨⟨own, stackSize⟩, List.mem_append_left _
        (List.mem_map.mpr ⟨own, isThread, rfl⟩), ?_, upper⟩
      exact Nat.le_trans (Nat.le_add_right ..) above

theorem store_step (stack : KernStackInImage img kernStack idle)
    (state : ThreadHeap img frames idle created live s)
    (ring : Ring kernStack created (schedOf img idle s)) {va : Nat}
    {byte : UInt8} (owned : Owned idle created live va)
    (returned : writeByte idle va byte s = .ok () s') :
    ThreadHeap img frames idle created live s' ∧
      schedOf img idle s' = { schedOf img idle s with
        mem := store8 (threadMem img idle s) va byte } ∧
      SamePcbs (idle :: created)
        (store8 (threadMem img idle s) va byte) (threadMem img idle s) := by
  obtain ⟨-, kept, sees⟩ := (writeByte_computes stack.inImage state.sees byte
    (state.owned_inBlock owned)).of_returned returned
  have mem : threadMem img idle s' = store8 (threadMem img idle s) va byte :=
    congrArg Sched.mem sees.shown
  have same : SamePcbs (idle :: created)
      (store8 (threadMem img idle s) va byte) (threadMem img idle s) := by
    intro proc member x lower upper
    have missed := state.owned_outside_pcbs stack ring owned proc member
    exact store8_other _ _ (by omega)
  obtain ⟨chunks, heap, held⟩ := state.heap
  refine ⟨⟨⟨chunks, ?_, held⟩, sees.cr3, ?_⟩, sees.shown, same⟩
  · apply heap_of_stores stack.inImage heap held kept sees
    intro x lower free
    apply store8_other
    rintro rfl
    obtain ⟨block, member, covers⟩ := owned_covered stack.inImage owned lower
    exact free block member covers
  · intro proc member
    rw [mem, same.directory member]
    exact state.directories proc member

/-! ### `schedule` -/

theorem schedule_outside {t : Sched} {x : Nat}
    (outside : x < t.current + contextOffset ∨
      t.current + contextOffset + 24 ≤ x) :
    (schedule t).mem x = t.mem x := by
  unfold schedule changeTaskTo
  split
  · split
    · exact switchTo_outside outside
    · rfl
  · rfl

theorem schedule_computes (stack : KernStackInImage img kernStack idle)
    (state : ThreadHeap img frames idle created live s)
    (ring : Ring kernStack created (schedOf img idle s)) :
    (threadView img frames idle s.kernel.heapMax).Computes s
      (schedulePaged idle) () (schedule (schedOf img idle s)) := by
  have current := ring.current
  have next := ring.next_mem current
  rw [stack.atIdle] at current next
  exact schedulePaged_computes stack.inImage state.sees (state.inPcb current)
    (state.inPcb next) (state.directories _ next)

theorem schedule_keeps (stack : KernStackInImage img kernStack idle)
    (state : ThreadHeap img frames idle created live s)
    (ring : Ring kernStack created (schedOf img idle s)) {va : Nat}
    (owned : Owned idle created live va) :
    (schedule (schedOf img idle s)).mem va = threadMem img idle s va := by
  have current := ring.current
  rw [stack.atIdle] at current
  have apart := state.owned_outside_pcbs stack ring owned _ current
  apply schedule_outside
  simp only [contextOffset, procSize] at *
  omega

theorem schedule_step (stack : KernStackInImage img kernStack idle)
    (state : ThreadHeap img frames idle created live s)
    (ring : Ring kernStack created (schedOf img idle s))
    (returned : schedulePaged idle s = .ok () s') :
    ThreadHeap img frames idle created live s' ∧
      schedOf img idle s' = schedule (schedOf img idle s) := by
  obtain ⟨-, kept, sees⟩ :=
    (state.schedule_computes stack ring).of_returned returned
  have current := ring.current
  rw [stack.atIdle] at current
  obtain ⟨chunks, heap, held⟩ := state.heap
  refine ⟨⟨⟨chunks, ?_, held⟩, sees.cr3, ?_⟩, sees.shown⟩
  · apply heap_of_stores stack.inImage heap held kept sees
    intro va lower free
    have missed := outside_threads stack.inImage lower free current
    apply schedule_outside
    simp only [contextOffset, stackSize] at *
    omega
  · intro proc member
    have mem : threadMem img idle s' = (schedule (schedOf img idle s)).mem :=
      congrArg Sched.mem sees.shown
    rw [← state.directories proc member, mem]
    apply load32_congr
    intro x lower upper
    apply schedule_outside
    simp only [contextOffset, cr3Offset] at *
    by_cases same : proc = (schedOf img idle s).current
    · omega
    · have apart := state.blocks_apart stack ring current member same
      simp only [RangesApart, stackSize, procSize] at apart
      omega

/-! ### `kernel_thread` -/

section KernelThread

variable {fn kthreadExit arg block pid : Nat} {s₁ : ThreadState}

theorem freshBlock (stack : KernStackInImage img kernStack idle)
    (state : ThreadHeap img frames idle created
      (⟨block, stackSize⟩ :: live) s) : FreshBlock kernStack created block := by
  obtain ⟨chunks, heap, held⟩ := state.heap
  have bounds := heap.block_bounds held
    (List.mem_append_right _ (List.mem_cons_self ..))
  have below := stack.inImage.below_heap
  have apart := (List.pairwise_append.mp (held.pairwise heap.placed)).2.2
  constructor
  · exact Nat.le_trans bounds.2 (Nat.le_of_lt heap.paging.heapMax_lt)
  · rw [stack.atIdle]
    simp only [RangesApart, stackSize, procSize] at *
    omega
  · intro other member
    have ranges := (apart ⟨other, stackSize⟩
      (List.mem_map.mpr ⟨other, member, rfl⟩) ⟨block, stackSize⟩
      (List.mem_cons_self ..)).ranges (by decide) (by decide)
    exact Or.symm ranges

theorem startProc_computes (stack : KernStackInImage img kernStack idle)
    (state : ThreadHeap img frames idle created
      (⟨block, stackSize⟩ :: live) s)
    (ring : Ring kernStack created (schedOf img idle s))
    (fn kthreadExit arg : Nat) :
    ∃ pid s', startProcPaged idle img.pgdKern fn kthreadExit arg block s =
        .ok pid s' ∧ KeepsHeap img s s' ∧
      SeesThreads img frames idle s.kernel.heapMax s' (schedOf img idle s') ∧
      kernelThread img.pgdKern fn kthreadExit arg block (schedOf img idle s) =
        .ok (pid, schedOf img idle s') := by
  have fresh := state.freshBlock stack
  obtain ⟨chunks, heap, held⟩ := state.heap
  have bounds := heap.block_bounds held
    (List.mem_append_right _ (List.mem_cons_self ..))
  have nonzero : block ≠ 0 := by
    have lower := bounds.1
    simp only [heapStart] at lower
    omega
  have head := ring.head_mem
  have last := Ring.last_mem kernStack created
  have tailPrev := ring.prev_head
  have apart := fresh.apart head
  rw [stack.atIdle] at head last tailPrev
  obtain ⟨s', returned, kept, sees⟩ := startProcPaged_computes stack.inImage
    state.sees img.pgdKern fn kthreadExit arg apart tailPrev (.inr bounds)
    (state.inPcb head) (state.inPcb last)
  refine ⟨_, s', returned, kept,
    ⟨sees.paging, sees.heapMax, sees.cr3, rfl⟩, ?_⟩
  unfold kernelThread
  rw [if_pos nonzero, sees.shown]

/-- Beside its own block `kernel_thread` stores into PCBs only. -/
theorem startProc_outside (stack : KernStackInImage img kernStack idle)
    (fresh : FreshBlock kernStack created block)
    (ring : Ring kernStack created (schedOf img idle s))
    (called : kernelThread img.pgdKern fn kthreadExit arg block
      (schedOf img idle s) = .ok (pid, schedOf img idle s')) {x : Nat}
    (missed : x < block ∨ block + stackSize ≤ x)
    (links : ∀ proc ∈ idle :: created,
      x < proc + prevOffset ∨ proc + procSize ≤ x) :
    threadMem img idle s' x = threadMem img idle s x := by
  have atHead := links _ (stack.isThread_iff.mp ring.head_mem)
  have atLast := links _ (stack.isThread_iff.mp
    (Ring.last_mem kernStack created))
  simp only [prevOffset, procSize] at atHead atLast
  apply ring.kernelThread_outside fresh called missed <;>
    simp only [prevOffset, nextOffset] <;> omega

theorem startProc_keeps (stack : KernStackInImage img kernStack idle)
    (state : ThreadHeap img frames idle created
      (⟨block, stackSize⟩ :: live) s)
    (ring : Ring kernStack created (schedOf img idle s))
    (called : kernelThread img.pgdKern fn kthreadExit arg block
      (schedOf img idle s) = .ok (pid, schedOf img idle s')) {va : Nat}
    (owned : Owned idle created live va) :
    threadMem img idle s' va = threadMem img idle s va := by
  have fresh := state.freshBlock stack
  apply startProc_outside stack fresh ring called
  · obtain ⟨chunks, heap, held⟩ := state.heap
    have lower := (heap.block_bounds held (List.mem_append_right _
      (List.mem_cons_self ..))).1
    by_cases inHeap : heapStart ≤ va
    · obtain ⟨other, member, covers⟩ :=
        owned_covered stack.inImage owned inHeap
      have blocks := (held.perm List.perm_middle).pairwise heap.placed
      have apart := List.rel_of_pairwise_cons blocks member va
      simp only [Block.Covers] at *
      omega
    · exact .inl (by simp only at lower; omega)
  · have more : Owned idle created (⟨block, stackSize⟩ :: live) va :=
      owned.imp_left fun ⟨client, member, covers⟩ =>
        ⟨client, List.mem_cons_of_mem _ member, covers⟩
    intro proc isThread
    have apart := state.owned_outside_pcbs stack ring more proc isThread
    simp only [prevOffset, procSize] at *
    omega

theorem startProc_step (stack : KernStackInImage img kernStack idle)
    (state : ThreadHeap img frames idle created
      (⟨block, stackSize⟩ :: live) s)
    (ring : Ring kernStack created (schedOf img idle s))
    (kept : KeepsHeap img s s')
    (sees : SeesThreads img frames idle s.kernel.heapMax s'
      (schedOf img idle s'))
    (called : kernelThread img.pgdKern fn kthreadExit arg block
      (schedOf img idle s) = .ok (pid, schedOf img idle s')) :
    ThreadHeap img frames idle (created ++ [block]) live s' := by
  have fresh := state.freshBlock stack
  obtain ⟨chunks, heap, held⟩ := state.heap
  have adopted : threadBlocks (created ++ [block]) ++ live =
      threadBlocks created ++ ⟨block, stackSize⟩ :: live := by
    simp [threadBlocks]
  refine ⟨⟨chunks, ?_, adopted ▸ held⟩, sees.cr3, ?_⟩
  · apply heap_of_stores stack.inImage heap held kept sees
    intro va lower free
    apply startProc_outside stack fresh ring called
    · have uncovered := free _ (List.mem_append_right _
        (List.mem_cons_self ..))
      simp only [Block.Covers] at uncovered
      omega
    · intro proc member
      have missed := outside_threads stack.inImage lower free member
      simp only [prevOffset, procSize, stackSize] at *
      omega
  · rw [← List.cons_append]
    intro proc member
    rcases List.mem_append.mp member with older | new
    · rw [← state.directories proc older]
      have isThread := stack.isThread_iff.mpr older
      have apart := fresh.apart isThread
      apply load32_congr
      intro x lower upper
      apply startProc_outside stack fresh ring called
      · simp only [RangesApart, procSize, cr3Offset] at *
        omega
      · intro other otherMember
        have either := ring.eq_or_apart isThread
          (stack.isThread_iff.mpr otherMember)
        simp only [PcbsApart, RangesApart, prevOffset, procSize,
          cr3Offset] at *
        omega
    · obtain rfl := List.mem_singleton.mp new
      have filled := (ring.kernelThread fresh called).2.cr3
      have upper := img.pgd_upper
      have kernEnd := img.kernEnd_upper
      refine filled.trans (uint32_of_lt ?_)
      simp only [pageOffset, pmmMaxSize, pageSize] at *
      omega

end KernelThread

end ThreadHeap

/-! ## Runs -/

theorem kernelThreadPaged_granted {idle pgdKern fn kthreadExit arg block : Nat}
    {s s₁ : ThreadState}
    (granted : onKernel (kmalloc pgdKern stackSize) s = .ok block s₁)
    (nonzero : block ≠ 0) :
    kernelThreadPaged idle pgdKern fn kthreadExit arg s =
      startProcPaged idle pgdKern fn kthreadExit arg block s₁ := by
  unfold kernelThreadPaged
  rw [Outcome.bind_of_ok granted, if_pos nonzero]

theorem initSched_cr3 {kernStack pgdKern : Nat} {s : Sched}
    (small : pgdKern - pageOffset < 4294967296) :
    load32 (initSched kernStack pgdKern s).mem
        (idleProc kernStack + cr3Offset) = pgdKern - pageOffset := by
  unfold initSched
  generalize idleProc kernStack = idle
  simp only [cr3Offset, kstackOffset, nextOffset, prevOffset]
  simp (disch := omega) only [load32_store32_disjoint, load32_store32_same]
  exact Nat.mod_eq_of_lt small

theorem KernelImage.directory_lt (img : KernelImage) :
    img.pgdKern - pageOffset < 4294967296 := by
  have upper := img.pgd_upper
  have kernEnd := img.kernEnd_upper
  simp only [pageOffset, pmmMaxSize, pageSize] at *
  omega

section Runs

variable {img : KernelImage} {frames : List Nat}
variable {kernStack idle kthreadExit : Nat}
variable {created : List Nat} {live : List Block} {s s' : ThreadState}

theorem KernStackInImage.samePcbs (stack : KernStackInImage img kernStack idle)
    {left right : Mem} (same : SamePcbs (idle :: created) left right) :
    SamePcbs (idleProc kernStack :: created) left right := by
  rw [stack.atIdle]
  exact same

theorem ThreadHeap.start (stack : KernStackInImage img kernStack idle)
    (usable : ∀ frame ∈ frames, UsableFrame img frame)
    (distinct : frames.Nodup) (booted : AfterBoot img frames s.kernel)
    (cr3 : s.cpu.cr3 = img.pgdKern - pageOffset)
    (returned : initSchedPaged idle img.pgdKern kernStack s = .ok () s') :
    ThreadHeap img frames idle [] [] s' ∧
      schedOf img idle s' =
        initSched kernStack img.pgdKern (schedOf img idle s) := by
  have heap := HeapState.boot usable distinct booted
  have sees : SeesThreads img frames idle s.kernel.heapMax s
      (schedOf img idle s) := ⟨heap.paging, rfl, cr3, rfl⟩
  obtain ⟨-, kept, sees'⟩ := (initSchedPaged_computes stack.inImage sees
    stack.atIdle img.pgdKern).of_returned returned
  have heap' : HeapState img frames s'.kernel [] := by
    apply heap.of_headers sees'.paging kept.same.heapMax kept.first
    intro chunk member
    cases member
  refine ⟨⟨⟨[], heap', [], .nil, .nil, by simp⟩, sees'.cr3, ?_⟩,
    sees'.shown⟩
  intro proc member
  have mem : threadMem img idle s' =
      (initSched kernStack img.pgdKern (schedOf img idle s)).mem :=
    congrArg Sched.mem sees'.shown
  rw [List.mem_singleton.mp member, mem, ← stack.atIdle]
  exact initSched_cr3 img.directory_lt

theorem ThreadHeap.kernelThread_step
    (stack : KernStackInImage img kernStack idle) {s₁ : ThreadState}
    {fn arg block pid : Nat}
    (state : ThreadHeap img frames idle created live s)
    (run : SchedRun kernStack img.pgdKern kthreadExit created
      (schedOf img idle s))
    (granted : onKernel (kmalloc img.pgdKern stackSize) s = .ok block s₁)
    (returned : kernelThreadPaged idle img.pgdKern fn kthreadExit arg s =
      .ok pid s') :
    ThreadHeap img frames idle (created ++ [block]) live s' ∧
      SchedRun kernStack img.pgdKern kthreadExit (created ++ [block])
        (schedOf img idle s') ∧
      FreshBlock kernStack created block ∧
      ThreadBlock img.pgdKern fn kthreadExit arg pid (threadMem img idle s')
        block ∧
      ∀ va, Owned idle created live va →
        threadMem img idle s' va = threadMem img idle s va := by
  obtain ⟨state₁, sameBut, pcbs, view⟩ :=
    state.kmalloc_step stack.inImage state.stack_request granted
  have run₁ : SchedRun kernStack img.pgdKern kthreadExit created
      (schedOf img idle s₁) := by
    rw [sameBut]
    exact run.compute (stack.samePcbs (sameBut ▸ pcbs))
  have ring₁ := run₁.ring stack.placed
  have fresh := state₁.freshBlock stack
  have nonzero : block ≠ 0 := by
    obtain ⟨chunks, heap, held⟩ := state₁.heap
    have bounds := heap.block_bounds held
      (List.mem_append_right _ (List.mem_cons_self ..))
    simp only [heapStart] at bounds
    omega
  obtain ⟨pid', s'', started, kept, sees, called⟩ :=
    state₁.startProc_computes stack ring₁ fn kthreadExit arg
  rw [kernelThreadPaged_granted granted nonzero, started] at returned
  cases returned
  refine ⟨state₁.startProc_step stack ring₁ kept sees called,
    run₁.kernelThread fresh called, fresh,
    (ring₁.kernelThread fresh called).2, ?_⟩
  intro va owned
  rw [state₁.startProc_keeps stack ring₁ called owned, sameBut]
  by_cases on : OnIdle idle va
  · rw [threadMem_idle on, threadMem_idle on]
  · have lower : heapStart ≤ va := by
      have inside := state.owned_inBlock owned
      unfold InBlock at inside
      unfold OnIdle at on
      omega
    obtain ⟨block, member, covers⟩ := owned_covered stack.inImage owned lower
    rw [stack.inImage.threadMem_heap lower,
      stack.inImage.threadMem_heap lower]
    exact view block member va covers

/-- The run of the kernel is a run of the scheduler. -/
theorem KernelRun.invariant (stack : KernStackInImage img kernStack idle)
    (usable : ∀ frame ∈ frames, UsableFrame img frame)
    (distinct : frames.Nodup)
    (run : KernelRun img frames kernStack idle kthreadExit created live s) :
    ThreadHeap img frames idle created live s ∧
      SchedRun kernStack img.pgdKern kthreadExit created
        (schedOf img idle s) := by
  induction run with
  | start booted first cr3 returned =>
      obtain ⟨state, shown⟩ := ThreadHeap.start stack usable distinct booted
        cr3 returned
      rw [shown]
      exact ⟨state, .start first⟩
  | kmalloc run request returned induction =>
      obtain ⟨state, sched⟩ := induction
      obtain ⟨state', sameBut, pcbs, -⟩ :=
        state.kmalloc_step stack.inImage request returned
      refine ⟨state', ?_⟩
      rw [sameBut]
      exact sched.compute (stack.samePcbs (sameBut ▸ pcbs))
  | kfree run member returned induction =>
      obtain ⟨state, sched⟩ := induction
      obtain ⟨state', sameBut, pcbs⟩ :=
        state.kfree_step stack.inImage member returned
      refine ⟨state', ?_⟩
      rw [sameBut]
      exact sched.compute (stack.samePcbs (sameBut ▸ pcbs))
  | store run owned returned induction =>
      obtain ⟨state, sched⟩ := induction
      obtain ⟨state', shown, pcbs⟩ := state.store_step stack
        (sched.ring stack.placed) owned returned
      refine ⟨state', ?_⟩
      rw [shown]
      exact sched.compute (stack.samePcbs pcbs)
  | compute run same induction =>
      obtain ⟨state, sched⟩ := induction
      refine ⟨⟨state.heap, same.trans state.cr3, state.directories⟩, ?_⟩
      exact sched.compute fun _ _ _ _ _ => rfl
  | kernelThread run granted returned induction =>
      obtain ⟨state, sched⟩ := induction
      obtain ⟨state', sched', -⟩ :=
        state.kernelThread_step stack sched granted returned
      exact ⟨state', sched'⟩
  | schedule run returned induction =>
      obtain ⟨state, sched⟩ := induction
      obtain ⟨state', shown⟩ :=
        state.schedule_step stack (sched.ring stack.placed) returned
      rw [shown]
      exact ⟨state', sched.schedule⟩

/-- Only `kmalloc` can fail. -/
theorem ThreadHeap.kernelThread_granted
    (stack : KernStackInImage img kernStack idle)
    (state : ThreadHeap img frames idle created live s)
    (run : SchedRun kernStack img.pgdKern kthreadExit created
      (schedOf img idle s))
    (fn arg : Nat) {p : Nat} {k : Kernel}
    (granted : kmalloc img.pgdKern stackSize s.kernel =
      .ok (p + headerSize) k) :
    onKernel (kmalloc img.pgdKern stackSize) s =
        .ok (p + headerSize) { s with kernel := k } ∧
      ∃ pid s', kernelThreadPaged idle img.pgdKern fn kthreadExit arg s =
        .ok pid s' := by
  have returned : onKernel (kmalloc img.pgdKern stackSize) s =
      .ok (p + headerSize) { s with kernel := k } := by
    simp only [onKernel, granted]
  obtain ⟨state₁, -, pcbs, -⟩ :=
    state.kmalloc_step stack.inImage state.stack_request returned
  have run₁ : SchedRun kernStack img.pgdKern kthreadExit created
      (schedOf img idle { s with kernel := k }) :=
    run.compute (stack.samePcbs pcbs)
  obtain ⟨pid, s', started, -⟩ := state₁.startProc_computes stack
    (run₁.ring stack.placed) fn kthreadExit arg
  refine ⟨returned, pid, s', ?_⟩
  rw [kernelThreadPaged_granted returned (by simp only [headerSize]; omega)]
  exact started

theorem ThreadHeap.kernelThread_total
    (stack : KernStackInImage img kernStack idle)
    (state : ThreadHeap img frames idle created live s)
    (run : SchedRun kernStack img.pgdKern kthreadExit created
      (schedOf img idle s))
    (fn arg : Nat) :
    (∃ s', kernelThreadPaged idle img.pgdKern fn kthreadExit arg s =
      .error (.panic "out of memory") s') ∨
    ∃ block s₁ pid s',
      onKernel (kmalloc img.pgdKern stackSize) s = .ok block s₁ ∧
      kernelThreadPaged idle img.pgdKern fn kthreadExit arg s =
        .ok pid s' := by
  obtain ⟨chunks, heap, held⟩ := state.heap
  rcases heap.kmalloc_spec
      (heap.safeRequest_iff.mp state.stack_request) with
    ⟨k, stopped, _⟩ | ⟨k, chunk, chunks', granted, allocated⟩
  · left
    refine ⟨{ s with kernel := k }, ?_⟩
    unfold kernelThreadPaged
    apply Outcome.bind_of_error
    simp only [onKernel, stopped]
  · right
    obtain ⟨returned, pid, s', started⟩ :=
      state.kernelThread_granted stack run fn arg granted
    exact ⟨_, _, pid, s', returned, started⟩

end Runs

/-- The run of the kernel is a run of `SchedRun`, and its threads form the
ring.  The blocks of created threads and of clients are mapped and apart; the
idle thread has its stack in the image.  The next
`kernel_thread` runs out of frames or starts a thread in a fresh block, the
next `schedule` returns, and both leave the blocks of clients and the stacks
alone. -/
theorem threads_on_heap (img : KernelImage) (frames : List Nat)
    (usable : ∀ frame ∈ frames, UsableFrame img frame)
    (distinct : frames.Nodup) {kernStack idle kthreadExit : Nat}
    (stack : KernStackInImage img kernStack idle) {created : List Nat}
    {live : List Block} {s : ThreadState}
    (run : KernelRun img frames kernStack idle kthreadExit created live s) :
    SchedRun kernStack img.pgdKern kthreadExit created (schedOf img idle s) ∧
    ThreadRing kernStack created (schedOf img idle s) ∧
    (threadBlocks created ++ live).Pairwise BlocksApart ∧
    (∀ block ∈ threadBlocks created ++ live, ∀ va, block.Covers va →
      (mmuWalk s.kernel.mem s.cpu.cr3 va).isSome) ∧
    (∀ fn arg, (∃ s', kernelThreadPaged idle img.pgdKern fn kthreadExit arg s =
        .error (.panic "out of memory") s') ∨
      ∃ block pid s', kernelThreadPaged idle img.pgdKern fn kthreadExit arg s =
          .ok pid s' ∧
        FreshBlock kernStack created block ∧
        ThreadBlock img.pgdKern fn kthreadExit arg pid
          (threadMem img idle s') block ∧
        ThreadRing kernStack (created ++ [block]) (schedOf img idle s') ∧
        ∀ va, Owned idle created live va →
          threadMem img idle s' va = threadMem img idle s va) ∧
    ∃ s', schedulePaged idle s = .ok () s' ∧
      schedOf img idle s' = schedule (schedOf img idle s) ∧
      ∀ va, Owned idle created live va →
        threadMem img idle s' va = threadMem img idle s va := by
  obtain ⟨state, sched⟩ := run.invariant stack usable distinct
  have ring := sched.ring stack.placed
  refine ⟨sched, ring.threadRing, ?_, ?_, ?_, ?_⟩
  · obtain ⟨chunks, heap, held⟩ := state.heap
    exact held.pairwise heap.placed
  · obtain ⟨chunks, heap, held⟩ := state.heap
    rw [state.cr3]
    exact fun block member va covers => heap.block_mapped held member covers
  · intro fn arg
    rcases state.kernelThread_total stack sched fn arg with
      stopped | ⟨block, s₁, pid, s', granted, returned⟩
    · exact .inl stopped
    · obtain ⟨state', sched', fresh, filled, kept⟩ :=
        state.kernelThread_step stack sched granted returned
      exact .inr ⟨block, pid, s', returned, fresh, filled,
        (sched'.ring stack.placed).threadRing, kept⟩
  · obtain ⟨s', returned, -, sees⟩ := state.schedule_computes stack ring
    refine ⟨s', returned, sees.shown, ?_⟩
    intro va owned
    rw [← state.schedule_keeps stack ring owned, ← sees.shown]
    rfl

/-! ### A run with one thread -/

def threadFrames : List Nat :=
  [0x207000, 0x206000, 0x205000, 0x204000, 0x203000, 0x202000, 0x201000,
    0x200000]

theorem threadFrames_usable :
    ∀ frame ∈ threadFrames, UsableFrame sampleImage frame := by
  intro frame member
  have bounds : frame % pageSize = 0 ∧
      sampleImage.kernEnd - pageOffset ≤ frame ∧ frame < pmmMaxSize := by
    revert frame
    decide
  exact .of_kernEnd bounds.1 bounds.2.1 bounds.2.2

def threadBoot : ThreadState where
  kernel := { sampleBoot with pmmStack := threadFrames, phyPageCount := 8 }
  idleBlock := fun _ => 0
  nowPid := 0
  runningProcHead := 0
  current := 0
  cpu := ⟨0, 0, 0, 0, 0, 0, sampleImage.pgdKern - pageOffset, 0⟩

theorem threadBoot_started :
    AfterBoot sampleImage threadFrames threadBoot.kernel :=
  ⟨fun _ => 0, threadBoot.kernel, ⟨fun _ _ _ => rfl, fun _ _ _ => rfl⟩, rfl,
    rfl, rfl, rfl⟩

theorem sampleStack : KernStackInImage sampleImage 0xC0180000 0xC0180000 :=
  ⟨⟨by decide, by decide⟩, by decide, Nat.le_refl _⟩

theorem threads_on_heap_oneThread :
    ∃ block s, KernelRun sampleImage threadFrames 0xC0180000 0xC0180000
        0xC0100500 [block] [] s ∧
      ThreadRing 0xC0180000 [block] (schedOf sampleImage 0xC0180000 s) ∧
      ∃ s', schedulePaged 0xC0180000 s = .ok () s' := by
  have distinct : threadFrames.Nodup := by decide
  have heap := HeapState.boot threadFrames_usable distinct threadBoot_started
  have sees : SeesThreads sampleImage threadFrames 0xC0180000
      threadBoot.kernel.heapMax threadBoot
      (schedOf sampleImage 0xC0180000 threadBoot) :=
    ⟨heap.paging, rfl, rfl, rfl⟩
  obtain ⟨s, returned, kept, -⟩ := initSchedPaged_computes sampleStack.inImage
    sees sampleStack.atIdle sampleImage.pgdKern
  have run : KernelRun sampleImage threadFrames 0xC0180000 0xC0180000
      0xC0100500 [] [] s := .start threadBoot_started rfl rfl returned
  obtain ⟨state, sched⟩ :=
    run.invariant sampleStack threadFrames_usable distinct
  obtain ⟨chunks, heap', held⟩ := state.heap
  obtain rfl := (heap'.empty_iff held).mpr rfl
  have servable : Servable [] stackSize := .inr (by decide)
  rcases heap'.kmalloc_cases servable with
    ⟨front, chunk, back, _, split, _⟩ | ⟨_, ⟨k, _, few⟩ | ⟨k, granted, _⟩⟩
  · simp at split
  · rw [kept.same.heapMax, kept.same.stack] at few
    exact absurd few (by decide)
  · obtain ⟨called, pid, s', started⟩ :=
      state.kernelThread_granted sampleStack sched 0xC0100600 0 granted
    have next := run.kernelThread called started
    obtain ⟨_, ring, _, _, _, s'', switched, _⟩ := threads_on_heap sampleImage
      threadFrames threadFrames_usable distinct sampleStack next
    exact ⟨_, s', next, ring, s'', switched⟩

end MiniOS
