import MiniOS.Lib.StateView
import MiniOS.Mm.HeapContract
import MiniOS.Schedule.Ring

/-!
# The memory of threads

The block of the idle thread, `kern_stack`, lies in the image at `idle`, those
of the other threads on the kernel heap.  Every access goes through the
directory in `cr3`.  Like the static variables of `pmm.c` and `heap.c` the idle
thread's block is kept apart from the frames.  `schedOf` shows both parts as
the one memory of `Sched`.
-/

namespace MiniOS

open ByteMemory

structure ThreadState where
  kernel : Kernel
  /-- The bytes of the idle thread's block, by virtual address. -/
  idleBlock : Mem
  nowPid : Nat
  runningProcHead : Nat
  current : Nat
  cpu : Cpu

abbrev ThreadM := EStateM Stop ThreadState

def OnIdle (idle va : Nat) : Prop :=
  idle ≤ va ∧ va < idle + stackSize

instance (idle va : Nat) : Decidable (OnIdle idle va) :=
  inferInstanceAs (Decidable (_ ∧ _))

/-- The page directory in `cr3`, by the virtual address it has in the image. -/
def ThreadState.directory (s : ThreadState) : Nat := s.cpu.cr3 + pageOffset

def onKernel {α : Type} (routine : KernelM α) : ThreadM α := fun s =>
  match routine s.kernel with
  | .ok a k => .ok a { s with kernel := k }
  | .error stop k => .error stop { s with kernel := k }

section Accesses

variable (idle : Nat)

def readByte (va : Nat) : ThreadM UInt8 := do
  let s ← get
  if OnIdle idle va then return s.idleBlock va
  else onKernel (read8 s.directory va)

def writeByte (va : Nat) (byte : UInt8) : ThreadM Unit := do
  let s ← get
  if OnIdle idle va then
    set { s with idleBlock := store8 s.idleBlock va byte }
  else onKernel (write8 s.directory va byte)

def readWord (va : Nat) : ThreadM Nat := do
  let b₀ ← readByte idle va
  let b₁ ← readByte idle (va + 1)
  let b₂ ← readByte idle (va + 2)
  let b₃ ← readByte idle (va + 3)
  return word b₀ b₁ b₂ b₃

def writeWord (va value : Nat) : ThreadM Unit := do
  writeByte idle va (byteOf value 0)
  writeByte idle (va + 1) (byteOf value 1)
  writeByte idle (va + 2) (byteOf value 2)
  writeByte idle (va + 3) (byteOf value 3)

def clearBytes (dest : Nat) : Nat → ThreadM Unit
  | 0 => return ()
  | len + 1 => do
      writeByte idle dest 0
      clearBytes (dest + 1) len

def copyString (dest : Nat) : List UInt8 → ThreadM Unit
  | [] => writeByte idle dest 0
  | char :: src => do
      writeByte idle dest char
      copyString (dest + 1) src

end Accesses

/-! ## The view -/

def IdleInImage (img : KernelImage) (idle : Nat) : Prop :=
  idle + stackSize ≤ img.kernEnd

section View

variable (img : KernelImage) (frames : List Nat) (idle top : Nat)

/-- The blocks of all threads as they are seen through the page tables. -/
def threadMem (s : ThreadState) : Mem := fun va =>
  if OnIdle idle va then s.idleBlock va else heapView img s.kernel va

def schedOf (s : ThreadState) : Sched where
  mem := threadMem img idle s
  nowPid := s.nowPid
  runningProcHead := s.runningProcHead
  current := s.current
  cpu := s.cpu

/-- The heap ends at `top`, and `t` is what the threads see. -/
structure SeesThreads (s : ThreadState) (t : Sched) : Prop where
  paging : HeapPaging img frames s.kernel
  heapMax : s.kernel.heapMax = top
  cr3 : s.cpu.cr3 = img.pgdKern - pageOffset
  shown : schedOf img idle s = t

structure KeepsHeap (s s' : ThreadState) : Prop where
  same : SamePaging img s.kernel s'.kernel
  first : s'.kernel.heapFirst = s.kernel.heapFirst
  count : s'.kernel.phyPageCount = s.kernel.phyPageCount

def threadView : StateView ThreadState Sched where
  Sees := SeesThreads img frames idle top
  Keeps := KeepsHeap img
  refl s := ⟨.refl img s.kernel, rfl, rfl⟩
  trans one two := ⟨one.same.trans two.same, two.first.trans one.first,
    two.count.trans one.count⟩

end View

def InBlock (idle top va size : Nat) : Prop :=
  (idle ≤ va ∧
    va + size ≤ idle + stackSize) ∨
    heapStart ≤ va ∧ va + size ≤ top

section InBlock

variable {idle top va size count offset : Nat}

theorem InBlock.front (inside : InBlock idle top va size)
    (shorter : count ≤ size) : InBlock idle top va count := by
  unfold InBlock at *
  omega

theorem InBlock.part (inside : InBlock idle top va size)
    (fits : offset + count ≤ size) :
    InBlock idle top (va + offset) count := by
  unfold InBlock at *
  omega

end InBlock

theorem IdleInImage.below_heap {img : KernelImage} {idle : Nat}
    (inImage : IdleInImage img idle) : idle + stackSize ≤ heapStart := by
  have kernEnd := img.kernEnd_upper
  unfold IdleInImage at inImage
  simp only [pageOffset, pmmMaxSize, heapStart] at *
  omega

theorem IdleInImage.heap_not_idle {img : KernelImage} {idle va : Nat}
    (inImage : IdleInImage img idle) (lower : heapStart ≤ va) :
    ¬OnIdle idle va := by
  have below := inImage.below_heap
  unfold OnIdle
  omega

section Steps

variable {img : KernelImage} {frames : List Nat} {idle top : Nat}
variable {s : ThreadState} {t : Sched} {mem : Mem}
variable {nowPid runningProcHead current : Nat} {cpu : Cpu}

theorem SeesThreads.directory
    (sees : SeesThreads img frames idle top s t) :
    s.directory = img.pgdKern := by
  have lower := img.pgd_lower
  rw [ThreadState.directory, sees.cr3]
  exact Nat.sub_add_cancel (Nat.le_trans (Nat.le_add_right ..) lower)

theorem write8_count {pgdKern va : Nat} {byte : UInt8} {k k' : Kernel}
    (returned : write8 pgdKern va byte k = .ok () k') :
    k'.phyPageCount = k.phyPageCount := by
  simp only [write8, KernelM.get_bind] at returned
  cases walk : mmuWalk k.mem (pgdKern - pageOffset) va <;>
    simp only [walk] at returned <;> cases returned
  rfl

theorem threadMem_idle {va : Nat} (on : OnIdle idle va) :
    threadMem img idle s va = s.idleBlock va := by
  rw [threadMem, if_pos on]

theorem IdleInImage.threadMem_heap (inImage : IdleInImage img idle)
    {va : Nat} (lower : heapStart ≤ va) :
    threadMem img idle s va = heapView img s.kernel va := by
  rw [threadMem, if_neg (inImage.heap_not_idle lower)]

theorem readByte_computes (inImage : IdleInImage img idle)
    (sees : SeesThreads img frames idle top s
      ⟨mem, nowPid, runningProcHead, current, cpu⟩) {va : Nat}
    (inside : InBlock idle top va 1) :
    (threadView img frames idle top).Computes s (readByte idle va)
      (mem va) ⟨mem, nowPid, runningProcHead, current, cpu⟩ := by
  have shown := sees.shown
  simp only [schedOf, Sched.mk.injEq] at shown
  obtain ⟨rfl, rfl, rfl, rfl, rfl⟩ := shown
  unfold readByte
  apply StateView.Computes.get
  rcases inside with first | ⟨lower, upper⟩
  · have on : OnIdle idle va := first
    rw [if_pos on, threadMem_idle on]
    exact .pure sees _
  · have off := inImage.heap_not_idle lower
    have read := sees.paging.read8_ok va lower (sees.heapMax ▸ upper)
    rw [if_neg off, inImage.threadMem_heap lower]
    refine ⟨s, ?_, (threadView img frames idle top).refl s, sees⟩
    simp only [onKernel, sees.directory, read]

theorem writeByte_computes (inImage : IdleInImage img idle)
    (sees : SeesThreads img frames idle top s
      ⟨mem, nowPid, runningProcHead, current, cpu⟩) {va : Nat}
    (byte : UInt8) (inside : InBlock idle top va 1) :
    (threadView img frames idle top).Computes s
      (writeByte idle va byte) ()
      ⟨store8 mem va byte, nowPid, runningProcHead, current, cpu⟩ := by
  have shown := sees.shown
  simp only [schedOf, Sched.mk.injEq] at shown
  obtain ⟨rfl, rfl, rfl, rfl, rfl⟩ := shown
  unfold writeByte
  apply StateView.Computes.get
  rcases inside with first | ⟨lower, upper⟩
  · have on : OnIdle idle va := first
    rw [if_pos on]
    refine ⟨_, rfl, ⟨.refl img s.kernel, rfl, rfl⟩,
      ⟨sees.paging, sees.heapMax, sees.cr3, ?_⟩⟩
    have mem : threadMem img idle
        { s with idleBlock := store8 s.idleBlock va byte } =
          store8 (threadMem img idle s) va byte := by
      funext x
      by_cases same : x = va
      · subst same
        simp [threadMem, on]
      · simp only [threadMem, store8_other _ _ same]
    simp only [schedOf, mem]
  · have off := inImage.heap_not_idle lower
    obtain ⟨k, returned, wrote⟩ := sees.paging.write8_ok va byte lower
      (sees.heapMax ▸ upper)
    rw [if_neg off]
    refine ⟨{ s with kernel := k }, ?_,
      ⟨wrote.same, wrote.first, write8_count returned⟩,
      ⟨wrote.paging, wrote.same.heapMax.trans sees.heapMax, sees.cr3, ?_⟩⟩
    · simp only [onKernel, sees.directory, returned]
    · have mem : threadMem img idle { s with kernel := k } =
          store8 (threadMem img idle s) va byte := by
        funext x
        by_cases same : x = va
        · subst same
          simp [threadMem, off, wrote.view_eq]
        · simp only [threadMem, wrote.view_eq, store8_other _ _ same]
      simp only [schedOf, mem]

theorem readWord_computes (inImage : IdleInImage img idle)
    (sees : SeesThreads img frames idle top s
      ⟨mem, nowPid, runningProcHead, current, cpu⟩) {va : Nat}
    (inside : InBlock idle top va 4) :
    (threadView img frames idle top).Computes s (readWord idle va)
      (load32 mem va) ⟨mem, nowPid, runningProcHead, current, cpu⟩ := by
  unfold readWord
  refine (readByte_computes inImage sees (inside.front (by decide))).bind
    fun s₁ _ sees₁ => ?_
  refine (readByte_computes inImage sees₁ (inside.part (by decide))).bind
    fun s₂ _ sees₂ => ?_
  refine (readByte_computes inImage sees₂ (inside.part (by decide))).bind
    fun s₃ _ sees₃ => ?_
  refine (readByte_computes inImage sees₃ (inside.part (by decide))).bind
    fun s₄ _ sees₄ => ?_
  exact .pure sees₄ _

theorem writeWord_computes (inImage : IdleInImage img idle)
    (sees : SeesThreads img frames idle top s
      ⟨mem, nowPid, runningProcHead, current, cpu⟩) {va : Nat}
    (value : Nat) (inside : InBlock idle top va 4) :
    (threadView img frames idle top).Computes s
      (writeWord idle va value) ()
      ⟨store32 mem va value, nowPid, runningProcHead, current, cpu⟩ := by
  unfold writeWord
  refine (writeByte_computes inImage sees _ (inside.front (by decide))).bind
    fun s₁ _ sees₁ => ?_
  refine (writeByte_computes inImage sees₁ _ (inside.part (by decide))).bind
    fun s₂ _ sees₂ => ?_
  refine (writeByte_computes inImage sees₂ _ (inside.part (by decide))).bind
    fun s₃ _ sees₃ => ?_
  exact writeByte_computes inImage sees₃ _ (inside.part (by decide))

theorem clearBytes_computes (inImage : IdleInImage img idle)
    (sees : SeesThreads img frames idle top s
      ⟨mem, nowPid, runningProcHead, current, cpu⟩) {dest : Nat}
    (len : Nat) (inside : InBlock idle top dest len) :
    (threadView img frames idle top).Computes s
      (clearBytes idle dest len) ()
      ⟨fill mem dest 0 len, nowPid, runningProcHead, current, cpu⟩ := by
  induction len generalizing s mem dest with
  | zero =>
      rw [clearBytes, fill]
      exact .pure sees _
  | succ len induction =>
      rw [clearBytes, fill]
      refine (writeByte_computes inImage sees 0
        (inside.front (by omega))).bind fun s₁ _ sees₁ => ?_
      exact induction sees₁ (inside.part (by omega))

theorem copyString_computes (inImage : IdleInImage img idle)
    (sees : SeesThreads img frames idle top s
      ⟨mem, nowPid, runningProcHead, current, cpu⟩) {dest : Nat}
    (src : List UInt8)
    (inside : InBlock idle top dest (src.length + 1)) :
    (threadView img frames idle top).Computes s
      (copyString idle dest src) ()
      ⟨strcpy mem dest src, nowPid, runningProcHead, current, cpu⟩ := by
  induction src generalizing s mem dest with
  | nil => exact writeByte_computes inImage sees 0 inside
  | cons char src induction =>
      rw [List.length_cons] at inside
      refine (writeByte_computes inImage sees char
        (inside.front (by omega))).bind fun s₁ _ sees₁ => ?_
      exact induction sees₁ (inside.part (by omega))

end Steps

end MiniOS
