import MiniOS.Kernel

/-!
# Physical page stack (`pmm.c`)

`init_pmm` runs under the temporary page tables of `kern_entry`, where the
addresses below 4 MB are their own translation.  The boot information is read
at the addresses the boot loader gave and is taken to lie there: a memory map
further up would page-fault.  One step of the walk goes on by the size of a
record in 32 bits.  The walk gets a round for every address, the loop over
frames one for every place on the stack and one more.
-/

namespace MiniOS

open ByteMemory

/-- The fields of `multiboot_t` that the memory code reads. -/
structure Multiboot where
  mmapLength : Nat
  mmapAddr : Nat

/-- `mmap_entry_t` of `multiboot.h` -/
structure MmapEntry where
  size : Nat
  baseAddrLow : Nat
  baseAddrHigh : Nat
  lengthLow : Nat
  lengthHigh : Nat
  type : Nat
  deriving DecidableEq, Repr

abbrev mmapEntrySize : Nat := 24

def readMmapEntry (mem : Mem) (mmap : Nat) : MmapEntry where
  size := load32 mem mmap
  baseAddrLow := load32 mem (mmap + 4)
  baseAddrHigh := load32 mem (mmap + 8)
  lengthLow := load32 mem (mmap + 12)
  lengthHigh := load32 mem (mmap + 16)
  type := load32 mem (mmap + 20)

/-- `uint32_t pmm_alloc_page()` -/
def pmmAllocPage : KernelM Nat := do
  let k ← get
  match k.pmmStack with
  | [] => throw (.panic "out of memory")
  | page :: rest =>
      set { k with pmmStack := rest }
      return page

/-- `void pmm_free_page(uint32_t p)` -/
def pmmFreePage (p : Nat) : KernelM Unit := do
  let k ← get
  assert (k.pmmStack.length != pageMaxSize) "out of pmm_stack stack"
  set { k with pmmStack := p :: k.pmmStack }

/-- `while (begin < end)` of `init_pmm` -/
def freeFrames (stop : Nat) : Nat → Nat → KernelM Unit
  | 0, _ => throw .spin
  | rounds + 1, start => do
      if start < stop then
        pmmFreePage start
        modify fun k => { k with phyPageCount := uint32 (k.phyPageCount + 1) }
        freeFrames stop rounds (uint32 (start + pmmPageSize))
      else return ()

/-- `begin` of a record, after the clamp and `ROUNDUP` -/
def frameBegin (phyKernEnd : Nat) (entry : MmapEntry) : Nat :=
  roundUp (if entry.baseAddrLow < phyKernEnd then phyKernEnd
    else entry.baseAddrLow) pmmPageSize

/-- `end` of a record, after `ROUNDDOWN` -/
def frameEnd (entry : MmapEntry) : Nat :=
  roundDown (uint32 (entry.baseAddrLow + entry.lengthLow)) pmmPageSize

/-- The body of the walk over the records. -/
def initPmmEntry (phyKernEnd : Nat) (entry : MmapEntry) : KernelM Unit := do
  if entry.type = 1 then
    if frameEnd entry < phyKernEnd then return ()
    else
      freeFrames (frameEnd entry) (pageMaxSize + 1)
        (frameBegin phyKernEnd entry)
  else return ()

/-- `for (mmap_entry_t *mmap = ...; ...; ++mmap)` of `init_pmm` -/
def initPmmLoop (phyKernEnd limit : Nat) : Nat → Nat → KernelM Unit
  | 0, _ => throw .spin
  | rounds + 1, mmap => do
      if mmap < limit then
        let k ← get
        initPmmEntry phyKernEnd (readMmapEntry k.mem mmap)
        initPmmLoop phyKernEnd limit rounds (uint32 (mmap + mmapEntrySize))
      else return ()

/-- `void init_pmm()` -/
def initPmm (glbMbootPtr : Multiboot) (kernEnd : Nat) : KernelM Unit :=
  initPmmLoop (kernEnd - pageOffset)
    (uint32 (glbMbootPtr.mmapAddr + glbMbootPtr.mmapLength)) 4294967296
    glbMbootPtr.mmapAddr

theorem pmmAllocPage_cons {k : Kernel} {page : Nat} {rest : List Nat}
    (stack : k.pmmStack = page :: rest) :
    pmmAllocPage k = .ok page { k with pmmStack := rest } := by
  simp [pmmAllocPage, stack]

theorem pmmAllocPage_nil {k : Kernel} (stack : k.pmmStack = []) :
    pmmAllocPage k = .error (.panic "out of memory") k := by
  simp [pmmAllocPage, stack]

theorem pmmFreePage_room {k : Kernel} (p : Nat)
    (room : k.pmmStack.length ≠ pageMaxSize) :
    pmmFreePage p k = .ok () { k with pmmStack := p :: k.pmmStack } := by
  simp [pmmFreePage, assert, room]

theorem pmmFreePage_full {k : Kernel} (p : Nat)
    (full : k.pmmStack.length = pageMaxSize) :
    pmmFreePage p k = .error (.panic "out of pmm_stack stack") k := by
  simp [pmmFreePage, assert, full]

end MiniOS
