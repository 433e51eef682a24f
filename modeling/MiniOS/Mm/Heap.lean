import MiniOS.Mm.Vmm

/-!
# Kernel heap (`heap.c`)

The chunk headers live inside the heap and are reached by their virtual
addresses, so every access goes through the processor's page walk: a header on
a page that is not mapped is a page fault.  A header is three words, `prev`,
`next` and one word with the bit-fields `allocated` (bit 0) and `length`.

The loops of the source have no bound of their own.  The list walk gets one
round for every 32-bit address, after which it has come back to a chunk it has
seen; the growth loop pops a frame in every round and the release loop pushes
one, so the page stack bounds both.
-/

namespace MiniOS

open ByteMemory

/-- `sizeof(header_t)` -/
abbrev headerSize : Nat := 12

/-- `a - b` in `uint32_t` -/
def sub32 (a b : Nat) : Nat := uint32 (a + 4294967296 - b)

theorem sub32_eq {a b : Nat} (le : b ≤ a) (small : a < 4294967296) :
    sub32 a b = a - b := by
  simp only [sub32, uint32]
  omega

section

variable (pgdKern : Nat)

def read8 (va : Nat) : KernelM UInt8 := do
  let k ← get
  match mmuWalk k.mem (pgdKern - pageOffset) va with
  | some pa => return k.mem pa
  | none => throw (.pageFault va)

def write8 (va : Nat) (byte : UInt8) : KernelM Unit := do
  let k ← get
  match mmuWalk k.mem (pgdKern - pageOffset) va with
  | some pa => set { k with mem := store8 k.mem pa byte }
  | none => throw (.pageFault va)

def read32 (va : Nat) : KernelM Nat := do
  let b₀ ← read8 pgdKern va
  let b₁ ← read8 pgdKern (va + 1)
  let b₂ ← read8 pgdKern (va + 2)
  let b₃ ← read8 pgdKern (va + 3)
  return word b₀ b₁ b₂ b₃

def write32 (va value : Nat) : KernelM Unit := do
  write8 pgdKern va (byteOf value 0)
  write8 pgdKern (va + 1) (byteOf value 1)
  write8 pgdKern (va + 2) (byteOf value 2)
  write8 pgdKern (va + 3) (byteOf value 3)

def getPrev (header : Nat) : KernelM Nat := read32 pgdKern header

def setPrev (header value : Nat) : KernelM Unit := write32 pgdKern header value

def getNext (header : Nat) : KernelM Nat := read32 pgdKern (header + 4)

def setNext (header value : Nat) : KernelM Unit :=
  write32 pgdKern (header + 4) value

def getAllocated (header : Nat) : KernelM Nat := do
  let bits ← read32 pgdKern (header + 8)
  return bits % 2

def setAllocated (header value : Nat) : KernelM Unit := do
  let bits ← read32 pgdKern (header + 8)
  write32 pgdKern (header + 8) (bits / 2 * 2 + value % 2)

def getLength (header : Nat) : KernelM Nat := do
  let bits ← read32 pgdKern (header + 8)
  return bits / 2

/-- The field has 31 bits. -/
def setLength (header value : Nat) : KernelM Unit := do
  let bits ← read32 pgdKern (header + 8)
  write32 pgdKern (header + 8) (value % 2147483648 * 2 + bits % 2)

/-- `if (node) node->prev = value` -/
def setPrevOf (node value : Nat) : KernelM Unit :=
  if node ≠ 0 then setPrev pgdKern node value else pure ()

/-- `if (node) node->next = value` -/
def setNextOf (node value : Nat) : KernelM Unit :=
  if node ≠ 0 then setNext pgdKern node value else pure ()

/-- `void init_heap()` -/
def initHeap : KernelM Unit :=
  modify fun k => { k with heapFirst := 0 }

/-- `while (start + len > heap_max)` of `alloc_chunk` -/
def allocChunkLoop (start len : Nat) : Nat → KernelM Unit
  | 0 => throw .spin
  | rounds + 1 => do
      let k ← get
      if k.heapMax < uint32 (start + len) then
        let page ← pmmAllocPage
        map pgdKern k.heapMax page (pagePresent ||| pageWrite)
        modify fun k => { k with heapMax := uint32 (k.heapMax + pageSize) }
        allocChunkLoop start len rounds
      else return ()

/-- `void alloc_chunk(uint32_t start, uint32_t len)` -/
def allocChunk (start len : Nat) : KernelM Unit := do
  let k ← get
  allocChunkLoop pgdKern start len (k.pmmStack.length + 1)

/-- The value of a local variable, which has none before its first
assignment. -/
def readLocal : Option Nat → KernelM Nat
  | some value => return value
  | none => throw .uninitialised

/-- `while ((heap_max - PAGE_SIZE) > (uint32_t)chunk)` of `free_chunk`.  The
result of `get_mapping` is not checked, so without a mapping `page` is an
uninitialised variable. -/
def freeChunkLoop (chunk : Nat) : Nat → KernelM Unit
  | 0 => throw .spin
  | rounds + 1 => do
      let k ← get
      let top := sub32 k.heapMax pageSize
      if chunk < top then
        set { k with heapMax := top }
        let page ← getMapping pgdKern top
        unmap pgdKern top
        pmmFreePage (← readLocal page)
        freeChunkLoop chunk rounds
      else return ()

/-- The last chunk leaves the list: the first half of `free_chunk`. -/
def dropChunk (chunk : Nat) : KernelM Unit := do
  let prev ← getPrev pgdKern chunk
  if prev = 0 then
    modify fun k => { k with heapFirst := 0 }
  else
    setNext pgdKern prev 0

/-- `void free_chunk(header_t *chunk)` -/
def freeChunk (chunk : Nat) : KernelM Unit := do
  dropChunk pgdKern chunk
  freeChunkLoop pgdKern chunk (pageMaxSize + 1)

/-- `void split_chunk(header_t *chunk, uint32_t len)` -/
def splitChunk (chunk len : Nat) : KernelM Unit := do
  let length ← getLength pgdKern chunk
  if headerSize < sub32 length len then
    let newChunk := uint32 (chunk + len)
    setPrev pgdKern newChunk chunk
    let next ← getNext pgdKern chunk
    setNext pgdKern newChunk next
    -- the new header may lie over the old one
    let next ← getNext pgdKern chunk
    setPrevOf pgdKern next newChunk
    setNext pgdKern chunk newChunk
    setAllocated pgdKern newChunk 0
    let length ← getLength pgdKern chunk
    setLength pgdKern newChunk (sub32 length len)
    setLength pgdKern chunk len

/-- `right`, the chunk behind `left`, is merged into it.  `glue_chunk` does
this with `chunk` and `chunk->next`, then with `chunk->prev` and `chunk`. -/
def absorb (left right : Nat) : KernelM Unit := do
  let length ← getLength pgdKern left
  let added ← getLength pgdKern right
  setLength pgdKern left (length + added)
  let next ← getNext pgdKern right
  setNext pgdKern left next
  setPrevOf pgdKern next left

/-- `chunk && chunk->allocated == 0` for a neighbour of a chunk -/
def isFree (chunk : Nat) : KernelM Bool := do
  if chunk = 0 then return false
  else
    let allocated ← getAllocated pgdKern chunk
    return allocated == 0

/-- The first merge of `glue_chunk`. -/
def glueNext (chunk : Nat) : KernelM Unit := do
  let next ← getNext pgdKern chunk
  if ← isFree pgdKern next then absorb pgdKern chunk next

/-- The second merge of `glue_chunk`; the result is `chunk` from there on. -/
def gluePrev (chunk : Nat) : KernelM Nat := do
  let prev ← getPrev pgdKern chunk
  if ← isFree pgdKern prev then
    absorb pgdKern prev chunk
    return prev
  else return chunk

/-- `void glue_chunk(header_t *chunk)` -/
def glueChunk (chunk : Nat) : KernelM Unit := do
  glueNext pgdKern chunk
  let chunk ← gluePrev pgdKern chunk
  let next ← getNext pgdKern chunk
  if next = 0 then freeChunk pgdKern chunk

/-- `while (cur_header)` of `kmalloc`: `inl` is the pointer returned from
inside the loop, `inr` the last value of `prev_header`. -/
def kmallocLoop (len : Nat) : Nat → Nat → Nat → KernelM (Nat ⊕ Nat)
  | 0, _, _ => throw .spin
  | rounds + 1, curHeader, prevHeader => do
      if curHeader = 0 then return .inr prevHeader
      else
        let allocated ← getAllocated pgdKern curHeader
        let length ← getLength pgdKern curHeader
        if allocated = 0 ∧ len ≤ length then
          splitChunk pgdKern curHeader len
          setAllocated pgdKern curHeader 1
          return .inl (uint32 (curHeader + headerSize))
        else
          let next ← getNext pgdKern curHeader
          kmallocLoop len rounds next curHeader

/-- Where a new chunk goes; an empty list gets its first chunk. -/
def chunkStart (prevHeader : Nat) : KernelM Nat := do
  if prevHeader ≠ 0 then
    let length ← getLength pgdKern prevHeader
    return uint32 (prevHeader + length)
  else
    modify fun k => { k with heapFirst := heapStart }
    return heapStart

/-- The part of `kmalloc` behind its loop. -/
def kmallocExtend (len prevHeader : Nat) : KernelM Nat := do
  let start ← chunkStart pgdKern prevHeader
  allocChunk pgdKern start len
  setAllocated pgdKern start 1
  setLength pgdKern start len
  setNextOf pgdKern prevHeader start
  setPrev pgdKern start prevHeader
  setNext pgdKern start 0
  return uint32 (start + headerSize)

/-- `void *kmalloc(uint32_t len)` -/
def kmalloc (len : Nat) : KernelM Nat := do
  let len := uint32 (len + headerSize)
  let k ← get
  match ← kmallocLoop pgdKern len 4294967296 k.heapFirst 0 with
  | .inl p => return p
  | .inr prevHeader => kmallocExtend pgdKern len prevHeader

/-- `void kfree(void *p)` -/
def kfree (p : Nat) : KernelM Unit := do
  let header := sub32 p headerSize
  setAllocated pgdKern header 0
  glueChunk pgdKern header

end

end MiniOS
