import MiniOS.Mm.Pmm

/-!
# Two-level page tables (`vmm.c`)

The routines reach the page directory and the page tables through the direct
map, which puts the first 512 MB of physical memory (less page 0) at
`pageOffset`.  The processor itself walks physical addresses: `mmuWalk` is its
view of the same two levels.  The translation look-aside buffer is not part of
the state; every change of an entry is followed by its `invlpg`.
-/

namespace MiniOS

open ByteMemory

abbrev pagePresent : Nat := 0x1
abbrev pageWrite : Nat := 0x2
abbrev pageUser : Nat := 0x4

/-- `PGD_SIZE` and `PTE_SIZE`: entries in a directory and in a table. -/
abbrev pgdSize : Nat := pageSize / 4
abbrev pteSize : Nat := pageSize / 4

/-- `PTE_COUNT`: page tables of the direct map. -/
abbrev pteCount : Nat := 512 / 4

def pgdIndex (x : Nat) : Nat := x >>> 22 &&& 0x3FF

def pteIndex (x : Nat) : Nat := x >>> 12 &&& 0x3FF

/-- The `size` bytes at `va` lie in the direct map. -/
def InDirectMap (va size : Nat) : Prop :=
  pageOffset + pageSize ≤ va ∧ va + size ≤ pageOffset + pmmMaxSize

instance (va size : Nat) : Decidable (InDirectMap va size) :=
  inferInstanceAs (Decidable (_ ∧ _))

/-- Read the entry behind a `pgd_t *` or `pte_t *`. -/
def readEntry (va : Nat) : KernelM Nat := do
  let k ← get
  if InDirectMap va 4 then return load32 k.mem (va - pageOffset)
  else throw (.pageFault va)

/-- Write the entry behind a `pgd_t *` or `pte_t *`. -/
def writeEntry (va entry : Nat) : KernelM Unit := do
  let k ← get
  if InDirectMap va 4 then
    set { k with mem := store32 k.mem (va - pageOffset) entry }
  else throw (.pageFault va)

def bzero (dest len : Nat) : KernelM Unit := do
  let k ← get
  if InDirectMap dest len then
    set { k with mem := fill k.mem (dest - pageOffset) 0 len }
  else throw (.pageFault dest)

/-- `void map(pgd_t *pgd_now, uint32_t va, uint32_t pa, uint32_t flags)` -/
def map (pgdNow va pa flags : Nat) : KernelM Unit := do
  let pgdIdx := pgdIndex va
  let pteIdx := pteIndex va
  let entry ← readEntry (pgdNow + 4 * pgdIdx)
  if roundDown entry pageSize = 0 then
    let page ← pmmAllocPage
    writeEntry (pgdNow + 4 * pgdIdx) (page ||| pagePresent ||| pageWrite)
    let pte := uint32 (page + pageOffset)
    bzero pte pageSize
    writeEntry (pte + 4 * pteIdx) (roundDown pa pageSize ||| flags)
  else
    let pte := uint32 (roundDown entry pageSize + pageOffset)
    writeEntry (pte + 4 * pteIdx) (roundDown pa pageSize ||| flags)

/-- `void unmap(pgd_t *pgd_now, uint32_t va)` -/
def unmap (pgdNow va : Nat) : KernelM Unit := do
  let pgdIdx := pgdIndex va
  let pteIdx := pteIndex va
  let entry ← readEntry (pgdNow + 4 * pgdIdx)
  if roundDown entry pageSize = 0 then
    return ()
  else
    let pte := uint32 (roundDown entry pageSize + pageOffset)
    writeEntry (pte + 4 * pteIdx) 0

/-- `uint32_t get_mapping(pgd_t *pgd_now, uint32_t va, uint32_t *pa)`: `some`
is what `*pa` receives when the result is 1, `none` the result 0, where `*pa`
keeps its value. -/
def getMapping (pgdNow va : Nat) : KernelM (Option Nat) := do
  let pgdIdx := pgdIndex va
  let pteIdx := pteIndex va
  let entry ← readEntry (pgdNow + 4 * pgdIdx)
  if roundDown entry pageSize = 0 then
    return none
  else
    let pte := uint32 (roundDown entry pageSize + pageOffset)
    let entry ← readEntry (pte + 4 * pteIdx)
    if entry ≠ 0 then return some (roundDown entry pageSize)
    else return none

/-- The table-filling part of `init_vmm`.  It runs on the temporary page
tables, which map `pageOffset` to physical address 0. -/
def initVmm (pgdKern pteKern : Nat) (mem : Mem) : Mem :=
  let kernPteFirstIdx := pgdIndex pageOffset
  let filled := storeRange mem (pgdKern - pageOffset)
    (fun i => uint32 (pteKern + 4 * pteSize * (i - kernPteFirstIdx)
      - pageOffset) ||| pagePresent ||| pageWrite)
    kernPteFirstIdx pteCount
  storeRange filled (pteKern - pageOffset)
    (fun i => i <<< 12 ||| pagePresent ||| pageWrite)
    1 (pteCount * pteSize - 1)

/-- The processor's translation of `va` with the directory at the physical
address `cr3`: both levels must have the present bit. -/
def mmuWalk (mem : Mem) (cr3 va : Nat) : Option Nat :=
  let pde := load32 mem (cr3 + 4 * pgdIndex va)
  if pde % 2 = 0 then none
  else
    let pte := load32 mem (roundDown pde pageSize + 4 * pteIndex va)
    if pte % 2 = 0 then none
    else some (roundDown pte pageSize + va % pageSize)

theorem pgdIndex_eq (x : Nat) : pgdIndex x = x / 4194304 % 1024 := by
  rw [pgdIndex, Nat.shiftRight_eq_div_pow]
  exact Nat.and_two_pow_sub_one_eq_mod _ 10

theorem pteIndex_eq (x : Nat) : pteIndex x = x / 4096 % 1024 := by
  rw [pteIndex, Nat.shiftRight_eq_div_pow]
  exact Nat.and_two_pow_sub_one_eq_mod _ 10

theorem pgdIndex_lt (x : Nat) : pgdIndex x < 1024 := by
  rw [pgdIndex_eq]
  omega

theorem pteIndex_lt (x : Nat) : pteIndex x < 1024 := by
  rw [pteIndex_eq]
  omega

theorem readEntry_ok {k : Kernel} {va : Nat} (inside : InDirectMap va 4) :
    readEntry va k = .ok (load32 k.mem (va - pageOffset)) k := by
  simp [readEntry, inside]

theorem writeEntry_ok {k : Kernel} {va : Nat} (entry : Nat)
    (inside : InDirectMap va 4) :
    writeEntry va entry k =
      .ok () { k with mem := store32 k.mem (va - pageOffset) entry } := by
  simp [writeEntry, inside]

theorem bzero_ok {k : Kernel} {dest len : Nat}
    (inside : InDirectMap dest len) :
    bzero dest len k =
      .ok () { k with mem := fill k.mem (dest - pageOffset) 0 len } := by
  simp [bzero, inside]

end MiniOS
