import MiniOS.Mm.HeapRun
import MiniOS.Schedule.Process

/-!
# The first page tables (`entry.c`)

`kern_entry` maps the first 4 MB of memory to themselves and to `PAGE_OFFSET`
and turns paging on; on these tables the kernel runs until `init_vmm` has
filled its own through them and `switch_pgd` has loaded them.
-/

namespace MiniOS

open ByteMemory

/-! ## `kern_entry` -/

abbrev pgdTmp : Nat := 0x1000
abbrev pteLow : Nat := 0x2000
abbrev pteHign : Nat := 0x3000

/-- What `kern_entry` works on; `kern_stack_top` and `glb_mboot_ptr` are kept
apart from memory. -/
structure EntryState where
  mem : Mem
  cr0 : Nat
  cr3 : Nat
  esp : Nat
  ebp : Nat
  kernStackTop : Nat
  glbMbootPtr : Nat

namespace EntryState

/-- Bit 31 of `cr0` turns paging on. -/
def translate (s : EntryState) (va : Nat) : Option Nat :=
  if s.cr0.testBit 31 then mmuWalk s.mem s.cr3 va else some va

end EntryState

/-- The stores of `kern_entry` to the temporary tables. -/
def fillTmp (mem : Mem) : Mem :=
  let entry (i : Nat) : Nat := i <<< 12 ||| pagePresent ||| pageWrite
  let mem := store32 mem pgdTmp (pteLow ||| pagePresent ||| pageWrite)
  let mem := store32 mem (pgdTmp + 4 * pgdIndex pageOffset)
    (pteHign ||| pagePresent ||| pageWrite)
  let mem := storeRange mem pteLow entry 0 1024
  storeRange mem pteHign entry 0 1024

/-- `kern_entry` up to the call of `kern_init`. -/
def kernEntry (kernStack tmpMbootPtr : Nat) (s : EntryState) : EntryState :=
  let s := { s with mem := fillTmp s.mem }
  let s := { s with cr3 := pgdTmp }
  let s := { s with cr0 := s.cr0 ||| 0x80000000 }
  let s := { s with kernStackTop := kernStackTop kernStack }
  let s := { s with esp := s.kernStackTop, ebp := 0 }
  { s with glbMbootPtr := uint32 (tmpMbootPtr + pageOffset) }

/-! ## The temporary tables -/

/-- Both windows of 4 MB lead to the first 4 MB of memory; the other entries
of the directory are whatever was there. -/
structure TmpTables (mem : Mem) : Prop where
  low : load32 mem pgdTmp = pteLow + 3
  high : load32 mem (pgdTmp + 4 * 768) = pteHign + 3
  lowEntry : ∀ i < 1024, load32 mem (pteLow + 4 * i) = i * pageSize + 3
  highEntry : ∀ i < 1024, load32 mem (pteHign + 4 * i) = i * pageSize + 3

theorem tmpEntry_eq {i : Nat} (inTable : i < 1024) :
    (i <<< 12 ||| pagePresent ||| pageWrite) % 4294967296 =
      i * pageSize + 3 := by
  have shift : i <<< 12 = i * pageSize := by
    simp [Nat.shiftLeft_eq, pageSize]
  rw [shift, Nat.or_assoc, or_flags (Nat.mul_mod_left ..) (by decide)]
  have flags : pagePresent ||| pageWrite = 3 := by decide
  rw [flags]
  apply Nat.mod_eq_of_lt
  simp only [pageSize]
  omega

theorem fillTmp_tables (mem : Mem) : TmpTables (fillTmp mem) := by
  have index : pgdIndex pageOffset = 768 := by decide
  unfold fillTmp
  rw [index]
  constructor
  · rw [load32_storeRange_disjoint _ _ (by decide),
      load32_storeRange_disjoint _ _ (by decide),
      load32_store32_disjoint _ _ (by decide), load32_store32_same]
    rfl
  · rw [load32_storeRange_disjoint _ _ (by decide),
      load32_storeRange_disjoint _ _ (by decide), load32_store32_same]
    rfl
  · intro i inTable
    rw [load32_storeRange_disjoint _ _ (by simp only [pteLow, pteHign]; omega),
      load32_storeRange_inside _ _ (by omega) (by omega), tmpEntry_eq inTable]
  · intro i inTable
    rw [load32_storeRange_inside _ _ (by omega) (by omega),
      tmpEntry_eq inTable]

theorem fillTmp_outside (mem : Mem) {x : Nat}
    (outside : x < pgdTmp ∨ pteHign + pageSize ≤ x) :
    fillTmp mem x = mem x := by
  have index : pgdIndex pageOffset = 768 := by decide
  unfold fillTmp
  simp only [pgdTmp, pteLow, pteHign, pageSize] at *
  rw [index, storeRange_outside _ _ (by omega),
    storeRange_outside _ _ (by omega), store32_outside _ _ (by omega),
    store32_outside _ _ (by omega)]

namespace TmpTables

variable {mem mem' : Mem}

theorem congr (tables : TmpTables mem)
    (same : ∀ x, pgdTmp ≤ x → x < pteHign + pageSize → mem' x = mem x) :
    TmpTables mem' := by
  have word : ∀ address, pgdTmp ≤ address →
      address + 4 ≤ pteHign + pageSize →
      load32 mem' address = load32 mem address := by
    intro address lower upper
    apply load32_congr
    intro x above below
    exact same x (by omega) (by omega)
  constructor
  · rw [word _ (by decide) (by decide)]
    exact tables.low
  · rw [word _ (by decide) (by decide)]
    exact tables.high
  · intro i inTable
    rw [word _ (by simp only [pgdTmp, pteLow]; omega)
      (by simp only [pteLow, pteHign, pageSize]; omega)]
    exact tables.lowEntry i inTable
  · intro i inTable
    rw [word _ (by simp only [pgdTmp, pteHign]; omega)
      (by simp only [pteHign, pageSize]; omega)]
    exact tables.highEntry i inTable

/-- A table that maps its window to the first 4 MB. -/
theorem walk (va : Nat) {table : Nat} (aligned : table % pageSize = 0)
    (pde : load32 mem (pgdTmp + 4 * pgdIndex va) = table + 3)
    (entries : ∀ i < 1024, load32 mem (table + 4 * i) = i * pageSize + 3) :
    mmuWalk mem pgdTmp va = some (va % 4194304) := by
  have inTable := pteIndex_lt va
  have slot := pteIndex_eq va
  have base : roundDown (table + 3) pageSize = table :=
    roundDown_add_flags aligned (by decide)
  have odd : (table + 3) % 2 ≠ 0 := by
    simp only [pageSize] at aligned
    omega
  have frame : roundDown (pteIndex va * pageSize + 3) pageSize =
      pteIndex va * pageSize :=
    roundDown_add_flags (Nat.mul_mod_left ..) (by decide)
  have present : (pteIndex va * pageSize + 3) % 2 ≠ 0 := by
    simp only [pageSize]
    omega
  unfold mmuWalk
  simp only [pde, base, entries _ inTable, frame]
  rw [if_neg odd, if_neg present, slot]
  simp only [pageSize, Option.some.injEq]
  omega

theorem walk_low (tables : TmpTables mem) {va : Nat} (inside : va < 4194304) :
    mmuWalk mem pgdTmp va = some va := by
  have index : pgdIndex va = 0 := by
    rw [pgdIndex_eq]
    omega
  have translated := walk va (by decide) (by
    rw [index]
    exact tables.low) tables.lowEntry
  rw [translated, Nat.mod_eq_of_lt inside]

theorem walk_high (tables : TmpTables mem) (va : Nat)
    (lower : pageOffset ≤ va)
    (upper : va < pageOffset + 4194304) :
    mmuWalk mem pgdTmp va = some (va - pageOffset) := by
  simp only [pageOffset] at *
  have index : pgdIndex va = 768 := by
    rw [pgdIndex_eq]
    omega
  have translated := walk va (by decide) (by
    rw [index]
    exact tables.high) tables.highEntry
  have offset : va % 4194304 = va - 3221225472 := by omega
  rw [translated, offset]

end TmpTables

/-! ## `init_vmm` on the temporary tables -/

def storeEntry (cr3 va value : Nat) (mem : Mem) : Option Mem :=
  (mmuWalk mem cr3 va).map fun pa => store32 mem pa value

def storeEntries (cr3 base : Nat) (values : Nat → Nat) (first count : Nat)
    (mem : Mem) : Option Mem :=
  (List.range' first count).foldlM
    (fun mem i => storeEntry cr3 (base + 4 * i) (values i) mem) mem

/-- The table-filling part of `init_vmm` by the virtual addresses it uses. -/
def initVmmPaged (cr3 pgdKern pteKern : Nat) (mem : Mem) : Option Mem := do
  let kernPteFirstIdx := pgdIndex pageOffset
  let mem ← storeEntries cr3 pgdKern
    (fun i => uint32 (pteKern + 4 * pteSize * (i - kernPteFirstIdx)
      - pageOffset) ||| pagePresent ||| pageWrite)
    kernPteFirstIdx pteCount mem
  storeEntries cr3 pteKern (fun i => i <<< 12 ||| pagePresent ||| pageWrite)
    1 (pteCount * pteSize - 1) mem

/-- The image is where the linker puts it, within the first 4 MB. -/
structure LowImage (img : KernelImage) : Prop where
  pgd_lower : pageOffset + 0x100000 ≤ img.pgdKern
  pte_lower : pageOffset + 0x100000 ≤ img.pteKern
  upper : img.kernEnd ≤ pageOffset + 4194304

/-- Stores behind the temporary tables go where the high window leads. -/
theorem TmpTables.storeEntries {mem : Mem} (tables : TmpTables mem)
    (base first count : Nat) (values : Nat → Nat)
    (lower : pageOffset + 0x100000 ≤ base)
    (upper : base + 4 * (first + count) ≤ pageOffset + 4194304) :
    storeEntries pgdTmp base values first count mem =
        some (storeRange mem (base - pageOffset) values first count) ∧
      TmpTables (storeRange mem (base - pageOffset) values first count) := by
  have kept : ∀ count,
      TmpTables (storeRange mem (base - pageOffset) values first count) := by
    intro count
    apply tables.congr
    intro x above below
    apply storeRange_outside
    simp only [pageOffset, pteHign, pageSize] at *
    omega
  refine ⟨?_, kept count⟩
  induction count with
  | zero => rw [MiniOS.storeEntries, storeRange]; rfl
  | succ count induction =>
      have before := induction (by omega)
      have walk := (kept count).walk_high (base + 4 * (first + count))
        (by omega) (by omega)
      have address : base + 4 * (first + count) - pageOffset =
          base - pageOffset + 4 * (first + count) := by omega
      rw [MiniOS.storeEntries] at before ⊢
      rw [List.range'_concat, List.foldlM_append, before, storeRange_succ,
        Nat.one_mul]
      simp only [Option.bind_eq_bind, Option.bind_some, List.foldlM_cons,
        List.foldlM_nil, storeEntry, walk, address, Option.map_some,
        Option.pure_def]

theorem LowImage.initVmmPaged {img : KernelImage} (low : LowImage img)
    {mem : Mem} (tables : TmpTables mem) :
    initVmmPaged pgdTmp img.pgdKern img.pteKern mem =
        some (initVmm img.pgdKern img.pteKern mem) ∧
      TmpTables (initVmm img.pgdKern img.pteKern mem) := by
  have pgdUpper := img.pgd_upper
  have pteUpper := img.pte_upper
  have upper := low.upper
  have index : pgdIndex pageOffset = 768 := by decide
  obtain ⟨directory, tables₁⟩ := tables.storeEntries img.pgdKern
    (pgdIndex pageOffset) pteCount
    (fun i => uint32 (img.pteKern + 4 * pteSize * (i - pgdIndex pageOffset)
      - pageOffset) ||| pagePresent ||| pageWrite) low.pgd_lower (by
        rw [index]
        simp only [pageSize, pteCount] at *
        omega)
  obtain ⟨entries, tables₂⟩ := tables₁.storeEntries img.pteKern 1
    (pteCount * pteSize - 1)
    (fun i => i <<< 12 ||| pagePresent ||| pageWrite) low.pte_lower (by
        simp only [pageSize, pteCount, pteSize] at *
        omega)
  exact ⟨Option.bind_eq_some_iff.mpr ⟨_, directory, entries⟩, tables₂⟩

/-- The stores of `kern_entry` miss the image. -/
theorem LowImage.bssZero {img : KernelImage} (low : LowImage img) {mem : Mem}
    (zero : img.BssZero mem) : img.BssZero (fillTmp mem) := by
  have pgdLower := low.pgd_lower
  have pteLower := low.pte_lower
  constructor
  · intro x lower upper
    rw [fillTmp_outside mem (.inr (by
      simp only [pageOffset, pteHign, pageSize] at *
      omega))]
    exact zero.1 x lower upper
  · intro x lower upper
    rw [fillTmp_outside mem (.inr (by
      simp only [pageOffset, pteHign, pageSize] at *
      omega))]
    exact zero.2 x lower upper

/-! ## The handover -/

theorem mmuWalk_initVmm {img : KernelImage} {mem : Mem}
    (zero : img.BssZero mem) :
    (∀ va, pageOffset + pageSize ≤ va → va < pageOffset + pmmMaxSize →
      mmuWalk (initVmm img.pgdKern img.pteKern mem)
        (img.pgdKern - pageOffset) va = some (va - pageOffset)) ∧
    ∀ va < pageOffset + pageSize,
      mmuWalk (initVmm img.pgdKern img.pteKern mem)
        (img.pgdKern - pageOffset) va = none := by
  have started : AfterBoot img []
      ⟨initVmm img.pgdKern img.pteKern mem, [], 0, 0, heapStart⟩ :=
    ⟨mem, ⟨initVmm img.pgdKern img.pteKern mem, [], 0, 0, heapStart⟩, zero,
      rfl, rfl, rfl, rfl⟩
  have paging := HeapPaging.boot (by simp) List.nodup_nil started
  constructor
  · intro va lower upper
    have above : pageSize ≤ va - pageOffset := Nat.le_sub_of_add_le' lower
    have below : va - pageOffset < pmmMaxSize := by
      simp only [pageOffset] at *
      omega
    have walk := paging.walk_direct above below
    rwa [Nat.sub_add_cancel (Nat.le_trans (Nat.le_add_right ..) lower)]
      at walk
  · intro va upper
    have entry := paging.direct va (by
      simp only [pageOffset, pageSize, heapStart] at *
      omega)
    rw [directPte, if_neg (by omega)] at entry
    have small : va < 4294967296 := Nat.lt_trans upper (by decide)
    have walk := paging.mmuWalk_eq small
    rwa [if_pos entry] at walk

/-- `kern_entry` turns paging on where it runs, and its tables show the image
at its own addresses too; on them `init_vmm` fills the tables of the kernel.
Loading these changes no translation of the image, and takes the low addresses
away. -/
theorem boot_paging (img : KernelImage) (low : LowImage img)
    (kernStack tmpMbootPtr : Nat) {s : EntryState}
    (unpaged : s.cr0.testBit 31 = false) (zero : img.BssZero s.mem) :
    let s' := kernEntry kernStack tmpMbootPtr s
    let mem := initVmm img.pgdKern img.pteKern s'.mem
    (∀ va < 4194304, s.translate va = some va ∧ s'.translate va = some va ∧
      s'.translate (pageOffset + va) = some va) ∧
    initVmmPaged s'.cr3 img.pgdKern img.pteKern s'.mem = some mem ∧
    (∀ va, pageOffset + pageSize ≤ va → va < pageOffset + 4194304 →
      mmuWalk mem s'.cr3 va = some (va - pageOffset)) ∧
    (∀ va, pageOffset + pageSize ≤ va → va < pageOffset + pmmMaxSize →
      mmuWalk mem (img.pgdKern - pageOffset) va = some (va - pageOffset)) ∧
    ∀ va < pageOffset + pageSize,
      mmuWalk mem (img.pgdKern - pageOffset) va = none := by
  intro s' mem
  have tables : TmpTables s'.mem := fillTmp_tables s.mem
  have paged : s'.cr0.testBit 31 = true := by
    have bit : s'.cr0 = s.cr0 ||| 0x80000000 := rfl
    rw [bit, Nat.testBit_or, unpaged]
    decide
  obtain ⟨filled, tables'⟩ := low.initVmmPaged tables
  obtain ⟨shown, hidden⟩ := mmuWalk_initVmm (low.bssZero zero)
  refine ⟨?_, filled, ?_, shown, hidden⟩
  · intro va inside
    have high := tables.walk_high (pageOffset + va)
      (Nat.le_add_right ..) (Nat.add_lt_add_left inside _)
    rw [Nat.add_sub_cancel_left] at high
    unfold EntryState.translate
    rw [unpaged, paged]
    exact ⟨rfl, tables.walk_low inside, high⟩
  · intro va lower upper
    exact tables'.walk_high va (Nat.le_trans (Nat.le_add_right ..) lower) upper

theorem sampleImage_low : LowImage sampleImage :=
  ⟨by decide, by decide, by decide⟩

theorem boot_paging_sample :
    let s : EntryState := ⟨fun _ => 0, 1, 0, 0, 0, 0, 0⟩
    let s' := kernEntry 0xC0180000 0x9500 s
    s'.translate 0x100000 = some 0x100000 ∧
      s'.translate 0xC0100000 = some 0x100000 ∧
      ∃ mem, initVmmPaged s'.cr3 0xC0101000 0xC0102000 s'.mem = some mem ∧
        mmuWalk mem s'.cr3 0xC0180000 = some 0x180000 ∧
        mmuWalk mem 0x101000 0xC0180000 = some 0x180000 ∧
        mmuWalk mem 0x101000 0x100000 = none := by
  intro s s'
  obtain ⟨windows, filled, before, after, hidden⟩ := boot_paging sampleImage
    sampleImage_low 0xC0180000 0x9500 (s := s) (by decide)
    ⟨fun _ _ _ => rfl, fun _ _ _ => rfl⟩
  have image := windows 0x100000 (by decide)
  exact ⟨image.2.1, image.2.2, _, filled,
    before 0xC0180000 (by decide) (by decide),
    after 0xC0180000 (by decide) (by decide), hidden 0x100000 (by decide)⟩

end MiniOS
