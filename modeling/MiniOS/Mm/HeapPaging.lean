import MiniOS.Mm.Heap
import MiniOS.Mm.KernelImage
import Mathlib.Data.List.Nodup
import Mathlib.Data.List.Perm.Subperm

/-!
# Paging of the heap window

`HeapPaging` ties page stack, page tables and `heap_max` together: the pages
below `heap_max` are mapped to frames of their own, the pages above it are
not, and frames of the heap, frames of its tables and free frames make up the
frames of the start.  `heapView` is what the heap code sees through the page
walk; a store through a heap address is a store to the view and changes no
translation.
-/

namespace MiniOS

open ByteMemory

/-- A frame that neither the directory nor the tables of the image use. -/
structure UsableFrame (img : KernelImage) (frame : Nat) : Prop where
  isFrame : IsFrame frame
  directory : Apart (img.pgdKern - pageOffset) frame
  tables : frame + pageSize ≤ img.pteKern - pageOffset ∨
    img.pteKern - pageOffset + pteCount * pageSize ≤ frame

theorem UsableFrame.of_kernEnd {img : KernelImage} {frame : Nat}
    (aligned : frame % pageSize = 0)
    (lower : img.kernEnd - pageOffset ≤ frame)
    (upper : frame < pmmMaxSize) : UsableFrame img frame := by
  have pgdLower := img.pgd_lower
  have pgdUpper := img.pgd_upper
  have pteLower := img.pte_lower
  have pteUpper := img.pte_upper
  constructor
  · refine ⟨aligned, ?_, upper⟩
    simp only [pageOffset, pageSize] at *
    omega
  · simp only [Apart, pageOffset, pageSize] at *
    omega
  · simp only [pageOffset, pageSize, pteCount] at *
    omega

/-- The frame behind the page of `va`. -/
def frameAt (pgdNow : Nat) (mem : Mem) (va : Nat) : Nat :=
  roundDown (pteOf pgdNow mem va) pageSize

/-- The tables that serve the heap window, entries 896 to 1023. -/
def heapTables (img : KernelImage) (mem : Mem) : List Nat :=
  ((List.range' 896 128).map (tableOf img.pgdKern mem)).filter (· ≠ 0)

/-- The number of pages from the start of the heap to `heap_max`. -/
def heapPages (k : Kernel) : Nat := (k.heapMax - heapStart) / pageSize

/-- The frames of these pages, in ascending order. -/
def heapFrames (img : KernelImage) (k : Kernel) : List Nat :=
  (List.range (heapPages k)).map fun i =>
    frameAt img.pgdKern k.mem (heapStart + i * pageSize)

structure HeapPaging (img : KernelImage) (frames : List Nat)
    (k : Kernel) : Prop where
  usable : ∀ frame ∈ frames, UsableFrame img frame
  distinct : frames.Nodup
  tables : PageTables img.pgdKern k.mem k.pmmStack
  kernel_pde : ∀ i < 896, pdeOf img.pgdKern k.mem i = img.kernelPde i
  heap_pde : ∀ i, 896 ≤ i → i < pgdSize → pdeOf img.pgdKern k.mem i ≠ 0 →
    pdeOf img.pgdKern k.mem i = tableOf img.pgdKern k.mem i + 3
  heapMax_aligned : k.heapMax % pageSize = 0
  heapMax_lower : heapStart ≤ k.heapMax
  heapMax_upper : k.heapMax ≤ 4294967296 - pageSize
  direct : ∀ va < heapStart, pteOf img.pgdKern k.mem va = directPte va
  mapped : ∀ va, heapStart ≤ va → va < k.heapMax →
    pteOf img.pgdKern k.mem va = frameAt img.pgdKern k.mem va + 3
  unmapped : ∀ va, k.heapMax ≤ va → va < 4294967296 →
    pteOf img.pgdKern k.mem va = 0
  account : (heapTables img k.mem ++ heapFrames img k ++ k.pmmStack).Perm
    frames

/-- The heap as the processor sees it; outside the heap the view is blank. -/
def heapView (img : KernelImage) (k : Kernel) : Mem := fun va =>
  if heapStart ≤ va ∧ va < k.heapMax then
    k.mem (frameAt img.pgdKern k.mem va + va % pageSize)
  else 0

/-- Page stack, `heap_max` and all translations are the same. -/
structure SamePaging (img : KernelImage) (k k' : Kernel) : Prop where
  stack : k'.pmmStack = k.pmmStack
  heapMax : k'.heapMax = k.heapMax
  pde : ∀ i < pgdSize,
    pdeOf img.pgdKern k'.mem i = pdeOf img.pgdKern k.mem i
  pte : ∀ va, pteOf img.pgdKern k'.mem va = pteOf img.pgdKern k.mem va

namespace SamePaging

variable {img : KernelImage} {k k' k'' : Kernel}

theorem refl (img : KernelImage) (k : Kernel) : SamePaging img k k :=
  ⟨rfl, rfl, fun _ _ => rfl, fun _ => rfl⟩

theorem symm (same : SamePaging img k k') : SamePaging img k' k where
  stack := same.stack.symm
  heapMax := same.heapMax.symm
  pde i bound := (same.pde i bound).symm
  pte va := (same.pte va).symm

theorem trans (first : SamePaging img k k') (second : SamePaging img k' k'') :
    SamePaging img k k'' where
  stack := second.stack.trans first.stack
  heapMax := second.heapMax.trans first.heapMax
  pde i bound := (second.pde i bound).trans (first.pde i bound)
  pte va := (second.pte va).trans (first.pte va)

theorem frameAt_eq (same : SamePaging img k k') (va : Nat) :
    frameAt img.pgdKern k'.mem va = frameAt img.pgdKern k.mem va := by
  rw [frameAt, frameAt, same.pte]

theorem tableOf_eq (same : SamePaging img k k') {i : Nat}
    (bound : i < pgdSize) :
    tableOf img.pgdKern k'.mem i = tableOf img.pgdKern k.mem i :=
  tableOf_congr (same.pde i bound)

theorem heapFrames_eq (same : SamePaging img k k') :
    heapFrames img k' = heapFrames img k := by
  simp only [heapFrames, heapPages, same.heapMax, same.frameAt_eq]

theorem heapTables_eq (same : SamePaging img k k') :
    heapTables img k'.mem = heapTables img k.mem := by
  unfold heapTables
  congr 1
  apply List.map_congr_left
  intro i member
  have bound := (List.mem_range'_1.mp member).2
  exact same.tableOf_eq (by grind)

end SamePaging

namespace HeapPaging

variable {img : KernelImage} {frames : List Nat} {k k' : Kernel}

/-- The invariant reads nothing but what `SamePaging` keeps. -/
theorem transport (paging : HeapPaging img frames k)
    (same : SamePaging img k k') : HeapPaging img frames k' where
  usable := paging.usable
  distinct := paging.distinct
  tables := same.stack.symm ▸ paging.tables.congr same.pde
  kernel_pde i bound := by
    rw [same.pde i (by grind)]
    exact paging.kernel_pde i bound
  heap_pde i lower upper := by
    rw [same.pde i upper, same.tableOf_eq upper]
    exact paging.heap_pde i lower upper
  heapMax_aligned := same.heapMax.symm ▸ paging.heapMax_aligned
  heapMax_lower := same.heapMax.symm ▸ paging.heapMax_lower
  heapMax_upper := same.heapMax.symm ▸ paging.heapMax_upper
  direct va low := (same.pte va).trans (paging.direct va low)
  mapped va lower upper := by
    rw [same.pte, same.frameAt_eq]
    exact paging.mapped va lower (same.heapMax ▸ upper)
  unmapped va lower upper :=
    (same.pte va).trans (paging.unmapped va (same.heapMax ▸ lower) upper)
  account := by
    rw [same.heapTables_eq, same.heapFrames_eq, same.stack]
    exact paging.account

theorem nodup (paging : HeapPaging img frames k) :
    (heapTables img k.mem ++ heapFrames img k ++ k.pmmStack).Nodup :=
  paging.account.nodup_iff.mpr paging.distinct

theorem page_start {va : Nat} (lower : heapStart ≤ va) :
    heapStart + (va - heapStart) / pageSize * pageSize =
      va / pageSize * pageSize := by
  simp only [heapStart, pageSize] at *
  omega

theorem frameAt_page (pgdNow : Nat) (mem : Mem) (va : Nat) :
    frameAt pgdNow mem (va / pageSize * pageSize) = frameAt pgdNow mem va := by
  rw [frameAt, frameAt, pteOf_page]

theorem page_lt (paging : HeapPaging img frames k) {va : Nat}
    (lower : heapStart ≤ va) (upper : va < k.heapMax) :
    (va - heapStart) / pageSize < heapPages k := by
  have aligned := paging.heapMax_aligned
  simp only [heapPages, heapStart, pageSize] at *
  omega

theorem frame_mem (paging : HeapPaging img frames k) {va : Nat}
    (lower : heapStart ≤ va) (upper : va < k.heapMax) :
    frameAt img.pgdKern k.mem va ∈ heapFrames img k := by
  rw [← frameAt_page, ← page_start lower]
  exact List.mem_map.mpr
    ⟨_, List.mem_range.mpr (paging.page_lt lower upper), rfl⟩

theorem frame_usable (paging : HeapPaging img frames k) {va : Nat}
    (lower : heapStart ≤ va) (upper : va < k.heapMax) :
    UsableFrame img (frameAt img.pgdKern k.mem va) := by
  apply paging.usable
  apply paging.account.mem_iff.mp
  simp [paging.frame_mem lower upper]

theorem frame_injective (paging : HeapPaging img frames k) {va other : Nat}
    (lower : heapStart ≤ va) (upper : va < k.heapMax)
    (otherLower : heapStart ≤ other) (otherUpper : other < k.heapMax)
    (same : frameAt img.pgdKern k.mem va = frameAt img.pgdKern k.mem other) :
    va / pageSize = other / pageSize := by
  have nodup : (heapFrames img k).Nodup :=
    (List.nodup_append.mp (List.nodup_append.mp paging.nodup).1).2.1
  rw [← frameAt_page _ _ va, ← frameAt_page _ _ other, ← page_start lower,
    ← page_start otherLower] at same
  have index := List.inj_on_of_nodup_map nodup
    (List.mem_range.mpr (paging.page_lt lower upper))
    (List.mem_range.mpr (paging.page_lt otherLower otherUpper)) same
  simp only [heapStart, pageSize] at *
  omega

theorem table_mem {i : Nat} (lower : 896 ≤ i) (upper : i < pgdSize)
    (present : tableOf img.pgdKern k.mem i ≠ 0) :
    tableOf img.pgdKern k.mem i ∈ heapTables img k.mem := by
  refine List.mem_filter.mpr ⟨List.mem_map.mpr ⟨i, ?_, rfl⟩, by simpa⟩
  exact List.mem_range'_1.mpr ⟨lower, by grind⟩

theorem kernel_table (paging : HeapPaging img frames k) {i : Nat}
    (upper : i < 896) (present : tableOf img.pgdKern k.mem i ≠ 0) :
    768 ≤ i ∧ tableOf img.pgdKern k.mem i =
      img.pteKern - pageOffset + pageSize * (i - 768) := by
  have entry := paging.kernel_pde i upper
  rw [KernelImage.kernelPde] at entry
  by_cases inside : 768 ≤ i ∧ i < 896
  · rw [if_pos inside] at entry
    refine ⟨inside.1, ?_⟩
    have pteAligned := img.pte_aligned
    have pteLower := img.pte_lower
    rw [tableOf, entry]
    exact roundDown_add_flags (by grind) (by decide)
  · rw [if_neg inside] at entry
    exact absurd (tableOf_eq_zero_of_pdeOf entry) present

/-- A heap frame has no byte in common with a table in use. -/
theorem frame_table (paging : HeapPaging img frames k) {va i : Nat}
    (lower : heapStart ≤ va) (upper : va < k.heapMax) (bound : i < pgdSize)
    (present : tableOf img.pgdKern k.mem i ≠ 0) :
    Apart (tableOf img.pgdKern k.mem i) (frameAt img.pgdKern k.mem va) := by
  have usable := paging.frame_usable lower upper
  by_cases kernel : i < 896
  · obtain ⟨first, tableEq⟩ := paging.kernel_table kernel present
    have apart := usable.tables
    rw [tableEq]
    simp only [Apart, pageSize, pteCount] at *
    omega
  · apply (paging.tables.isFrame bound present).apart usable.isFrame
    intro equality
    have tableMember := table_mem (k := k) (by omega) bound present
    have nodup := (List.nodup_append.mp paging.nodup).1
    exact (List.nodup_append.mp nodup).2.2 _ tableMember _
      (paging.frame_mem lower upper) equality

/-- Bytes of a heap frame are not part of the translation. -/
theorem samePaging_of_frame (paging : HeapPaging img frames k) {va : Nat}
    {mem : Mem} (lower : heapStart ≤ va) (upper : va < k.heapMax)
    (same : ∀ x, x < frameAt img.pgdKern k.mem va ∨
      frameAt img.pgdKern k.mem va + pageSize ≤ x → mem x = k.mem x) :
    SamePaging img k { k with mem := mem } := by
  have usable := paging.frame_usable lower upper
  have pde : ∀ i < pgdSize,
      pdeOf img.pgdKern mem i = pdeOf img.pgdKern k.mem i := by
    intro i bound
    have apart := usable.directory
    apply load32_congr
    intro x xLower xUpper
    apply same
    simp only [Apart, pageSize, pgdSize] at *
    omega
  refine ⟨rfl, rfl, pde, ?_⟩
  intro other
  have bound : pgdIndex other < pgdSize := pgdIndex_lt other
  have slot : pteIndex other < pteSize := pteIndex_lt other
  simp only [pteOf, tableOf_congr (pde _ bound)]
  by_cases present : tableOf img.pgdKern k.mem (pgdIndex other) = 0
  · simp [present]
  · rw [if_neg present, if_neg present]
    have apart := paging.frame_table lower upper bound present
    apply load32_congr
    intro x xLower xUpper
    apply same
    simp only [Apart, pageSize, pteSize] at *
    omega

theorem entry_cases (paging : HeapPaging img frames k) {va : Nat}
    (small : va < 4294967296) :
    pteOf img.pgdKern k.mem va = 0 ∨
      pteOf img.pgdKern k.mem va = frameAt img.pgdKern k.mem va + 3 := by
  by_cases low : va < heapStart
  · have entry := paging.direct va low
    rw [directPte] at entry
    split at entry
    · right
      rw [frameAt, entry, roundDown_add_flags (roundDown_mod _ _) (by decide)]
    · exact .inl entry
  · by_cases inside : va < k.heapMax
    · exact .inr (paging.mapped va (by omega) inside)
    · exact .inl (paging.unmapped va (by omega) small)

theorem table_entry (paging : HeapPaging img frames k) {i : Nat}
    (bound : i < pgdSize) (present : tableOf img.pgdKern k.mem i ≠ 0) :
    pdeOf img.pgdKern k.mem i = tableOf img.pgdKern k.mem i + 3 := by
  by_cases kernel : i < 896
  · obtain ⟨first, tableEq⟩ := paging.kernel_table kernel present
    rw [tableEq, paging.kernel_pde i kernel, KernelImage.kernelPde,
      if_pos ⟨first, kernel⟩]
  · exact paging.heap_pde i (by omega) bound (PageTables.pde_ne_zero present)

/-- The processor's walk finds what the tables say in software. -/
theorem mmuWalk_eq (paging : HeapPaging img frames k) {va : Nat}
    (small : va < 4294967296) :
    mmuWalk k.mem (img.pgdKern - pageOffset) va =
      if pteOf img.pgdKern k.mem va = 0 then none
      else some (frameAt img.pgdKern k.mem va + va % pageSize) := by
  have bound : pgdIndex va < pgdSize := pgdIndex_lt va
  change (if pdeOf img.pgdKern k.mem (pgdIndex va) % 2 = 0 then none
    else if load32 k.mem (tableOf img.pgdKern k.mem (pgdIndex va) +
        4 * pteIndex va) % 2 = 0 then none
      else some (roundDown (load32 k.mem
        (tableOf img.pgdKern k.mem (pgdIndex va) + 4 * pteIndex va))
          pageSize + va % pageSize)) = _
  by_cases missing : tableOf img.pgdKern k.mem (pgdIndex va) = 0
  · have absent := paging.tables.pde_eq_zero bound missing
    simp [absent, pteOf, missing]
  · have tableAligned := (paging.tables.isFrame bound missing).1
    have entry : pteOf img.pgdKern k.mem va = load32 k.mem
        (tableOf img.pgdKern k.mem (pgdIndex va) + 4 * pteIndex va) := by
      rw [pteOf, if_neg missing]
    have odd : pdeOf img.pgdKern k.mem (pgdIndex va) % 2 ≠ 0 := by
      rw [paging.table_entry bound missing]
      simp only [pageSize] at tableAligned
      omega
    rw [if_neg odd, ← entry, frameAt]
    rcases paging.entry_cases small with zero | present
    · simp [zero]
    · have frameAligned :=
        roundDown_mod (pteOf img.pgdKern k.mem va) pageSize
      rw [frameAt] at present
      simp only [pageSize] at present frameAligned
      rw [if_neg (by omega), if_neg (by omega)]

theorem walk_heap (paging : HeapPaging img frames k) {va : Nat}
    (lower : heapStart ≤ va) (upper : va < k.heapMax) :
    mmuWalk k.mem (img.pgdKern - pageOffset) va =
      some (frameAt img.pgdKern k.mem va + va % pageSize) := by
  have top := paging.heapMax_upper
  rw [paging.mmuWalk_eq (by simp only [pageSize] at top; omega), if_neg]
  rw [paging.mapped va lower upper]
  omega

/-- The direct map that the page-table routines rely on is what the processor
sees, in every state of the heap. -/
theorem walk_direct (paging : HeapPaging img frames k) {pa : Nat}
    (lower : pageSize ≤ pa) (upper : pa < pmmMaxSize) :
    mmuWalk k.mem (img.pgdKern - pageOffset) (pa + pageOffset) = some pa := by
  have entry : pteOf img.pgdKern k.mem (pa + pageOffset) =
      roundDown pa pageSize + 3 := by
    rw [paging.direct _ (by grind), directPte, if_pos (by grind),
      Nat.add_sub_cancel]
  rw [paging.mmuWalk_eq (by grind), if_neg (by omega), frameAt, entry,
    roundDown_add_flags (roundDown_mod _ _) (by decide)]
  have offset : (pa + pageOffset) % pageSize = pa % pageSize := by
    simp only [pageOffset, pageSize]
    omega
  rw [offset, roundDown_add_mod]

theorem read8_ok (paging : HeapPaging img frames k) (va : Nat)
    (lower : heapStart ≤ va) (upper : va < k.heapMax) :
    read8 img.pgdKern va k = .ok (heapView img k va) k := by
  simp [read8, paging.walk_heap lower upper, heapView, lower, upper]

theorem read32_ok (paging : HeapPaging img frames k) (va : Nat)
    (lower : heapStart ≤ va) (upper : va + 4 ≤ k.heapMax) :
    read32 img.pgdKern va k = .ok (load32 (heapView img k) va) k := by
  unfold read32
  rw [Outcome.bind_of_ok (paging.read8_ok va lower (by omega)),
    Outcome.bind_of_ok (paging.read8_ok (va + 1) (by omega) (by omega)),
    Outcome.bind_of_ok (paging.read8_ok (va + 2) (by omega) (by omega)),
    Outcome.bind_of_ok (paging.read8_ok (va + 3) (by omega) (by omega))]
  rfl

end HeapPaging

/-- `k'` is `k` after stores that leave `view` in the heap. -/
structure Wrote (img : KernelImage) (frames : List Nat) (k k' : Kernel)
    (view : Mem) : Prop where
  paging : HeapPaging img frames k'
  same : SamePaging img k k'
  first : k'.heapFirst = k.heapFirst
  view_eq : heapView img k' = view

theorem Wrote.trans {img : KernelImage} {frames : List Nat}
    {k k' k'' : Kernel} {view view' : Mem}
    (one : Wrote img frames k k' view)
    (two : Wrote img frames k' k'' view') :
    Wrote img frames k k'' view' where
  paging := two.paging
  same := one.same.trans two.same
  first := two.first.trans one.first
  view_eq := two.view_eq

namespace HeapPaging

variable {img : KernelImage} {frames : List Nat} {k : Kernel}

theorem write8_ok (paging : HeapPaging img frames k) (va : Nat) (byte : UInt8)
    (lower : heapStart ≤ va) (upper : va < k.heapMax) :
    ∃ k', write8 img.pgdKern va byte k = .ok () k' ∧
      Wrote img frames k k' (store8 (heapView img k) va byte) := by
  let address := frameAt img.pgdKern k.mem va + va % pageSize
  have returned : write8 img.pgdKern va byte k =
      .ok () { k with mem := store8 k.mem address byte } := by
    simp [write8, paging.walk_heap lower upper, address]
  have same : SamePaging img k
      { k with mem := store8 k.mem address byte } := by
    apply paging.samePaging_of_frame lower upper
    intro x outside
    apply store8_other
    simp only [address, pageSize] at *
    omega
  refine ⟨_, returned, paging.transport same, same, rfl, ?_⟩
  funext other
  rw [heapView, same.frameAt_eq]
  by_cases inside : heapStart ≤ other ∧ other < k.heapMax
  · simp only [inside, and_self, if_true]
    by_cases equal : other = va
    · subst other
      simp [address]
    · -- The same offset in the same frame would be the same address.
      have apart : frameAt img.pgdKern k.mem other + other % pageSize ≠
          address := by
        intro collide
        have otherFrame :=
          (paging.frame_usable inside.1 inside.2).isFrame.1
        have vaFrame := (paging.frame_usable lower upper).isFrame.1
        have sameFrame : frameAt img.pgdKern k.mem other =
            frameAt img.pgdKern k.mem va := by
          simp only [address, pageSize] at *
          omega
        have samePage := paging.frame_injective inside.1 inside.2 lower upper
          sameFrame
        simp only [address, pageSize] at *
        omega
      rw [store8_other _ _ apart, store8_other _ _ equal, heapView,
        if_pos inside]
  · have different : other ≠ va := by
      rintro rfl
      exact inside ⟨lower, upper⟩
    rw [store8_other _ _ different, heapView, if_neg inside]
    simp only [inside, if_false]

theorem write32_ok (paging : HeapPaging img frames k) (va value : Nat)
    (lower : heapStart ≤ va) (upper : va + 4 ≤ k.heapMax) :
    ∃ k', write32 img.pgdKern va value k = .ok () k' ∧
      Wrote img frames k k' (store32 (heapView img k) va value) := by
  obtain ⟨k₁, returned₁, wrote₁⟩ :=
    paging.write8_ok va (byteOf value 0) lower (by omega)
  have max₁ := wrote₁.same.heapMax
  obtain ⟨k₂, returned₂, wrote₂⟩ :=
    wrote₁.paging.write8_ok (va + 1) (byteOf value 1)
      (by omega) (by omega)
  have max₂ := wrote₂.same.heapMax
  obtain ⟨k₃, returned₃, wrote₃⟩ :=
    wrote₂.paging.write8_ok (va + 2) (byteOf value 2)
      (by omega) (by omega)
  have max₃ := wrote₃.same.heapMax
  obtain ⟨k₄, returned₄, wrote₄⟩ :=
    wrote₃.paging.write8_ok (va + 3) (byteOf value 3)
      (by omega) (by omega)
  refine ⟨k₄, ?_, ?_⟩
  · unfold write32
    rw [Outcome.bind_of_ok returned₁, Outcome.bind_of_ok returned₂,
      Outcome.bind_of_ok returned₃, returned₄]
  · rw [wrote₃.view_eq, wrote₂.view_eq, wrote₁.view_eq] at wrote₄
    exact ((wrote₁.trans wrote₂).trans wrote₃).trans wrote₄

end HeapPaging

end MiniOS
