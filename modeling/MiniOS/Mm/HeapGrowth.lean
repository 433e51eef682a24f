import MiniOS.Mm.HeapPaging
import MiniOS.Mm.PageMapRefinement

/-!
# Boot, growth and release of the heap window

The frames that `HeapPaging` accounts for change by one frame at a time: a
frame popped from the page stack leaves the account, a frame that is mapped or
pushed joins it, and a frame that becomes a page table stays in it.
-/

namespace MiniOS

open ByteMemory

/-- The state that `init_vmm` and `init_heap` leave. -/
def AfterBoot (img : KernelImage) (frames : List Nat) (k : Kernel) : Prop :=
  ∃ mem k₀, img.BssZero mem ∧
    k₀.mem = initVmm img.pgdKern img.pteKern mem ∧
    k₀.pmmStack = frames ∧ k₀.heapMax = heapStart ∧
    initHeap k₀ = .ok () k

namespace HeapPaging

variable {img : KernelImage} {frames : List Nat} {k : Kernel}

theorem perm (paging : HeapPaging img frames k) {others : List Nat}
    (permutation : frames.Perm others) : HeapPaging img others k :=
  { paging with
    usable := fun frame member =>
      paging.usable frame (permutation.mem_iff.mpr member)
    distinct := permutation.nodup_iff.mp paging.distinct
    account := paging.account.trans permutation }

/-- The first page of the heap window is not in the direct map. -/
theorem heap_index {va : Nat} (lower : heapStart ≤ va)
    (small : va < 4294967296) : 896 ≤ pgdIndex va := by
  rw [pgdIndex_eq]
  simp only [heapStart] at lower
  omega

theorem heap_page_ne {va other : Nat} (lower : heapStart ≤ va)
    (low : other < heapStart) : other / pageSize ≠ va / pageSize := by
  simp only [heapStart, pageSize] at *
  omega

theorem boot_tables (usable : ∀ frame ∈ frames, UsableFrame img frame)
    (distinct : frames.Nodup) {mem : Mem} (zero : img.BssZero mem) :
    PageTables img.pgdKern (initVmm img.pgdKern img.pteKern mem) frames := by
  have pgdLower := img.pgd_lower
  have pgdUpper := img.pgd_upper
  have pteLower := img.pte_lower
  have pteUpper := img.pte_upper
  have pteAligned := img.pte_aligned
  have separate := img.pgd_pte
  have upper := img.kernEnd_upper
  -- An entry in use is one of the 128 of the direct map.
  have inUse : ∀ i < pgdSize,
      pdeOf img.pgdKern (initVmm img.pgdKern img.pteKern mem) i ≠ 0 →
      768 ≤ i ∧ i < 896 ∧
        tableOf img.pgdKern (initVmm img.pgdKern img.pteKern mem) i =
          img.pteKern - pageOffset + pageSize * (i - 768) := by
    intro i bound present
    rw [KernelImage.pdeOf_initVmm zero i bound, KernelImage.kernelPde]
      at present
    by_cases inside : 768 ≤ i ∧ i < 896
    · exact ⟨inside.1, inside.2,
        KernelImage.tableOf_initVmm zero inside.1 inside.2⟩
    · simp [inside] at present
  constructor
  case directory => exact ⟨pgdLower, pgdUpper.trans upper⟩
  case table_frame =>
    intro i bound present
    obtain ⟨first, last, tableEq⟩ := inUse i bound present
    rw [tableEq]
    simp only [IsFrame, pageSize, pageOffset, pmmMaxSize, pteCount] at *
    omega
  case table_distinct =>
    intro i iBound j jBound iPresent jPresent equality
    obtain ⟨iFirst, _, iTable⟩ := inUse i iBound iPresent
    obtain ⟨jFirst, _, jTable⟩ := inUse j jBound jPresent
    rw [iTable, jTable] at equality
    simp only [pageSize] at equality
    omega
  case stack_frame => exact fun frame member => (usable frame member).isFrame
  case stack_distinct => exact distinct
  case table_stack =>
    intro i bound present member
    obtain ⟨first, last, tableEq⟩ := inUse i bound present
    have apart := (usable _ member).tables
    rw [tableEq] at apart
    simp only [pageSize, pteCount] at apart
    omega
  case directory_table =>
    intro i bound present
    obtain ⟨first, last, tableEq⟩ := inUse i bound present
    rw [tableEq]
    simp only [Apart, pageSize, pageOffset, pteCount] at *
    omega
  case directory_stack =>
    exact fun frame member => (usable frame member).directory

theorem boot (usable : ∀ frame ∈ frames, UsableFrame img frame)
    (distinct : frames.Nodup) (started : AfterBoot img frames k) :
    HeapPaging img frames k := by
  obtain ⟨mem, k₀, zero, memEq, stackEq, maxEq, initialised⟩ := started
  cases initialised
  have noTables : heapTables img (initVmm img.pgdKern img.pteKern mem) =
      [] := by
    unfold heapTables
    rw [List.filter_eq_nil_iff]
    intro table member
    obtain ⟨i, inRange, rfl⟩ := List.mem_map.mp member
    have bounds := List.mem_range'_1.mp inRange
    have absent : pdeOf img.pgdKern
        (initVmm img.pgdKern img.pteKern mem) i = 0 := by
      rw [KernelImage.pdeOf_initVmm zero i (by grind),
        KernelImage.kernelPde, if_neg (by omega)]
    simp [tableOf_eq_zero_of_pdeOf absent]
  constructor
  case usable => exact usable
  case distinct => exact distinct
  case tables =>
    simpa only [memEq, stackEq] using boot_tables usable distinct zero
  case kernel_pde =>
    intro i low
    simp only [memEq]
    exact KernelImage.pdeOf_initVmm zero i (by grind)
  case heap_pde =>
    intro i lower upper present
    simp only [memEq] at present
    rw [KernelImage.pdeOf_initVmm zero i upper, KernelImage.kernelPde,
      if_neg (by omega)] at present
    exact absurd rfl present
  case heapMax_aligned => simp [maxEq, heapStart, pageSize]
  case heapMax_lower => simp [maxEq]
  case heapMax_upper => simp [maxEq, heapStart, pageSize]
  case direct =>
    intro va low
    simp only [memEq]
    exact KernelImage.pteOf_initVmm zero (by grind)
  case mapped =>
    intro va lower upper
    simp only [maxEq] at upper
    omega
  case unmapped =>
    intro va lower upper
    simp only [maxEq] at lower
    simp only [memEq]
    rw [KernelImage.pteOf_initVmm zero upper, directPte, if_neg (by grind)]
  case account => simp [memEq, noTables, heapFrames, heapPages, maxEq, stackEq]

theorem pop (paging : HeapPaging img frames k) {frame : Nat}
    {rest : List Nat} (stack : k.pmmStack = frame :: rest) :
    HeapPaging img (frames.erase frame) { k with pmmStack := rest } := by
  have tables := paging.tables
  have account := paging.account
  rw [stack] at tables account
  exact {
    paging with
    usable := fun other member =>
      paging.usable other (List.mem_of_mem_erase member)
    distinct := paging.distinct.erase frame
    tables := {
      tables with
      stack_frame := fun other member =>
        tables.stack_frame other (by simp [member])
      stack_distinct := (List.nodup_cons.mp tables.stack_distinct).2
      table_stack := fun i bound present member =>
        tables.table_stack i bound present (by simp [member])
      directory_stack := fun other member =>
        tables.directory_stack other (by simp [member]) }
    account := by
      have moved : (frame :: (heapTables img k.mem ++ heapFrames img k ++
          rest)).Perm frames :=
        List.perm_middle.symm.trans account
      have erased := moved.erase frame
      rwa [List.erase_cons_head] at erased }

theorem push (paging : HeapPaging img frames k) {frame : Nat}
    (usable : UsableFrame img frame) (fresh : frame ∉ frames) :
    HeapPaging img (frame :: frames)
      { k with pmmStack := frame :: k.pmmStack } := by
  have tables := paging.tables
  have outside : ∀ member,
      member ∈ heapTables img k.mem ++ heapFrames img k ++ k.pmmStack →
        member ≠ frame := by
    rintro member inside rfl
    exact fresh (paging.account.mem_iff.mp inside)
  exact {
    paging with
    usable := by
      intro other member
      rcases List.mem_cons.mp member with rfl | old
      · exact usable
      · exact paging.usable other old
    distinct := List.nodup_cons.mpr ⟨fresh, paging.distinct⟩
    tables := {
      tables with
      stack_frame := by
        intro other member
        rcases List.mem_cons.mp member with rfl | old
        · exact usable.isFrame
        · exact tables.stack_frame other old
      stack_distinct := by
        refine List.nodup_cons.mpr ⟨?_, tables.stack_distinct⟩
        intro member
        exact outside frame (by simp [member]) rfl
      table_stack := by
        intro i bound present member
        have tablePresent : tableOf img.pgdKern k.mem i ≠ 0 :=
          Nat.ne_of_gt (tables.table_frame i bound present).2.1
        rcases List.mem_cons.mp member with equality | old
        · by_cases kernel : i < 896
          · obtain ⟨first, tableEq⟩ :=
              paging.kernel_table kernel tablePresent
            have apart := usable.tables
            rw [← equality, tableEq] at apart
            simp only [pageSize, pteCount] at apart
            omega
          · exact outside _ (by
              simp [table_mem (k := k) (by omega) bound tablePresent])
              equality
        · exact tables.table_stack i bound present old
      directory_stack := by
        intro other member
        rcases List.mem_cons.mp member with rfl | old
        · exact usable.directory
        · exact tables.directory_stack other old }
    account := List.perm_middle.trans (paging.account.cons frame) }

section Table

variable {index slot : Nat} {table : Nat} {rest : List Nat}

/-- A page of the heap does not see a store into a page table. -/
theorem view_store_table (paging : HeapPaging img frames k) (value : Nat)
    (bound : index < pgdSize) (slotBound : slot < pteSize)
    (present : tableOf img.pgdKern k.mem index ≠ 0) (va : Nat)
    (lower : heapStart ≤ va) (upper : va < k.heapMax) :
    store32 k.mem (tableOf img.pgdKern k.mem index + 4 * slot) value
        (frameAt img.pgdKern k.mem va + va % pageSize) =
      k.mem (frameAt img.pgdKern k.mem va + va % pageSize) := by
  have apart := paging.frame_table lower upper bound present
  apply store32_outside
  simp only [Apart, pageSize, pteSize] at *
  omega

private theorem filter_map_update_perm {indices : List Nat}
    (nodup : indices.Nodup) (member : index ∈ indices)
    {before after : Nat → Nat} (zero : before index = 0)
    (positive : table ≠ 0)
    (update : ∀ i ∈ indices,
      after i = if i = index then table else before i) :
    ((indices.map after).filter (· ≠ 0)).Perm
      (table :: (indices.map before).filter (· ≠ 0)) := by
  induction indices with
  | nil => simp at member
  | cons head indices induction =>
      obtain ⟨absent, tailNodup⟩ := List.nodup_cons.mp nodup
      have headEq := update head (by simp)
      have tailUpdate : ∀ i ∈ indices,
          after i = if i = index then table else before i :=
        fun i inTail => update i (by simp [inTail])
      by_cases here : head = index
      · subst head
        have sameTail : indices.map after = indices.map before := by
          apply List.map_congr_left
          intro i inTail
          rw [tailUpdate i inTail, if_neg]
          rintro rfl
          exact absent inTail
        rw [if_pos rfl] at headEq
        simp [headEq, zero, positive, sameTail]
      · have inTail : index ∈ indices := by
          rcases List.mem_cons.mp member with equality | later
          · exact absurd equality.symm here
          · exact later
        have tailPerm := induction tailNodup inTail tailUpdate
        rw [if_neg here] at headEq
        by_cases empty : before head = 0
        · simpa [headEq, empty] using tailPerm
        · simp only [List.map_cons, headEq, ne_eq, empty, not_false_eq_true,
            decide_true, List.filter_cons_of_pos]
          exact (tailPerm.cons _).trans (List.Perm.swap ..)

/-- A popped frame that becomes a table of the heap stays in the account. -/
theorem newTable (paging : HeapPaging img frames k)
    (lower : 896 ≤ index) (bound : index < pgdSize)
    (missing : tableOf img.pgdKern k.mem index = 0)
    (stack : k.pmmStack = table :: rest) :
    HeapPaging img frames { k with
      mem := addTable img.pgdKern k.mem index table
      pmmStack := rest } := by
  have tables := paging.tables
  have account := paging.account
  rw [stack] at tables account
  have isFrame : IsFrame table := tables.stack_frame table (by simp)
  have pdeEq := PageTables.pdeOf_addTable tables index
  have tableEq := PageTables.tableOf_addTable tables index
  have pteEq := PageTables.pteOf_addTable tables bound missing
  have frameEq : ∀ va,
      frameAt img.pgdKern (addTable img.pgdKern k.mem index table) va =
        frameAt img.pgdKern k.mem va := by
    intro va
    rw [frameAt, frameAt, pteEq]
  exact {
    paging with
    tables := tables.add bound missing
    kernel_pde := by
      intro i low
      rw [pdeEq i (by grind), if_neg (by omega)]
      exact paging.kernel_pde i low
    heap_pde := by
      intro i iLower iUpper present
      rw [pdeEq i iUpper] at present ⊢
      rw [tableEq i iUpper]
      split
      · rfl
      · rename_i different
        rw [if_neg different] at present
        exact paging.heap_pde i iLower iUpper present
    direct := fun va low => (pteEq va).trans (paging.direct va low)
    mapped := fun va vaLower vaUpper => by
      rw [pteEq, frameEq]
      exact paging.mapped va vaLower vaUpper
    unmapped := fun va vaLower vaUpper =>
      (pteEq va).trans (paging.unmapped va vaLower vaUpper)
    account := by
      have tablesPerm : (heapTables img
          (addTable img.pgdKern k.mem index table)).Perm
            (table :: heapTables img k.mem) := by
        apply filter_map_update_perm List.nodup_range'
          (List.mem_range'_1.mpr ⟨lower, by grind⟩) missing
          (Nat.ne_of_gt isFrame.2.1)
        intro i member
        exact tableEq i (by
          have upper := (List.mem_range'_1.mp member).2
          grind)
      have framesEq : heapFrames img { k with
          mem := addTable img.pgdKern k.mem index table
          pmmStack := rest } = heapFrames img k := by
        simp only [heapFrames, heapPages, frameEq]
      rw [framesEq]
      refine List.Perm.trans ?_ account
      refine ((tablesPerm.append_right _).append_right _).trans ?_
      simp only [List.cons_append]
      exact List.perm_middle.symm }

/-- The pages of the heap do not see a new table. -/
theorem view_newTable (paging : HeapPaging img frames k)
    (bound : index < pgdSize) (stack : k.pmmStack = table :: rest) {va : Nat}
    (lower : heapStart ≤ va) (upper : va < k.heapMax) :
    addTable img.pgdKern k.mem index table
        (frameAt img.pgdKern k.mem va + va % pageSize) =
      k.mem (frameAt img.pgdKern k.mem va + va % pageSize) := by
  have usable := paging.frame_usable lower upper
  have directory := usable.directory
  have isFrame : IsFrame table :=
    paging.tables.stack_frame table (by simp [stack])
  have apart : Apart (frameAt img.pgdKern k.mem va) table := by
    apply usable.isFrame.apart isFrame
    intro equality
    exact (List.nodup_append.mp paging.nodup).2.2 _
      (by simp [paging.frame_mem lower upper]) _ (by simp [stack]) equality
  apply PageTables.addTable_outside <;>
    simp only [Apart, pageSize, pgdSize] at * <;>
    omega

end Table

theorem heapFrames_congr {k' : Kernel} (max : k'.heapMax = k.heapMax)
    (same : ∀ va, heapStart ≤ va → va < k.heapMax →
      frameAt img.pgdKern k'.mem va = frameAt img.pgdKern k.mem va) :
    heapFrames img k' = heapFrames img k := by
  unfold heapFrames heapPages
  rw [max]
  apply List.map_congr_left
  intro i member
  have inside := List.mem_range.mp member
  apply same
  · omega
  · simp only [heapStart, pageSize] at *
    omega

theorem heapPages_grow {k' : Kernel} (lower : heapStart ≤ k.heapMax)
    (max : k'.heapMax = k.heapMax + pageSize) :
    heapPages k' = heapPages k + 1 := by
  unfold heapPages
  rw [max, Nat.sub_add_comm lower, Nat.add_div_right _ (by decide)]

theorem heapFrames_grow {k' : Kernel}
    (aligned : k.heapMax % pageSize = 0) (lower : heapStart ≤ k.heapMax)
    (max : k'.heapMax = k.heapMax + pageSize)
    (same : ∀ va, heapStart ≤ va → va < k.heapMax →
      frameAt img.pgdKern k'.mem va = frameAt img.pgdKern k.mem va) :
    heapFrames img k' =
      heapFrames img k ++ [frameAt img.pgdKern k'.mem k.heapMax] := by
  have pages : heapPages k' = heapPages k + 1 := heapPages_grow lower max
  have last : heapStart + heapPages k * pageSize = k.heapMax := by
    simp only [heapPages, heapStart, pageSize] at *
    omega
  have front : heapFrames img { k' with heapMax := k.heapMax } =
      heapFrames img k := heapFrames_congr rfl same
  unfold heapFrames at front ⊢
  rw [pages, List.range_succ, List.map_append, List.map_singleton, last]
  exact congrArg (· ++ _) front

end HeapPaging

end MiniOS
