import MiniOS.Mm.HeapGrowth

/-!
# The growth and the release loop

`alloc_chunk` maps pages at `heap_max` until the new chunk fits, `free_chunk`
unmaps pages from `heap_max` downwards.  Both leave the pages they do not
touch as they are; release gives the frames back in the order in which growth
would take them again.
-/

namespace MiniOS

open ByteMemory

/-- `k'` has the heap of `k` below the old `heap_max`. -/
structure Extends (img : KernelImage) (k k' : Kernel) : Prop where
  heapMax_le : k.heapMax ≤ k'.heapMax
  first : k'.heapFirst = k.heapFirst
  pte : ∀ va < k.heapMax,
    pteOf img.pgdKern k'.mem va = pteOf img.pgdKern k.mem va
  view : ∀ va < k.heapMax, heapView img k' va = heapView img k va

/-- The pages of `k` above the new `heap_max` are gone, and their frames are
on the page stack. -/
structure Releases (img : KernelImage) (k k' : Kernel) : Prop where
  heapMax_le : k'.heapMax ≤ k.heapMax
  pte : ∀ va < 4294967296, pteOf img.pgdKern k'.mem va =
    if k'.heapMax ≤ va then 0 else pteOf img.pgdKern k.mem va
  frames : heapFrames img k' ++ k'.pmmStack = heapFrames img k ++ k.pmmStack

/-- `k'` is what `Releases` says, with the heap of `k` below `heap_max`. -/
structure Trims (img : KernelImage) (k k' : Kernel) : Prop
    extends Releases img k k' where
  first : k'.heapFirst = k.heapFirst
  view : ∀ va < k'.heapMax, heapView img k' va = heapView img k va

theorem Extends.refl (img : KernelImage) (k : Kernel) : Extends img k k :=
  ⟨Nat.le_refl _, rfl, fun _ _ => rfl, fun _ _ => rfl⟩

theorem Trims.refl (img : KernelImage) (k : Kernel)
    (unmapped : ∀ va, k.heapMax ≤ va → va < 4294967296 →
      pteOf img.pgdKern k.mem va = 0) : Trims img k k where
  heapMax_le := Nat.le_refl _
  first := rfl
  pte va small := by
    split
    · exact unmapped va (by omega) small
    · rfl
  view _ _ := rfl
  frames := rfl

theorem Extends.trans {img : KernelImage} {k k' k'' : Kernel}
    (one : Extends img k k') (two : Extends img k' k'') :
    Extends img k k'' where
  heapMax_le := one.heapMax_le.trans two.heapMax_le
  first := two.first.trans one.first
  pte va below := by
    rw [two.pte va (Nat.lt_of_lt_of_le below one.heapMax_le),
      one.pte va below]
  view va below := by
    rw [two.view va (Nat.lt_of_lt_of_le below one.heapMax_le),
      one.view va below]

theorem Releases.trans {img : KernelImage} {k k' k'' : Kernel}
    (one : Releases img k k') (two : Releases img k' k'') :
    Releases img k k'' where
  heapMax_le := two.heapMax_le.trans one.heapMax_le
  pte va small := by
    have middle := two.heapMax_le
    rw [two.pte va small, one.pte va small]
    split
    · rfl
    · rw [if_neg (by omega)]
  frames := two.frames.trans one.frames

theorem Trims.trans {img : KernelImage} {k k' k'' : Kernel}
    (one : Trims img k k') (two : Trims img k' k'') : Trims img k k'' where
  toReleases := one.toReleases.trans two.toReleases
  first := two.first.trans one.first
  view va below := by
    rw [two.view va below,
      one.view va (Nat.lt_of_lt_of_le below two.heapMax_le)]

/-- The frames that a round of the growth loop takes: one for the page, and one
for its table when there is none. -/
def pageCost (img : KernelImage) (k : Kernel) : Nat :=
  if tableOf img.pgdKern k.mem (pgdIndex k.heapMax) = 0 then 2 else 1

/-- The page at `heap_max` is mapped, and `heap_max` still to be moved. -/
structure PageGrown (img : KernelImage) (frames : List Nat) (k k' : Kernel) :
    Prop where
  heapMax : k'.heapMax = k.heapMax
  stack : k'.pmmStack <:+ k.pmmStack
  taken : k.pmmStack.length = k'.pmmStack.length + pageCost img k
  tables : ∀ i < pgdSize, tableOf img.pgdKern k'.mem i = 0 ↔
    tableOf img.pgdKern k.mem i = 0 ∧ i ≠ pgdIndex k.heapMax
  paging : HeapPaging img frames { k' with heapMax := k.heapMax + pageSize }
  grown : Extends img k { k' with heapMax := k.heapMax + pageSize }

/-- The calls of a round of the growth loop. -/
def growPage (img : KernelImage) (va : Nat) : KernelM Unit := do
  let page ← pmmAllocPage
  map img.pgdKern va page (pagePresent ||| pageWrite)

theorem growPage_bind {α : Type} (img : KernelImage) (va : Nat)
    (next : KernelM α) :
    (do
      let page ← pmmAllocPage
      map img.pgdKern va page (pagePresent ||| pageWrite)
      next) = growPage img va >>= fun _ => next := by
  rw [growPage, bind_assoc]

theorem pageCost_range (img : KernelImage) (k : Kernel) :
    1 ≤ pageCost img k ∧ pageCost img k ≤ 2 := by
  unfold pageCost
  split <;> omega

theorem page_ne_of_lt {va boundary : Nat}
    (aligned : boundary % pageSize = 0) (below : va < boundary) :
    va / pageSize ≠ boundary / pageSize := by
  simp only [pageSize] at *
  omega

theorem account_lastFrame (tables heap stack : List Nat) (frame : Nat) :
    (tables ++ (heap ++ [frame]) ++ stack).Perm
      (frame :: (tables ++ heap ++ stack)) := by
  simp only [List.append_assoc, List.singleton_append]
  rw [← List.append_assoc, ← List.append_assoc]
  exact List.perm_middle

namespace HeapPaging

variable {img : KernelImage} {frames : List Nat} {k : Kernel}

theorem frames_length (paging : HeapPaging img frames k) :
    frames.length < pageMaxSize := by
  have nodup : (frames.map (· / pageSize - 1)).Nodup := by
    apply List.Nodup.map_on _ paging.distinct
    intro left leftMember right rightMember same
    have leftFrame := (paging.usable left leftMember).isFrame
    have rightFrame := (paging.usable right rightMember).isFrame
    simp only [IsFrame, pageSize] at *
    omega
  have subset : frames.map (· / pageSize - 1) ⊆ List.range 131071 := by
    intro index member
    obtain ⟨frame, inFrames, rfl⟩ := List.mem_map.mp member
    have isFrame := (paging.usable frame inFrames).isFrame
    simp only [IsFrame, pageSize, pmmMaxSize] at isFrame
    rw [List.mem_range]
    simp only [pageSize]
    omega
  have bound := (List.subperm_of_subset nodup subset).length_le
  rw [List.length_map, List.length_range] at bound
  exact Nat.lt_of_le_of_lt bound (by decide)

theorem heapPages_lt (paging : HeapPaging img frames k) :
    heapPages k < pageMaxSize := by
  have account := paging.account.length_eq
  have bound := paging.frames_length
  simp only [List.length_append, heapFrames, List.length_map,
    List.length_range] at account
  omega

theorem heapTables_pos (paging : HeapPaging img frames k)
    (nonempty : k.heapMax ≠ heapStart) :
    0 < (heapTables img k.mem).length := by
  have lower := paging.heapMax_lower
  have entry := paging.mapped heapStart (Nat.le_refl _) (by omega)
  have present : tableOf img.pgdKern k.mem (pgdIndex heapStart) ≠ 0 := by
    intro missing
    rw [pteOf, if_pos missing] at entry
    omega
  exact List.length_pos_of_mem (table_mem (k := k)
    (heap_index (Nat.le_refl _) (by decide)) (pgdIndex_lt _) present)

/-- There are too few frames to map the whole window: its last page is never
reached. -/
theorem heapMax_room (paging : HeapPaging img frames k) :
    k.heapMax + 2 * pageSize ≤ 4294967296 := by
  have account := paging.account.length_eq
  have bound := paging.frames_length
  have aligned := paging.heapMax_aligned
  have lower := paging.heapMax_lower
  simp only [List.length_append, heapFrames, List.length_map,
    List.length_range] at account
  by_cases empty : k.heapMax = heapStart
  · rw [empty]
    decide
  have table := paging.heapTables_pos empty
  simp only [heapPages, heapStart, pageSize, pmmMaxSize, pmmPageSize,
    pageMaxSize] at *
  omega

/-- The table entry of the page of `va`, a page of the heap window, became
`value`. -/
structure WindowStore (img : KernelImage) (k : Kernel) (va value : Nat)
    (mem : Mem) : Prop where
  tables : PageTables img.pgdKern mem k.pmmStack
  pde : ∀ i < pgdSize, pdeOf img.pgdKern mem i = pdeOf img.pgdKern k.mem i
  here : ∀ other < 4294967296, other / pageSize = va / pageSize →
    pteOf img.pgdKern mem other = value
  elsewhere : ∀ other < 4294967296, other / pageSize ≠ va / pageSize →
    pteOf img.pgdKern mem other = pteOf img.pgdKern k.mem other
  view : ∀ other, heapStart ≤ other → other < k.heapMax →
    mem (frameAt img.pgdKern k.mem other + other % pageSize) =
      k.mem (frameAt img.pgdKern k.mem other + other % pageSize)
  heapTables_eq : heapTables img mem = heapTables img k.mem

theorem windowStore (paging : HeapPaging img frames k) {va value : Nat}
    (small : va < 4294967296) (valueSmall : value < 4294967296)
    (present : tableOf img.pgdKern k.mem (pgdIndex va) ≠ 0) :
    WindowStore img k va value (store32 k.mem
      (tableOf img.pgdKern k.mem (pgdIndex va) + 4 * pteIndex va) value) := by
  have bound : pgdIndex va < pgdSize := pgdIndex_lt _
  have slotBound : pteIndex va < pteSize := pteIndex_lt _
  have written := EntryWritten.of_store k value paging.tables small
    valueSmall present
  have pdeEq := paging.tables.pdeOf_store_table value bound slotBound present
  refine ⟨written.tables, pdeEq, ?_, ?_, ?_, ?_⟩
  · intro other otherSmall samePage
    rw [written.pte other otherSmall, if_pos samePage]
  · intro other otherSmall otherPage
    rw [written.pte other otherSmall, if_neg otherPage]
  · exact paging.view_store_table value bound slotBound present
  · unfold heapTables
    congr 1
    apply List.map_congr_left
    intro i member
    have upper := (List.mem_range'_1.mp member).2
    exact tableOf_congr (pdeEq i (by grind))

namespace WindowStore

variable {va value : Nat} {mem : Mem}

theorem frame_elsewhere (stored : WindowStore img k va value mem)
    {other : Nat} (small : other < 4294967296)
    (otherPage : other / pageSize ≠ va / pageSize) :
    frameAt img.pgdKern mem other = frameAt img.pgdKern k.mem other := by
  rw [frameAt, frameAt, stored.elsewhere other small otherPage]

theorem kernel_pde (stored : WindowStore img k va value mem)
    (paging : HeapPaging img frames k) :
    ∀ i < 896, pdeOf img.pgdKern mem i = img.kernelPde i := by
  intro i low
  rw [stored.pde i (by grind)]
  exact paging.kernel_pde i low

theorem heap_pde (stored : WindowStore img k va value mem)
    (paging : HeapPaging img frames k) :
    ∀ i, 896 ≤ i → i < pgdSize → pdeOf img.pgdKern mem i ≠ 0 →
      pdeOf img.pgdKern mem i = tableOf img.pgdKern mem i + 3 := by
  intro i lower upper inUse
  rw [stored.pde i upper] at inUse ⊢
  rw [tableOf_congr (stored.pde i upper)]
  exact paging.heap_pde i lower upper inUse

theorem direct (stored : WindowStore img k va value mem)
    (paging : HeapPaging img frames k) (lower : heapStart ≤ va) :
    ∀ other < heapStart, pteOf img.pgdKern mem other = directPte other := by
  intro other low
  rw [stored.elsewhere other (by simp only [heapStart] at low; omega)
    (heap_page_ne lower low)]
  exact paging.direct other low

/-- The bytes of the heap below both ends are those of before. -/
theorem view_eq (stored : WindowStore img k va value mem) {max : Nat}
    {other : Nat} (small : k.heapMax ≤ 4294967296)
    (below : other < k.heapMax) (belowNew : other < max)
    (otherPage : other / pageSize ≠ va / pageSize) :
    heapView img { k with mem := mem, heapMax := max } other =
      heapView img k other := by
  unfold heapView
  by_cases inside : heapStart ≤ other
  · simp only [inside, below, belowNew, and_self, if_true]
    rw [stored.frame_elsewhere (by omega) otherPage]
    exact stored.view other inside below
  · simp [inside]

end WindowStore

theorem mapPage (paging : HeapPaging img frames k) {frame : Nat}
    {mem : Mem} (usable : UsableFrame img frame) (fresh : frame ∉ frames)
    (room : k.heapMax + 2 * pageSize ≤ 4294967296)
    (stored : WindowStore img k k.heapMax (frame + 3) mem) :
    HeapPaging img (frame :: frames)
        { k with mem := mem, heapMax := k.heapMax + pageSize } ∧
      Extends img k
        { k with mem := mem, heapMax := k.heapMax + pageSize } := by
  have aligned := paging.heapMax_aligned
  have lower := paging.heapMax_lower
  have small : k.heapMax < 4294967296 := by
    simp only [pageSize] at room
    omega
  have otherPage : ∀ va < k.heapMax,
      va / pageSize ≠ k.heapMax / pageSize :=
    fun va => page_ne_of_lt aligned
  have frameNew : ∀ va < 4294967296, va / pageSize = k.heapMax / pageSize →
      frameAt img.pgdKern mem va = frame := by
    intro va vaSmall samePage
    rw [frameAt, stored.here va vaSmall samePage,
      roundDown_add_flags usable.isFrame.1 (by decide)]
  constructor
  · constructor
    case usable =>
      intro other member
      rcases List.mem_cons.mp member with rfl | old
      · exact usable
      · exact paging.usable other old
    case distinct => exact List.nodup_cons.mpr ⟨fresh, paging.distinct⟩
    case tables => exact stored.tables
    case kernel_pde => exact stored.kernel_pde paging
    case heap_pde => exact stored.heap_pde paging
    case heapMax_aligned =>
      simp only [pageSize] at aligned ⊢
      omega
    case heapMax_lower =>
      simp only
      omega
    case heapMax_upper =>
      simp only [pageSize] at room ⊢
      omega
    case direct => exact stored.direct paging lower
    case mapped =>
      intro va vaLower vaUpper
      have vaSmall : va < 4294967296 := by
        simp only [pageSize] at *
        omega
      by_cases below : va < k.heapMax
      · rw [stored.elsewhere va vaSmall (otherPage va below),
          stored.frame_elsewhere vaSmall (otherPage va below)]
        exact paging.mapped va vaLower below
      · have samePage : va / pageSize = k.heapMax / pageSize := by
          simp only [pageSize] at *
          omega
        rw [stored.here va vaSmall samePage, frameNew va vaSmall samePage]
    case unmapped =>
      intro va vaLower vaUpper
      rw [stored.elsewhere va vaUpper]
      · exact paging.unmapped va (by simp only at vaLower; omega) vaUpper
      · simp only [pageSize] at *
        omega
    case account =>
      have framesEq : heapFrames img
          { k with mem := mem, heapMax := k.heapMax + pageSize } =
            heapFrames img k ++ [frameAt img.pgdKern mem k.heapMax] :=
        heapFrames_grow aligned lower rfl fun va _ below =>
          stored.frame_elsewhere (by omega) (otherPage va below)
      rw [framesEq, stored.heapTables_eq, frameNew k.heapMax small rfl]
      exact (account_lastFrame _ _ _ frame).trans
        (paging.account.cons frame)
  · refine ⟨by simp, rfl, ?_, ?_⟩
    · intro va below
      exact stored.elsewhere va (by omega) (otherPage va below)
    · intro va below
      exact stored.view_eq (by omega) below
        (by omega) (otherPage va below)

theorem unmapPage (paging : HeapPaging img frames k) {mem : Mem}
    (page : heapStart + pageSize ≤ k.heapMax)
    (stored : WindowStore img k (k.heapMax - pageSize) 0 mem) :
    HeapPaging img
        (frames.erase (frameAt img.pgdKern k.mem (k.heapMax - pageSize)))
        { k with mem := mem, heapMax := k.heapMax - pageSize } ∧
      heapFrames img k =
        heapFrames img
          { k with mem := mem, heapMax := k.heapMax - pageSize } ++
          [frameAt img.pgdKern k.mem (k.heapMax - pageSize)] := by
  have aligned := paging.heapMax_aligned
  have top := paging.heapMax_upper
  have lower : heapStart ≤ k.heapMax - pageSize := by omega
  have small : k.heapMax - pageSize < 4294967296 := by
    simp only [pageSize] at top ⊢
    omega
  have lastAligned : (k.heapMax - pageSize) % pageSize = 0 := by
    simp only [pageSize] at aligned ⊢
    omega
  have otherPage : ∀ va < k.heapMax - pageSize,
      va / pageSize ≠ (k.heapMax - pageSize) / pageSize :=
    fun va => page_ne_of_lt lastAligned
  have framesEq : heapFrames img k =
      heapFrames img
        { k with mem := mem, heapMax := k.heapMax - pageSize } ++
        [frameAt img.pgdKern k.mem (k.heapMax - pageSize)] := by
    apply heapFrames_grow
    · exact lastAligned
    · exact lower
    · simp only
      omega
    · intro va _ below
      exact (stored.frame_elsewhere (by simp only at below; omega)
        (otherPage va below)).symm
  refine ⟨?_, framesEq⟩
  constructor
  case usable =>
    exact fun other member =>
      paging.usable other (List.mem_of_mem_erase member)
  case distinct => exact paging.distinct.erase _
  case tables => exact stored.tables
  case kernel_pde => exact stored.kernel_pde paging
  case heap_pde => exact stored.heap_pde paging
  case heapMax_aligned => exact lastAligned
  case heapMax_lower => exact lower
  case heapMax_upper =>
    simp only [pageSize] at top ⊢
    omega
  case direct => exact stored.direct paging lower
  case mapped =>
    intro va vaLower vaUpper
    have vaSmall : va < 4294967296 := by
      simp only at vaUpper
      omega
    rw [stored.elsewhere va vaSmall (otherPage va vaUpper),
      stored.frame_elsewhere vaSmall (otherPage va vaUpper)]
    exact paging.mapped va vaLower (by simp only at vaUpper; omega)
  case unmapped =>
    intro va vaLower vaUpper
    by_cases samePage : va / pageSize = (k.heapMax - pageSize) / pageSize
    · exact stored.here va vaUpper samePage
    · rw [stored.elsewhere va vaUpper samePage]
      apply paging.unmapped va _ vaUpper
      simp only [pageSize] at *
      omega
  case account =>
    rw [stored.heapTables_eq]
    have account := paging.account
    rw [framesEq] at account
    have moved : (frameAt img.pgdKern k.mem (k.heapMax - pageSize) ::
        (heapTables img k.mem ++ heapFrames img
          { k with mem := mem, heapMax := k.heapMax - pageSize } ++
            k.pmmStack)).Perm frames :=
      (account_lastFrame _ _ _ _).symm.trans account
    have erased := moved.erase
      (frameAt img.pgdKern k.mem (k.heapMax - pageSize))
    rwa [List.erase_cons_head] at erased

theorem newTable_extends (paging : HeapPaging img frames k) {index : Nat}
    {table : Nat} {rest : List Nat} (bound : index < pgdSize)
    (missing : tableOf img.pgdKern k.mem index = 0)
    (stack : k.pmmStack = table :: rest) :
    Extends img k { k with
      mem := addTable img.pgdKern k.mem index table
      pmmStack := rest } := by
  have tables := paging.tables
  rw [stack] at tables
  have pteEq := PageTables.pteOf_addTable tables bound missing
  refine ⟨Nat.le_refl _, rfl, fun va _ => pteEq va, ?_⟩
  intro va below
  unfold heapView
  by_cases inside : heapStart ≤ va
  · simp only [inside, below, and_self, if_true]
    have frameEq : frameAt img.pgdKern
        (addTable img.pgdKern k.mem index table) va =
          frameAt img.pgdKern k.mem va := by
      rw [frameAt, frameAt, pteEq]
    rw [frameEq]
    exact paging.view_newTable bound stack inside below
  · simp [inside]

theorem heapEntry_eq {frame : Nat} (isFrame : IsFrame frame) :
    roundDown frame pageSize ||| (pagePresent ||| pageWrite) = frame + 3 := by
  rw [roundDown_of_aligned isFrame.1, or_flags isFrame.1 (by decide)]
  rfl

/-- A table is in place: the popped frame is mapped. -/
theorem map_popped (paging : HeapPaging img frames k) {frame : Nat}
    (usable : UsableFrame img frame) (fresh : frame ∉ frames)
    (room : k.heapMax + 2 * pageSize ≤ 4294967296)
    (present : tableOf img.pgdKern k.mem (pgdIndex k.heapMax) ≠ 0) :
    ∃ mem, mem = store32 k.mem
        (tableOf img.pgdKern k.mem (pgdIndex k.heapMax) +
          4 * pteIndex k.heapMax) (frame + 3) ∧
      HeapPaging img (frame :: frames)
        { k with mem := mem, heapMax := k.heapMax + pageSize } ∧
      Extends img k
        { k with mem := mem, heapMax := k.heapMax + pageSize } := by
  have frameUpper := usable.isFrame.upper
  refine ⟨_, rfl, paging.mapPage usable fresh room ?_⟩
  apply paging.windowStore _ _ present
  · simp only [pageSize] at room
    omega
  · simp only [pageSize, pmmMaxSize] at frameUpper
    omega

/-- The frame on top of the page stack is one of the boot frames, and no other
of them once it is popped. -/
theorem topFrame (paging : HeapPaging img frames k) {frame : Nat}
    {rest : List Nat} (stack : k.pmmStack = frame :: rest) :
    UsableFrame img frame ∧ frame ∉ frames.erase frame ∧
      (frame :: frames.erase frame).Perm frames := by
  have member : frame ∈ frames :=
    paging.account.mem_iff.mp (by simp [stack])
  exact ⟨paging.usable frame member, paging.distinct.not_mem_erase,
    (List.perm_cons_erase member).symm⟩

theorem pop_extends (k : Kernel) (rest : List Nat) :
    Extends img k { k with pmmStack := rest } :=
  ⟨Nat.le_refl _, rfl, fun _ _ => rfl, fun _ _ => rfl⟩

/-- The popped frame is mapped through the table of its region. -/
theorem growPage_present (paging : HeapPaging img frames k) {frame : Nat}
    {rest : List Nat} (stack : k.pmmStack = frame :: rest)
    (present : tableOf img.pgdKern k.mem (pgdIndex k.heapMax) ≠ 0) :
    ∃ k', map img.pgdKern k.heapMax frame (pagePresent ||| pageWrite)
        { k with pmmStack := rest } = .ok () k' ∧
      PageGrown img frames k k' := by
  have popped := paging.pop stack
  obtain ⟨usable, fresh, back⟩ := paging.topFrame stack
  obtain ⟨mem, memEq, mapped, extended⟩ :=
    popped.map_popped usable fresh paging.heapMax_room present
  have kept := popped.tables.tableOf_store_table (frame + 3) (pgdIndex_lt _)
    (pteIndex_lt k.heapMax) present
  simp only at memEq kept
  refine ⟨_, map_present popped.tables present, rfl, ?_, ?_, ?_, ?_, ?_⟩
  · exact ⟨[frame], stack.symm⟩
  · simp [stack, pageCost, present]
  · intro i iBound
    rw [heapEntry_eq usable.isFrame]
    simp only
    rw [kept i iBound]
    by_cases same : i = pgdIndex k.heapMax
    · simp [same, present]
    · simp [same]
  · rw [heapEntry_eq usable.isFrame]
    simp only
    rw [← memEq]
    exact mapped.perm back
  · rw [heapEntry_eq usable.isFrame]
    simp only
    rw [← memEq]
    exact (pop_extends k rest).trans extended

/-- A second frame becomes the table of the region first. -/
theorem growPage_missing (paging : HeapPaging img frames k)
    {frame table : Nat} {rest : List Nat}
    (stack : k.pmmStack = frame :: table :: rest)
    (missing : tableOf img.pgdKern k.mem (pgdIndex k.heapMax) = 0) :
    ∃ k', map img.pgdKern k.heapMax frame (pagePresent ||| pageWrite)
        { k with pmmStack := table :: rest } = .ok () k' ∧
      PageGrown img frames k k' := by
  have room := paging.heapMax_room
  have bound : pgdIndex k.heapMax < pgdSize := pgdIndex_lt _
  have popped := paging.pop stack
  obtain ⟨usable, fresh, back⟩ := paging.topFrame stack
  have lower : 896 ≤ pgdIndex k.heapMax :=
    heap_index paging.heapMax_lower (by simp only [pageSize] at room; omega)
  have tabled := popped.newTable lower bound missing rfl
  have tablesEq := PageTables.tableOf_addTable popped.tables
    (pgdIndex k.heapMax)
  have tableEq : tableOf img.pgdKern (addTable img.pgdKern k.mem
      (pgdIndex k.heapMax) table) (pgdIndex k.heapMax) = table := by
    rw [tablesEq _ bound, if_pos rfl]
  have tableFrame : IsFrame table := popped.tables.stack_frame table (by simp)
  have present : tableOf img.pgdKern (addTable img.pgdKern k.mem
      (pgdIndex k.heapMax) table) (pgdIndex k.heapMax) ≠ 0 := by
    rw [tableEq]
    exact Nat.ne_of_gt tableFrame.2.1
  obtain ⟨mem, memEq, mapped, extended⟩ :=
    tabled.map_popped usable fresh room present
  have kept := tabled.tables.tableOf_store_table (frame + 3) bound
    (pteIndex_lt k.heapMax) present
  simp only [tableEq] at memEq kept
  refine ⟨_, map_missing popped.tables missing rfl, rfl, ?_, ?_, ?_, ?_, ?_⟩
  · exact ⟨[frame, table], stack.symm⟩
  · simp [stack, pageCost, missing]
  · intro i iBound
    rw [heapEntry_eq usable.isFrame]
    simp only
    rw [kept i iBound, tablesEq i iBound]
    split
    · rename_i same
      simp [same, Nat.ne_of_gt tableFrame.2.1]
    · rename_i other
      simp [other]
  · rw [heapEntry_eq usable.isFrame, ← memEq]
    exact mapped.perm back
  · rw [heapEntry_eq usable.isFrame, ← memEq]
    exact ((pop_extends k _).trans
      (popped.newTable_extends bound missing rfl)).trans extended

/-- One round of the growth loop: nothing is left on the page stack, or only
the frame of a page whose table is missing, or the heap is one page longer. -/
theorem growRound (paging : HeapPaging img frames k) :
    (k.pmmStack = [] ∧ growPage img k.heapMax k = .error (.panic "out of memory") k) ∨
    (∃ frame, k.pmmStack = [frame] ∧
      tableOf img.pgdKern k.mem (pgdIndex k.heapMax) = 0 ∧
      growPage img k.heapMax k =
        .error (.panic "out of memory") { k with pmmStack := [] }) ∨
    ∃ k', growPage img k.heapMax k = .ok () k' ∧ PageGrown img frames k k' := by
  unfold growPage
  cases stack : k.pmmStack with
  | nil =>
      exact .inl ⟨rfl, Outcome.bind_of_error (pmmAllocPage_nil stack)⟩
  | cons frame rest =>
      right
      have popped := paging.pop stack
      rw [Outcome.bind_of_ok (pmmAllocPage_cons stack)]
      by_cases missing :
          tableOf img.pgdKern k.mem (pgdIndex k.heapMax) = 0
      · cases rest with
        | nil =>
            exact .inl ⟨frame, rfl, missing,
              map_exhausted popped.tables missing rfl⟩
        | cons table rest =>
            exact .inr (paging.growPage_missing stack missing)
      · exact .inr (paging.growPage_present stack missing)

/-- The growth loop ends within one round for each free frame and one more. -/
theorem allocChunkLoop_spec (rounds : Nat) {k : Kernel}
    (paging : HeapPaging img frames k) {start len : Nat}
    (room : start + len < 4294967296)
    (enough : k.pmmStack.length < rounds) :
    (∃ k', allocChunkLoop img.pgdKern start len rounds k =
        .error (.panic "out of memory") k' ∧
      k.heapMax + (k.pmmStack.length - 1) / 2 * pageSize < start + len) ∨
      ∃ k', allocChunkLoop img.pgdKern start len rounds k = .ok () k' ∧
        HeapPaging img frames k' ∧ Extends img k k' ∧
        start + len ≤ k'.heapMax ∧
        (k'.heapMax = k.heapMax ∨ k'.heapMax < start + len + pageSize) := by
  induction rounds generalizing k with
  | zero => omega
  | succ rounds induction =>
      rw [allocChunkLoop, KernelM.get_bind, uint32_of_lt room]
      by_cases short : k.heapMax < start + len
      · rw [if_pos short]
        have maxRoom := paging.heapMax_room
        rw [growPage_bind]
        rcases paging.growRound with
          ⟨none, stopped⟩ | ⟨frame, one, _, stopped⟩ |
          ⟨k', returned, max, _, taken, _, paging', extended⟩
        · refine .inl ⟨k, Outcome.bind_of_error stopped, ?_⟩
          simpa [none] using short
        · refine .inl ⟨_, Outcome.bind_of_error stopped, ?_⟩
          simpa [one] using short
        · have cost := pageCost_range img k
          rw [Outcome.bind_of_ok returned, KernelM.modify_bind, max,
            uint32_of_lt (by simp only [pageSize] at *; omega)]
          rcases induction paging' (by simp only; omega) with
            ⟨last, stopped, few⟩ |
            ⟨last, returned', paging'', extended', fits, tight⟩
          · refine .inl ⟨last, stopped, ?_⟩
            simp only [pageSize] at few ⊢
            omega
          · refine .inr ⟨last, returned', paging'',
              extended.trans extended', fits, .inr ?_⟩
            rcases tight with unchanged | bounded
            · rw [unchanged]
              simp only
              omega
            · exact bounded
      · rw [if_neg short]
        exact .inr ⟨k, rfl, paging, .refl img k, by omega, .inl rfl⟩

/-- `alloc_chunk` either stops for lack of a frame, which takes fewer than two
frames for each page, or makes room for the chunk, with less than a page to
spare if it had to grow. -/
theorem allocChunk_spec (paging : HeapPaging img frames k) {start len : Nat}
    (room : start + len < 4294967296) :
    (∃ k', allocChunk img.pgdKern start len k =
        .error (.panic "out of memory") k' ∧
      k.heapMax + (k.pmmStack.length - 1) / 2 * pageSize < start + len) ∨
      ∃ k', allocChunk img.pgdKern start len k = .ok () k' ∧
        HeapPaging img frames k' ∧ Extends img k k' ∧
        start + len ≤ k'.heapMax ∧
        (k'.heapMax = k.heapMax ∨ k'.heapMax < start + len + pageSize) :=
  allocChunkLoop_spec (k.pmmStack.length + 1) paging room (by omega)

/-- With its last page off the heap and the frame on the stack the heap is
trimmed. -/
theorem trims_lastPage (paging : HeapPaging img frames k) {mem : Mem}
    (page : heapStart + pageSize ≤ k.heapMax)
    (stored : WindowStore img k (k.heapMax - pageSize) 0 mem) :
    Trims img k { k with
      mem := mem
      heapMax := k.heapMax - pageSize
      pmmStack := frameAt img.pgdKern k.mem (k.heapMax - pageSize) ::
        k.pmmStack } := by
  obtain ⟨paging', framesEq⟩ := paging.unmapPage page stored
  have top := paging.heapMax_upper
  have otherPage : ∀ va < k.heapMax - pageSize,
      va / pageSize ≠ (k.heapMax - pageSize) / pageSize :=
    fun va => page_ne_of_lt paging'.heapMax_aligned
  refine ⟨⟨Nat.sub_le _ _, ?_, ?_⟩, rfl, ?_⟩
  · intro va vaSmall
    by_cases vaBelow : va < k.heapMax - pageSize
    · rw [if_neg (by simp only; omega)]
      exact stored.elsewhere va vaSmall (otherPage va vaBelow)
    · rw [if_pos (by simp only; omega)]
      exact paging'.unmapped va (by simp only; omega) vaSmall
  · rw [framesEq]
    simp only [List.append_assoc, List.singleton_append]
    rfl
  · intro va vaBelow
    simp only at vaBelow
    exact stored.view_eq (by omega) (by omega) vaBelow (otherPage va vaBelow)

theorem releaseRound (paging : HeapPaging img frames k)
    (page : heapStart + pageSize ≤ k.heapMax) :
    ∃ k', (do
        set { k with heapMax := k.heapMax - pageSize }
        let page ← getMapping img.pgdKern (k.heapMax - pageSize)
        unmap img.pgdKern (k.heapMax - pageSize)
        pmmFreePage (← readLocal page) : KernelM Unit) k = .ok () k' ∧
      k'.heapMax = k.heapMax - pageSize ∧
      HeapPaging img frames k' ∧ Trims img k k' := by
  have top := paging.heapMax_upper
  have aligned := paging.heapMax_aligned
  have lower : heapStart ≤ k.heapMax - pageSize := by omega
  have below : k.heapMax - pageSize < k.heapMax := by
    simp only [heapStart, pageSize] at *
    omega
  have small : k.heapMax - pageSize < 4294967296 := by omega
  let lowered : Kernel := { k with heapMax := k.heapMax - pageSize }
  let frame := frameAt img.pgdKern k.mem (k.heapMax - pageSize)
  have entry := paging.mapped _ lower below
  have usable := paging.frame_usable lower below
  have inAccount : frame ∈ frames :=
    paging.account.mem_iff.mp (by simp [frame, paging.frame_mem lower below])
  have mapping : getMapping img.pgdKern (k.heapMax - pageSize) lowered =
      .ok (some frame) lowered := by
    rw [getMapping_eq (k := lowered) paging.tables, translation, if_neg]
    · rfl
    · simp only [lowered, entry]
      omega
  have present : tableOf img.pgdKern k.mem
      (pgdIndex (k.heapMax - pageSize)) ≠ 0 := by
    intro missing
    rw [pteOf, if_pos missing] at entry
    omega
  have stored : WindowStore img k (k.heapMax - pageSize) 0 (store32 k.mem
      (tableOf img.pgdKern k.mem (pgdIndex (k.heapMax - pageSize)) +
        4 * pteIndex (k.heapMax - pageSize)) 0) :=
    paging.windowStore small (by decide) present
  obtain ⟨paging', -⟩ := paging.unmapPage page stored
  have unmapped := unmap_present (k := lowered) paging.tables present
  have length := paging'.account.length_eq
  have bound := paging'.frames_length
  have room : k.pmmStack.length ≠ pageMaxSize := by
    simp only [List.length_append] at length
    omega
  let released : Kernel := { lowered with
    mem := store32 k.mem (tableOf img.pgdKern k.mem
      (pgdIndex (k.heapMax - pageSize)) +
        4 * pteIndex (k.heapMax - pageSize)) 0
    pmmStack := frame :: k.pmmStack }
  refine ⟨released, ?_, ?_, ?_, ?_⟩
  · rw [KernelM.set_bind, Outcome.bind_of_ok mapping,
      Outcome.bind_of_ok unmapped]
    exact pmmFreePage_room frame room
  · rfl
  · exact (paging'.push usable paging.distinct.not_mem_erase).perm
      (List.perm_cons_erase inAccount).symm
  · exact paging.trims_lastPage page stored

/-- The body of the release loop, with the rest of the loop behind it. -/
theorem releaseRound_then (pgdKern top : Nat) (lowered : Kernel)
    (next : KernelM Unit) :
    (do
      set lowered
      let page ← getMapping pgdKern top
      unmap pgdKern top
      pmmFreePage (← readLocal page)
      next) = ((do
      set lowered
      let page ← getMapping pgdKern top
      unmap pgdKern top
      pmmFreePage (← readLocal page) : KernelM Unit) >>= fun _ => next) := by
  simp only [bind_assoc]

/-- The release loop ends within one round for each page of the heap and one
more; it stops at the page behind the one of `chunk`. -/
theorem freeChunkLoop_spec (rounds : Nat) {k : Kernel}
    (paging : HeapPaging img frames k) {chunk : Nat}
    (lower : heapStart ≤ chunk) (enough : heapPages k < rounds) :
    ∃ k', freeChunkLoop img.pgdKern chunk rounds k = .ok () k' ∧
      HeapPaging img frames k' ∧ Trims img k k' ∧
      k'.heapMax = min k.heapMax (roundDown chunk pageSize + pageSize) := by
  induction rounds generalizing k with
  | zero => omega
  | succ rounds induction =>
      have maxLower := paging.heapMax_lower
      have maxUpper := paging.heapMax_upper
      have aligned := paging.heapMax_aligned
      have topEq : sub32 k.heapMax pageSize = k.heapMax - pageSize := by
        simp only [heapStart, pageSize] at maxLower maxUpper ⊢
        exact sub32_eq (by omega) (by omega)
      rw [freeChunkLoop, KernelM.get_bind]
      simp only [topEq]
      by_cases above : chunk < k.heapMax - pageSize
      · rw [if_pos above]
        have page : heapStart + pageSize ≤ k.heapMax := by
          simp only [pageSize] at aligned above ⊢
          omega
        obtain ⟨k₁, returned, max, paging₁, released⟩ :=
          paging.releaseRound page
        have fewer : heapPages k = heapPages k₁ + 1 :=
          heapPages_grow paging₁.heapMax_lower (by omega)
        obtain ⟨k₂, returned', paging₂, released', max'⟩ :=
          induction paging₁ (by omega)
        refine ⟨k₂, ?_, paging₂, released.trans released', ?_⟩
        · rw [releaseRound_then, Outcome.bind_of_ok returned]
          exact returned'
        · have stop : roundDown chunk pageSize + pageSize ≤
              k.heapMax - pageSize := by
            have chunkFloor := roundDown_mod chunk pageSize
            have chunkLe := roundDown_le chunk pageSize
            simp only [pageSize] at aligned above chunkFloor chunkLe ⊢
            omega
          rw [max', max, Nat.min_eq_right stop,
            Nat.min_eq_right (stop.trans (Nat.sub_le _ _))]
      · rw [if_neg above]
        refine ⟨k, rfl, paging, .refl img k paging.unmapped, ?_⟩
        simp only [roundDown, pageSize] at *
        omega

end HeapPaging

end MiniOS
