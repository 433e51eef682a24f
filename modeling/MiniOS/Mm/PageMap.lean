import MiniOS.Mm.Vmm

/-!
# The page tables as a finite map

`PageTables` is the separation invariant of a directory, its tables and the
free frames.  Under it a table entry can be named by the virtual address it
serves (`pteOf`), `map` and `unmap` change the entry of one page and nothing
else, and `get_mapping` reads it.
-/

namespace MiniOS

open ByteMemory

/-- A page-aligned frame other than page 0 and below 512 MB. -/
def IsFrame (frame : Nat) : Prop :=
  frame % pageSize = 0 ∧ 0 < frame ∧ frame < pmmMaxSize

/-- Two pages of memory, aligned or not, have no byte in common. -/
def Apart (left right : Nat) : Prop :=
  left + pageSize ≤ right ∨ right + pageSize ≤ left

def pdeOf (pgdNow : Nat) (mem : Mem) (index : Nat) : Nat :=
  load32 mem (pgdNow - pageOffset + 4 * index)

/-- The frame of the page table at `index`, 0 when there is none. -/
def tableOf (pgdNow : Nat) (mem : Mem) (index : Nat) : Nat :=
  roundDown (pdeOf pgdNow mem index) pageSize

/-- The table entry serving `va`, 0 when its table is missing. -/
def pteOf (pgdNow : Nat) (mem : Mem) (va : Nat) : Nat :=
  if tableOf pgdNow mem (pgdIndex va) = 0 then 0
  else load32 mem (tableOf pgdNow mem (pgdIndex va) + 4 * pteIndex va)

/-- What `get_mapping` makes of a table entry. -/
def translation (pgdNow : Nat) (mem : Mem) (va : Nat) : Option Nat :=
  if pteOf pgdNow mem va = 0 then none
  else some (roundDown (pteOf pgdNow mem va) pageSize)

/-- The directory, the tables its entries point to and the frames on the page
stack are frames without common bytes. -/
structure PageTables (pgdNow : Nat) (mem : Mem) (stack : List Nat) : Prop where
  directory : InDirectMap pgdNow pageSize
  table_frame : ∀ i < pgdSize, pdeOf pgdNow mem i ≠ 0 →
    IsFrame (tableOf pgdNow mem i)
  table_distinct : ∀ i < pgdSize, ∀ j < pgdSize,
    pdeOf pgdNow mem i ≠ 0 → pdeOf pgdNow mem j ≠ 0 →
      tableOf pgdNow mem i = tableOf pgdNow mem j → i = j
  stack_frame : ∀ frame ∈ stack, IsFrame frame
  stack_distinct : stack.Nodup
  table_stack : ∀ i < pgdSize, pdeOf pgdNow mem i ≠ 0 →
    tableOf pgdNow mem i ∉ stack
  directory_table : ∀ i < pgdSize, pdeOf pgdNow mem i ≠ 0 →
    Apart (pgdNow - pageOffset) (tableOf pgdNow mem i)
  directory_stack : ∀ frame ∈ stack, Apart (pgdNow - pageOffset) frame

/-- The directory gets a zeroed table `frame` at `index`. -/
def addTable (pgdNow : Nat) (mem : Mem) (index frame : Nat) : Mem :=
  fill (store32 mem (pgdNow - pageOffset + 4 * index)
    (frame ||| pagePresent ||| pageWrite)) frame 0 pageSize

theorem IsFrame.apart {left right : Nat} (leftFrame : IsFrame left)
    (rightFrame : IsFrame right) (different : left ≠ right) :
    Apart left right := by
  obtain ⟨leftAligned, _, _⟩ := leftFrame
  obtain ⟨rightAligned, _, _⟩ := rightFrame
  simp only [Apart, pageSize] at leftAligned rightAligned ⊢
  omega

theorem IsFrame.upper {frame : Nat} (isFrame : IsFrame frame) :
    frame + pageSize ≤ pmmMaxSize := by
  obtain ⟨aligned, _, below⟩ := isFrame
  simp only [pageSize, pmmMaxSize] at aligned below ⊢
  omega

theorem IsFrame.reached {frame : Nat} (isFrame : IsFrame frame) :
    uint32 (frame + pageOffset) = frame + pageOffset ∧
      InDirectMap (frame + pageOffset) pageSize := by
  have upper := isFrame.upper
  obtain ⟨aligned, positive, _⟩ := isFrame
  simp only [pageSize, pmmMaxSize, pageOffset, InDirectMap] at *
  exact ⟨uint32_of_lt (by omega), by omega, by omega⟩

theorem tableOf_eq_zero_of_pdeOf {pgdNow : Nat} {mem : Mem} {index : Nat}
    (missing : pdeOf pgdNow mem index = 0) : tableOf pgdNow mem index = 0 := by
  simp [tableOf, missing, roundDown]

theorem samePage_iff {va other : Nat} (small : va < 4294967296)
    (otherSmall : other < 4294967296) :
    (pgdIndex va = pgdIndex other ∧ pteIndex va = pteIndex other) ↔
      va / pageSize = other / pageSize := by
  simp only [pgdIndex_eq, pteIndex_eq, pageSize]
  omega

theorem tableOf_congr {pgdNow index : Nat} {mem mem' : Mem}
    (same : pdeOf pgdNow mem' index = pdeOf pgdNow mem index) :
    tableOf pgdNow mem' index = tableOf pgdNow mem index := by
  simp only [tableOf, same]

theorem pteOf_page (pgdNow : Nat) (mem : Mem) (va : Nat) :
    pteOf pgdNow mem (va / pageSize * pageSize) = pteOf pgdNow mem va := by
  have sameDirectory :
      pgdIndex (va / pageSize * pageSize) = pgdIndex va := by
    simp only [pgdIndex_eq, pageSize]
    omega
  have sameTable :
      pteIndex (va / pageSize * pageSize) = pteIndex va := by
    simp only [pteIndex_eq, pageSize]
    omega
  simp only [pteOf, sameDirectory, sameTable]

namespace PageTables

variable {pgdNow : Nat} {mem : Mem} {stack : List Nat}

/-- A directory entry is zero as soon as it has no frame. -/
theorem pde_eq_zero (tables : PageTables pgdNow mem stack) {index : Nat}
    (bound : index < pgdSize) (missing : tableOf pgdNow mem index = 0) :
    pdeOf pgdNow mem index = 0 := by
  by_contra present
  have := (tables.table_frame index bound present).2.1
  omega

theorem pde_ne_zero {index : Nat} (present : tableOf pgdNow mem index ≠ 0) :
    pdeOf pgdNow mem index ≠ 0 :=
  fun missing => present (tableOf_eq_zero_of_pdeOf missing)

theorem isFrame (tables : PageTables pgdNow mem stack) {index : Nat}
    (bound : index < pgdSize) (present : tableOf pgdNow mem index ≠ 0) :
    IsFrame (tableOf pgdNow mem index) :=
  tables.table_frame index bound (pde_ne_zero present)

theorem slot_reached (tables : PageTables pgdNow mem stack) {index : Nat}
    (bound : index < pgdSize) : InDirectMap (pgdNow + 4 * index) 4 := by
  obtain ⟨lower, upper⟩ := tables.directory
  simp only [pageSize, pgdSize, pmmMaxSize, pageOffset, InDirectMap] at *
  omega

theorem slot_eq (tables : PageTables pgdNow mem stack) (index : Nat) :
    pgdNow + 4 * index - pageOffset = pgdNow - pageOffset + 4 * index := by
  obtain ⟨lower, _⟩ := tables.directory
  simp only [pageSize, pageOffset] at *
  omega

theorem congr (tables : PageTables pgdNow mem stack) {mem' : Mem}
    (same : ∀ i < pgdSize, pdeOf pgdNow mem' i = pdeOf pgdNow mem i) :
    PageTables pgdNow mem' stack where
  directory := tables.directory
  table_frame := by
    intro i bound present
    rw [tableOf_congr (same i bound)]
    exact tables.table_frame i bound (same i bound ▸ present)
  table_distinct := by
    intro i iBound j jBound iPresent jPresent equality
    rw [tableOf_congr (same i iBound), tableOf_congr (same j jBound)]
      at equality
    exact tables.table_distinct i iBound j jBound
      (same i iBound ▸ iPresent) (same j jBound ▸ jPresent) equality
  stack_frame := tables.stack_frame
  stack_distinct := tables.stack_distinct
  table_stack := by
    intro i bound present
    rw [tableOf_congr (same i bound)]
    exact tables.table_stack i bound (same i bound ▸ present)
  directory_table := by
    intro i bound present
    rw [tableOf_congr (same i bound)]
    exact tables.directory_table i bound (same i bound ▸ present)
  directory_stack := tables.directory_stack

theorem pdeOf_store_table (tables : PageTables pgdNow mem stack)
    {index slot : Nat} (value : Nat) (bound : index < pgdSize)
    (slotBound : slot < pteSize) (present : tableOf pgdNow mem index ≠ 0) :
    ∀ i < pgdSize,
      pdeOf pgdNow (store32 mem (tableOf pgdNow mem index + 4 * slot) value) i
        = pdeOf pgdNow mem i := by
  intro i iBound
  have apart := tables.directory_table index bound (pde_ne_zero present)
  apply load32_store32_disjoint
  simp only [Apart, pageSize, pgdSize, pteSize] at *
  omega

theorem tableOf_store_table (tables : PageTables pgdNow mem stack)
    {index slot : Nat} (value : Nat) (bound : index < pgdSize)
    (slotBound : slot < pteSize) (present : tableOf pgdNow mem index ≠ 0) :
    ∀ i < pgdSize,
      tableOf pgdNow
        (store32 mem (tableOf pgdNow mem index + 4 * slot) value) i =
        tableOf pgdNow mem i :=
  fun i iBound => tableOf_congr
    (pdeOf_store_table tables value bound slotBound present i iBound)

/-- Writing one entry of a table changes the entry of one page. -/
theorem pteOf_store_table (tables : PageTables pgdNow mem stack)
    {va : Nat} (value other : Nat) (valueSmall : value < 4294967296)
    (present : tableOf pgdNow mem (pgdIndex va) ≠ 0) :
    pteOf pgdNow (store32 mem
        (tableOf pgdNow mem (pgdIndex va) + 4 * pteIndex va) value) other =
      if pgdIndex other = pgdIndex va ∧ pteIndex other = pteIndex va
      then value else pteOf pgdNow mem other := by
  have bound : pgdIndex va < pgdSize := pgdIndex_lt va
  have otherBound : pgdIndex other < pgdSize := pgdIndex_lt other
  have slotBound : pteIndex va < pteSize := pteIndex_lt va
  have otherSlot : pteIndex other < pteSize := pteIndex_lt other
  have sameTable := tableOf_congr
    (tables.pdeOf_store_table value bound slotBound present _ otherBound)
  simp only [pteOf, sameTable]
  by_cases sameIndex : pgdIndex other = pgdIndex va
  · rw [sameIndex, if_neg present, if_neg present]
    by_cases sameSlot : pteIndex other = pteIndex va
    · rw [sameSlot, load32_store32_same, Nat.mod_eq_of_lt valueSmall]
      simp
    · rw [load32_store32_disjoint _ _ (by omega)]
      simp [sameSlot]
  · by_cases otherPresent : tableOf pgdNow mem (pgdIndex other) = 0
    · simp [otherPresent, sameIndex]
    · have apart : Apart (tableOf pgdNow mem (pgdIndex other))
          (tableOf pgdNow mem (pgdIndex va)) := by
        apply (tables.isFrame otherBound otherPresent).apart
          (tables.isFrame bound present)
        intro equality
        exact sameIndex (tables.table_distinct _ otherBound _ bound
          (pde_ne_zero otherPresent) (pde_ne_zero present) equality)
      rw [load32_store32_disjoint]
      · simp [sameIndex]
      · simp only [Apart, pageSize, pteSize] at apart slotBound otherSlot
        omega

theorem store_table (tables : PageTables pgdNow mem stack)
    {index slot : Nat} (value : Nat) (bound : index < pgdSize)
    (slotBound : slot < pteSize) (present : tableOf pgdNow mem index ≠ 0) :
    PageTables pgdNow
      (store32 mem (tableOf pgdNow mem index + 4 * slot) value) stack :=
  tables.congr (tables.pdeOf_store_table value bound slotBound present)

theorem tableEntry_eq {frame : Nat} (isFrame : IsFrame frame) :
    frame ||| pagePresent ||| pageWrite = frame + 3 := by
  rw [Nat.or_assoc, or_flags isFrame.1 (by decide)]
  rfl

section NewTable

variable {index frame : Nat} {rest : List Nat}

theorem pdeOf_addTable (tables : PageTables pgdNow mem (frame :: rest))
    (index : Nat) : ∀ i < pgdSize,
    pdeOf pgdNow (addTable pgdNow mem index frame) i =
      if i = index then frame + 3 else pdeOf pgdNow mem i := by
  intro i iBound
  have isFrame : IsFrame frame := tables.stack_frame frame (by simp)
  have apart := tables.directory_stack frame (by simp)
  have upper := isFrame.upper
  simp only [Apart, pageSize, pmmMaxSize, pgdSize] at *
  rw [pdeOf, addTable,
    load32_fill_disjoint _ _ (by simp only [pageSize]; omega)]
  by_cases same : i = index
  · subst i
    rw [load32_store32_same, tableEntry_eq isFrame, if_pos rfl,
      Nat.mod_eq_of_lt (by omega)]
  · rw [load32_store32_disjoint _ _ (by omega), if_neg same, pdeOf]

theorem tableOf_addTable (tables : PageTables pgdNow mem (frame :: rest))
    (index : Nat) : ∀ i < pgdSize,
    tableOf pgdNow (addTable pgdNow mem index frame) i =
      if i = index then frame else tableOf pgdNow mem i := by
  intro i iBound
  have isFrame : IsFrame frame := tables.stack_frame frame (by simp)
  rw [tableOf, pdeOf_addTable tables index i iBound]
  split
  · exact roundDown_add_flags isFrame.1 (by decide)
  · rfl

theorem addTable_outside {x : Nat}
    (offSlot : x < pgdNow - pageOffset + 4 * index ∨
      pgdNow - pageOffset + 4 * index + 4 ≤ x)
    (offFrame : x < frame ∨ frame + pageSize ≤ x) :
    addTable pgdNow mem index frame x = mem x := by
  rw [addTable, fill_outside _ _ offFrame, store32_outside _ _ offSlot]

/-- The popped frame joins the tables. -/
theorem add (tables : PageTables pgdNow mem (frame :: rest))
    (bound : index < pgdSize) (missing : tableOf pgdNow mem index = 0) :
    PageTables pgdNow (addTable pgdNow mem index frame) rest := by
  have isFrame : IsFrame frame := tables.stack_frame frame (by simp)
  have pdeEq := pdeOf_addTable tables index
  have tableEq := tableOf_addTable tables index
  have absent := tables.pde_eq_zero bound missing
  have fresh : frame ∉ rest := (List.nodup_cons.mp tables.stack_distinct).1
  -- An entry of the new directory is the new one or an old one elsewhere.
  have old : ∀ i < pgdSize, i ≠ index →
      pdeOf pgdNow (addTable pgdNow mem index frame) i ≠ 0 →
      pdeOf pgdNow mem i ≠ 0 := by
    intro i iBound different present
    rwa [pdeEq i iBound, if_neg different] at present
  have apart : ∀ i < pgdSize, pdeOf pgdNow mem i ≠ 0 →
      tableOf pgdNow mem i ≠ frame := by
    intro i iBound present equality
    exact tables.table_stack i iBound present (by simp [equality])
  constructor
  case directory => exact tables.directory
  case table_frame =>
    intro i iBound present
    rw [tableEq i iBound]
    split
    · exact isFrame
    · rename_i different
      exact tables.table_frame i iBound (old i iBound different present)
  case table_distinct =>
    intro i iBound j jBound iPresent jPresent equality
    rw [tableEq i iBound, tableEq j jBound] at equality
    by_cases iNew : i = index <;> by_cases jNew : j = index
    · rw [iNew, jNew]
    · rw [if_pos iNew, if_neg jNew] at equality
      exact absurd equality.symm (apart j jBound (old j jBound jNew jPresent))
    · rw [if_neg iNew, if_pos jNew] at equality
      exact absurd equality (apart i iBound (old i iBound iNew iPresent))
    · rw [if_neg iNew, if_neg jNew] at equality
      exact tables.table_distinct i iBound j jBound
        (old i iBound iNew iPresent) (old j jBound jNew jPresent) equality
  case stack_frame =>
    intro other member
    exact tables.stack_frame other (by simp [member])
  case stack_distinct => exact (List.nodup_cons.mp tables.stack_distinct).2
  case table_stack =>
    intro i iBound present member
    rw [tableEq i iBound] at member
    split at member
    · exact fresh member
    · rename_i different
      exact tables.table_stack i iBound (old i iBound different present)
        (by simp [member])
  case directory_table =>
    intro i iBound present
    rw [tableEq i iBound]
    split
    · exact tables.directory_stack frame (by simp)
    · rename_i different
      exact tables.directory_table i iBound (old i iBound different present)
  case directory_stack =>
    intro other member
    exact tables.directory_stack other (by simp [member])

/-- A zeroed table serves no page, as the missing table did. -/
theorem pteOf_addTable (tables : PageTables pgdNow mem (frame :: rest))
    (bound : index < pgdSize) (missing : tableOf pgdNow mem index = 0)
    (va : Nat) :
    pteOf pgdNow (addTable pgdNow mem index frame) va =
      pteOf pgdNow mem va := by
  have isFrame : IsFrame frame := tables.stack_frame frame (by simp)
  have vaBound : pgdIndex va < pgdSize := pgdIndex_lt va
  have slotBound : pteIndex va < pteSize := pteIndex_lt va
  simp only [pteOf, tableOf_addTable tables index _ vaBound]
  by_cases same : pgdIndex va = index
  · rw [if_pos same, if_neg (Nat.ne_of_gt isFrame.2.1), same, if_pos missing]
    exact load32_fill_zero _ (by omega)
      (by simp only [pteSize] at slotBound; omega)
  · rw [if_neg same]
    by_cases present : tableOf pgdNow mem (pgdIndex va) = 0
    · simp [present]
    · rw [if_neg present, if_neg present]
      have tableFrame := tables.isFrame vaBound present
      have apartFrame : Apart (tableOf pgdNow mem (pgdIndex va)) frame := by
        apply tableFrame.apart isFrame
        intro equality
        exact tables.table_stack _ vaBound (pde_ne_zero present)
          (by simp [equality])
      have apartDirectory :=
        tables.directory_table _ vaBound (pde_ne_zero present)
      apply load32_congr
      intro x lower upper
      apply addTable_outside <;>
        simp only [Apart, pageSize, pgdSize, pteSize] at * <;>
        omega

end NewTable

end PageTables

section Routines

variable {pgdNow va pa flags : Nat} {k : Kernel}

theorem readEntry_pde {stack : List Nat}
    (tables : PageTables pgdNow k.mem stack) (va : Nat) :
    readEntry (pgdNow + 4 * pgdIndex va) k =
      .ok (pdeOf pgdNow k.mem (pgdIndex va)) k := by
  rw [readEntry_ok (tables.slot_reached (pgdIndex_lt va)), tables.slot_eq]
  rfl

/-- The table entry lies in the direct map, `pageOffset` above its address. -/
theorem slot_inDirectMap {table slot : Nat} (isFrame : IsFrame table)
    (bound : slot < pteSize) :
    InDirectMap (uint32 (table + pageOffset) + 4 * slot) 4 ∧
      uint32 (table + pageOffset) + 4 * slot - pageOffset =
        table + 4 * slot := by
  obtain ⟨noWrap, lower, upper⟩ := isFrame.reached
  rw [noWrap]
  simp only [InDirectMap, pageSize, pteSize, pmmMaxSize, pageOffset] at *
  omega

theorem map_present (tables : PageTables pgdNow k.mem k.pmmStack)
    (present : tableOf pgdNow k.mem (pgdIndex va) ≠ 0) :
    map pgdNow va pa flags k =
      .ok () { k with
        mem := store32 k.mem
          (tableOf pgdNow k.mem (pgdIndex va) + 4 * pteIndex va)
          (roundDown pa pageSize ||| flags) } := by
  obtain ⟨reached, address⟩ := slot_inDirectMap
    (tables.isFrame (pgdIndex_lt va) present) (pteIndex_lt va)
  rw [tableOf] at reached address present
  unfold map
  rw [Outcome.bind_of_ok (readEntry_pde tables va), if_neg present]
  rw [writeEntry_ok _ reached, address, tableOf]

/-- `map` without a table first turns the top frame into one. -/
theorem map_missing {frame : Nat} {rest : List Nat}
    (tables : PageTables pgdNow k.mem k.pmmStack)
    (missing : tableOf pgdNow k.mem (pgdIndex va) = 0)
    (stack : k.pmmStack = frame :: rest) :
    map pgdNow va pa flags k =
      .ok () { k with
        mem := store32 (addTable pgdNow k.mem (pgdIndex va) frame)
          (frame + 4 * pteIndex va) (roundDown pa pageSize ||| flags)
        pmmStack := rest } := by
  have isFrame : IsFrame frame :=
    tables.stack_frame frame (by simp [stack])
  obtain ⟨reached, address⟩ := slot_inDirectMap isFrame (pteIndex_lt va)
  have slot := tables.slot_reached (pgdIndex_lt va)
  have slotAddress := tables.slot_eq (pgdIndex va)
  obtain ⟨noWrap, inside⟩ := isFrame.reached
  have zeroed : InDirectMap (uint32 (frame + pageOffset)) pageSize := by
    rwa [noWrap]
  rw [tableOf] at missing
  unfold map
  rw [Outcome.bind_of_ok (readEntry_pde tables va), if_pos missing]
  rw [Outcome.bind_of_ok (pmmAllocPage_cons stack)]
  rw [Outcome.bind_of_ok (writeEntry_ok _ slot)]
  rw [Outcome.bind_of_ok (bzero_ok zeroed)]
  rw [writeEntry_ok _ reached, address]
  simp only [addTable, noWrap, slotAddress, Nat.add_sub_cancel]

theorem map_exhausted (tables : PageTables pgdNow k.mem k.pmmStack)
    (missing : tableOf pgdNow k.mem (pgdIndex va) = 0)
    (stack : k.pmmStack = []) :
    map pgdNow va pa flags k = .error (.panic "out of memory") k := by
  rw [tableOf] at missing
  unfold map
  rw [Outcome.bind_of_ok (readEntry_pde tables va), if_pos missing]
  exact Outcome.bind_of_error (pmmAllocPage_nil stack)

theorem unmap_present (tables : PageTables pgdNow k.mem k.pmmStack)
    (present : tableOf pgdNow k.mem (pgdIndex va) ≠ 0) :
    unmap pgdNow va k =
      .ok () { k with
        mem := store32 k.mem
          (tableOf pgdNow k.mem (pgdIndex va) + 4 * pteIndex va) 0 } := by
  obtain ⟨reached, address⟩ := slot_inDirectMap
    (tables.isFrame (pgdIndex_lt va) present) (pteIndex_lt va)
  rw [tableOf] at reached address present
  unfold unmap
  rw [Outcome.bind_of_ok (readEntry_pde tables va), if_neg present]
  rw [writeEntry_ok _ reached, address, tableOf]

theorem unmap_missing (tables : PageTables pgdNow k.mem k.pmmStack)
    (missing : tableOf pgdNow k.mem (pgdIndex va) = 0) :
    unmap pgdNow va k = .ok () k := by
  rw [tableOf] at missing
  unfold unmap
  rw [Outcome.bind_of_ok (readEntry_pde tables va), if_pos missing]
  rfl

theorem getMapping_eq {stack : List Nat}
    (tables : PageTables pgdNow k.mem stack) (va : Nat) :
    getMapping pgdNow va k = .ok (translation pgdNow k.mem va) k := by
  unfold getMapping
  rw [Outcome.bind_of_ok (readEntry_pde tables va)]
  by_cases missing : tableOf pgdNow k.mem (pgdIndex va) = 0
  · have zero : pteOf pgdNow k.mem va = 0 := by simp [pteOf, missing]
    rw [tableOf] at missing
    simp [missing, translation, zero]
  · obtain ⟨reached, address⟩ := slot_inDirectMap
      (tables.isFrame (pgdIndex_lt va) missing) (pteIndex_lt va)
    have entry : pteOf pgdNow k.mem va =
        load32 k.mem (tableOf pgdNow k.mem (pgdIndex va)
          + 4 * pteIndex va) := by
      simp [pteOf, missing]
    rw [tableOf] at missing reached address
    rw [if_neg missing]
    rw [Outcome.bind_of_ok (readEntry_ok reached), address]
    rw [tableOf] at entry
    rw [translation, entry]
    split <;> simp_all

end Routines

end MiniOS
