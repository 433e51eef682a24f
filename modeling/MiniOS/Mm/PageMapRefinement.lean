import Mathlib.Data.Finset.Card
import MiniOS.Lib.AssignmentLog
import MiniOS.Mm.PageMap

/-!
# `map` and `unmap` refine updates of a finite map

The abstract side is a partial map from page numbers to frames under a log of
assignments.  One call changes the translation of one page; a run of calls is
then described by the last call for each page.  The run comes to its end when
the stack has a frame for each table that is asked for and not there.
-/

namespace MiniOS

open ByteMemory

/-- A call of `map` or `unmap` with its arguments. -/
inductive VmmCall where
  | map (va pa flags : Nat)
  | unmap (va : Nat)

namespace VmmCall

/-- The arguments are `uint32_t`; `map` is called with `PAGE_PRESENT` and with
flags below the frame bits. -/
def Valid : VmmCall → Prop
  | .map va pa flags =>
      va < 4294967296 ∧ pa < 4294967296 ∧ flags < pageSize ∧
        flags &&& pagePresent = pagePresent
  | .unmap va => va < 4294967296

def entry : VmmCall → Nat × Option Nat
  | .map va pa _ => (va / pageSize, some (roundDown pa pageSize))
  | .unmap va => (va / pageSize, none)

/-- The entry of the directory whose table the call needs. -/
def needs : VmmCall → Option Nat
  | .map va _ _ => some (pgdIndex va)
  | .unmap _ => none

def run (pgdNow : Nat) : VmmCall → KernelM Unit
  | .map va pa flags => MiniOS.map pgdNow va pa flags
  | .unmap va => MiniOS.unmap pgdNow va

def runAll (pgdNow : Nat) : List VmmCall → KernelM Unit
  | [] => pure ()
  | call :: calls => do
      call.run pgdNow
      runAll pgdNow calls

end VmmCall

/-- The tables that calls need and that are not there at their start. -/
def missingTables (pgdNow : Nat) (mem : Mem) (calls : List VmmCall) :
    Finset Nat :=
  (calls.filterMap VmmCall.needs).toFinset.filter fun i =>
    tableOf pgdNow mem i = 0

variable {pgdNow : Nat} {k : Kernel}

def pageMap (pgdNow : Nat) (mem : Mem) (page : Nat) : Option Nat :=
  translation pgdNow mem (page * pageSize)

theorem translation_eq_pageMap (pgdNow : Nat) (mem : Mem) (va : Nat) :
    translation pgdNow mem va = pageMap pgdNow mem (va / pageSize) := by
  rw [pageMap, translation, translation, pteOf_page]

/-- A table entry that serves exactly the page of `va` was written. -/
structure EntryWritten (pgdNow va value : Nat) (k k' : Kernel) : Prop where
  tables : PageTables pgdNow k'.mem k'.pmmStack
  pte : ∀ other < 4294967296, pteOf pgdNow k'.mem other =
    if other / pageSize = va / pageSize then value
    else pteOf pgdNow k.mem other

theorem EntryWritten.of_store (k : Kernel) (value : Nat)
    (tables : PageTables pgdNow k.mem k.pmmStack) {va : Nat}
    (vaSmall : va < 4294967296) (valueSmall : value < 4294967296)
    (present : tableOf pgdNow k.mem (pgdIndex va) ≠ 0) :
    EntryWritten pgdNow va value k { k with
      mem := store32 k.mem
        (tableOf pgdNow k.mem (pgdIndex va) + 4 * pteIndex va) value } where
  tables := tables.store_table value (pgdIndex_lt va) (pteIndex_lt va) present
  pte := by
    intro other otherSmall
    rw [tables.pteOf_store_table value other valueSmall present]
    simp only [samePage_iff otherSmall vaSmall]

theorem entry_small {pa flags : Nat} (paSmall : pa < 4294967296)
    (flagsSmall : flags < pageSize) :
    roundDown pa pageSize ||| flags = roundDown pa pageSize + flags ∧
      roundDown pa pageSize + flags < 4294967296 := by
  have aligned := roundDown_mod pa pageSize
  have below := roundDown_le pa pageSize
  refine ⟨or_flags aligned flagsSmall, ?_⟩
  simp only [pageSize] at *
  omega

/-- A call of `map` either stops for lack of a table frame or writes the entry
of its page. -/
theorem map_step (tables : PageTables pgdNow k.mem k.pmmStack)
    {va pa flags : Nat} (vaSmall : va < 4294967296)
    (paSmall : pa < 4294967296) (flagsSmall : flags < pageSize) :
    (map pgdNow va pa flags k = .error (.panic "out of memory") k ∧
        k.pmmStack = []) ∨
      ∃ k', map pgdNow va pa flags k = .ok () k' ∧
        EntryWritten pgdNow va (roundDown pa pageSize + flags) k k' := by
  obtain ⟨orEq, valueSmall⟩ := entry_small paSmall flagsSmall
  by_cases missing : tableOf pgdNow k.mem (pgdIndex va) = 0
  · cases stack : k.pmmStack with
    | nil => exact .inl ⟨map_exhausted tables missing stack, rfl⟩
    | cons frame rest =>
        right
        have vaBound : pgdIndex va < pgdSize := pgdIndex_lt va
        have isFrame : IsFrame frame :=
          tables.stack_frame frame (by simp [stack])
        have tables' : PageTables pgdNow k.mem (frame :: rest) := by
          rwa [stack] at tables
        have added := tables'.add vaBound missing
        have newTable : tableOf pgdNow
            (addTable pgdNow k.mem (pgdIndex va) frame) (pgdIndex va) =
              frame := by
          rw [PageTables.tableOf_addTable tables' _ _ vaBound, if_pos rfl]
        let grown : Kernel := { k with
          mem := addTable pgdNow k.mem (pgdIndex va) frame
          pmmStack := rest }
        have written := EntryWritten.of_store grown
          (roundDown pa pageSize + flags) added vaSmall valueSmall
          (by rw [newTable]; exact Nat.ne_of_gt isFrame.2.1)
        refine ⟨_, map_missing tables missing stack, ?_, ?_⟩
        · simpa only [grown, newTable, orEq] using written.tables
        · intro other otherSmall
          have pte := written.pte other otherSmall
          simp only [grown, newTable] at pte
          rw [orEq, pte, PageTables.pteOf_addTable tables' vaBound missing]
  · right
    refine ⟨_, map_present tables missing, ?_⟩
    rw [orEq]
    exact .of_store k _ tables vaSmall valueSmall missing

/-- What `map` does to the directory: a missing table is added to it, and takes
a frame. -/
structure TableInPlace (pgdNow va : Nat) (k k' : Kernel) : Prop where
  heapMax : k'.heapMax = k.heapMax
  stack : k.pmmStack.length = k'.pmmStack.length +
    if tableOf pgdNow k.mem (pgdIndex va) = 0 then 1 else 0
  present : tableOf pgdNow k'.mem (pgdIndex va) ≠ 0
  pde : ∀ i < pgdSize, pdeOf pgdNow k'.mem i =
    if i = pgdIndex va ∧ tableOf pgdNow k.mem i = 0
    then tableOf pgdNow k'.mem i + 3 else pdeOf pgdNow k.mem i

theorem map_tables (tables : PageTables pgdNow k.mem k.pmmStack)
    {va pa flags : Nat} {k' : Kernel}
    (returned : map pgdNow va pa flags k = .ok () k') :
    TableInPlace pgdNow va k k' := by
  have bound : pgdIndex va < pgdSize := pgdIndex_lt va
  have slotBound : pteIndex va < pteSize := pteIndex_lt va
  by_cases missing : tableOf pgdNow k.mem (pgdIndex va) = 0
  · cases stack : k.pmmStack with
    | nil =>
        rw [map_exhausted tables missing stack] at returned
        cases returned
    | cons frame rest =>
        rw [map_missing tables missing stack] at returned
        cases returned
        have tables' : PageTables pgdNow k.mem (frame :: rest) :=
          stack ▸ tables
        have isFrame : IsFrame frame := tables'.stack_frame frame (by simp)
        have pdeAdded := PageTables.pdeOf_addTable tables' (pgdIndex va)
        have tableAdded := PageTables.tableOf_addTable tables' (pgdIndex va)
        have inPlace : tableOf pgdNow (addTable pgdNow k.mem (pgdIndex va)
            frame) (pgdIndex va) = frame := by
          rw [tableAdded _ bound, if_pos rfl]
        have pdeEq := (tables'.add bound missing).pdeOf_store_table
          (roundDown pa pageSize ||| flags) bound slotBound
          (by rw [inPlace]; exact Nat.ne_of_gt isFrame.2.1)
        rw [inPlace] at pdeEq
        refine ⟨rfl, ?_, ?_, ?_⟩
        · simp [stack, missing]
        · simp only
          rw [tableOf_congr (pdeEq _ bound), inPlace]
          exact Nat.ne_of_gt isFrame.2.1
        · intro i iBound
          simp only
          rw [tableOf_congr (pdeEq i iBound), tableAdded i iBound,
            pdeEq i iBound, pdeAdded i iBound]
          by_cases same : i = pgdIndex va
          · simp [same, missing]
          · simp [same]
  · rw [map_present tables missing] at returned
    cases returned
    have pdeEq := tables.pdeOf_store_table (roundDown pa pageSize ||| flags)
      bound slotBound missing
    refine ⟨rfl, by simp [missing], ?_, ?_⟩
    · rw [tableOf_congr (pdeEq _ bound)]
      exact missing
    · intro i iBound
      rw [pdeEq i iBound, if_neg]
      rintro ⟨rfl, absent⟩
      exact missing absent

theorem unmap_step (tables : PageTables pgdNow k.mem k.pmmStack)
    {va : Nat} (vaSmall : va < 4294967296) :
    ∃ k', unmap pgdNow va k = .ok () k' ∧
      EntryWritten pgdNow va 0 k k' := by
  by_cases missing : tableOf pgdNow k.mem (pgdIndex va) = 0
  · refine ⟨k, unmap_missing tables missing, tables, ?_⟩
    intro other otherSmall
    split
    · rename_i same
      have sameIndex := (samePage_iff otherSmall vaSmall).mpr same
      simp [pteOf, sameIndex.1, missing]
    · rfl
  · exact ⟨_, unmap_present tables missing,
      .of_store k 0 tables vaSmall (by decide) missing⟩

theorem EntryWritten.pageMap_eq {va value : Nat} {k' : Kernel}
    (written : EntryWritten pgdNow va value k k') {page : Nat}
    (small : page < 1048576) :
    pageMap pgdNow k'.mem page =
      Function.update (pageMap pgdNow k.mem) (va / pageSize)
        (if value = 0 then none else some (roundDown value pageSize))
        page := by
  have pte := written.pte (page * pageSize)
    (by simp only [pageSize]; omega)
  rw [Nat.mul_div_cancel _ (by decide)] at pte
  rw [pageMap, translation, pte]
  by_cases same : page = va / pageSize
  · subst page
    simp
  · simp only [same, if_false, Function.update_of_ne same, pageMap,
      translation]

/-! ## Frames for the missing tables -/

theorem mem_missingTables {mem : Mem} {calls : List VmmCall} {i : Nat} :
    i ∈ missingTables pgdNow mem calls ↔
      (∃ call ∈ calls, call.needs = some i) ∧ tableOf pgdNow mem i = 0 := by
  simp [missingTables]

theorem VmmCall.needs_lt {call : VmmCall} {i : Nat}
    (needs : call.needs = some i) : i < pgdSize := by
  cases call with
  | map va pa flags => exact Option.some.inj needs ▸ pgdIndex_lt va
  | unmap va => cases needs

/-- A returned call takes a frame for each table it had to add. -/
structure TablesAdded (pgdNow : Nat) (call : VmmCall) (k k' : Kernel) :
    Prop where
  stack : k.pmmStack.length =
    k'.pmmStack.length + (missingTables pgdNow k.mem [call]).card
  missing : ∀ i < pgdSize, tableOf pgdNow k'.mem i = 0 ↔
    tableOf pgdNow k.mem i = 0 ∧ call.needs ≠ some i

theorem missingTables_map (mem : Mem) (va pa flags : Nat) :
    missingTables pgdNow mem [.map va pa flags] =
      if tableOf pgdNow mem (pgdIndex va) = 0 then {pgdIndex va} else ∅ := by
  rw [missingTables, List.filterMap_cons, VmmCall.needs]
  exact Finset.filter_singleton _ _

theorem map_tablesAdded (tables : PageTables pgdNow k.mem k.pmmStack)
    {va pa flags : Nat} {k' : Kernel}
    (returned : map pgdNow va pa flags k = .ok () k') :
    TablesAdded pgdNow (.map va pa flags) k k' := by
  have inPlace := map_tables tables returned
  constructor
  · rw [inPlace.stack, missingTables_map]
    split <;> rfl
  · intro i bound
    have needed : VmmCall.needs (.map va pa flags) ≠ some i ↔
        i ≠ pgdIndex va := by
      rw [VmmCall.needs, Ne, Option.some.injEq, eq_comm]
    rw [needed]
    by_cases same : i = pgdIndex va
    · subst same
      simp [inPlace.present]
    · have pde := inPlace.pde i bound
      rw [if_neg fun both => same both.1] at pde
      simp [tableOf_congr pde, same]

theorem unmap_tablesAdded (tables : PageTables pgdNow k.mem k.pmmStack)
    {va : Nat} {k' : Kernel} (returned : unmap pgdNow va k = .ok () k') :
    TablesAdded pgdNow (.unmap va) k k' := by
  have none : missingTables pgdNow k.mem [.unmap va] = ∅ := rfl
  by_cases missing : tableOf pgdNow k.mem (pgdIndex va) = 0
  · rw [unmap_missing tables missing] at returned
    cases returned
    exact ⟨by rw [none]; rfl, fun i _ => by simp [VmmCall.needs]⟩
  · rw [unmap_present tables missing] at returned
    cases returned
    refine ⟨by rw [none]; rfl, fun i bound => ?_⟩
    rw [tables.tableOf_store_table 0 (pgdIndex_lt va) (pteIndex_lt va) missing
      i bound]
    simp [VmmCall.needs]

/-- What is missing before a call is what the call adds and what is missing
behind it. -/
theorem TablesAdded.missing_card {call : VmmCall} {calls : List VmmCall}
    {k' : Kernel} (added : TablesAdded pgdNow call k k') :
    (missingTables pgdNow k.mem (call :: calls)).card =
      (missingTables pgdNow k.mem [call]).card +
        (missingTables pgdNow k'.mem calls).card := by
  have later : ∀ i, i ∈ missingTables pgdNow k'.mem calls ↔
      (∃ other ∈ calls, other.needs = some i) ∧
        tableOf pgdNow k.mem i = 0 ∧ call.needs ≠ some i := by
    intro i
    rw [mem_missingTables]
    refine and_congr_right ?_
    rintro ⟨other, _, needs⟩
    exact added.missing i (VmmCall.needs_lt needs)
  rw [← Finset.card_union_of_disjoint]
  · congr 1
    ext i
    rw [Finset.mem_union, later, mem_missingTables, mem_missingTables]
    by_cases here : call.needs = some i
    · simp [here]
    · simp [here]
  · rw [Finset.disjoint_left]
    intro i here there
    obtain ⟨⟨other, member, needs⟩, _⟩ := mem_missingTables.mp here
    rw [List.mem_singleton.mp member] at needs
    exact ((later i).mp there).2.2 needs

/-! ## Runs -/

/-- One call: it stops for lack of a frame, or it makes its assignment. -/
theorem VmmCall.run_step (tables : PageTables pgdNow k.mem k.pmmStack)
    {call : VmmCall} (valid : call.Valid) :
    (call.run pgdNow k = .error (.panic "out of memory") k ∧
        k.pmmStack = [] ∧ (missingTables pgdNow k.mem [call]).Nonempty) ∨
      ∃ k', call.run pgdNow k = .ok () k' ∧
        PageTables pgdNow k'.mem k'.pmmStack ∧
        TablesAdded pgdNow call k k' ∧
        ∀ page < 1048576, pageMap pgdNow k'.mem page =
          Function.update (pageMap pgdNow k.mem) call.entry.1 call.entry.2
            page := by
  cases call with
  | map va pa flags =>
      obtain ⟨vaSmall, paSmall, flagsSmall, present⟩ := valid
      have odd : flags % 2 = 1 := by
        rw [← Nat.and_one_is_mod]
        exact present
      rcases map_step tables vaSmall paSmall flagsSmall with
        ⟨stopped, empty⟩ | ⟨k', returned, written⟩
      · refine .inl ⟨stopped, empty, ?_⟩
        by_cases missing : tableOf pgdNow k.mem (pgdIndex va) = 0
        · rw [missingTables_map, if_pos missing]
          exact Finset.singleton_nonempty _
        · rw [map_present tables missing] at stopped
          cases stopped
      · refine .inr ⟨k', returned, written.tables,
          map_tablesAdded tables returned, ?_⟩
        intro page small
        rw [written.pageMap_eq small, if_neg (by omega),
          roundDown_add_flags (roundDown_mod pa pageSize) flagsSmall]
        rfl
  | unmap va =>
      obtain ⟨k', returned, written⟩ := unmap_step tables valid
      refine .inr ⟨k', returned, written.tables,
        unmap_tablesAdded tables returned, ?_⟩
      intro page small
      rw [written.pageMap_eq small, if_pos rfl]
      rfl

/-- The simulation along a run of calls, which needs one frame for each missing
table. -/
theorem VmmCall.runAll_refines (calls : List VmmCall)
    (tables : PageTables pgdNow k.mem k.pmmStack)
    (valid : ∀ call ∈ calls, call.Valid)
    (enough : (missingTables pgdNow k.mem calls).card ≤ k.pmmStack.length) :
    ∃ k', VmmCall.runAll pgdNow calls k = .ok () k' ∧
      PageTables pgdNow k'.mem k'.pmmStack ∧
      ∀ page < 1048576, pageMap pgdNow k'.mem page =
        AssignmentLog.after (pageMap pgdNow k.mem) (calls.map VmmCall.entry)
          page := by
  induction calls generalizing k with
  | nil => exact ⟨k, rfl, tables, by simp⟩
  | cons call calls induction =>
      rcases VmmCall.run_step tables (valid call (by simp)) with
        ⟨_, empty, needed⟩ | ⟨k', returned, tables', added, update⟩
      · -- the call needs a table that the stack has no frame for
        have subset : missingTables pgdNow k.mem [call] ⊆
            missingTables pgdNow k.mem (call :: calls) := by
          intro i
          simp only [mem_missingTables]
          rintro ⟨⟨other, member, needs⟩, missing⟩
          exact ⟨⟨other, by simp_all, needs⟩, missing⟩
        have positive := (needed.mono subset).card_pos
        rw [empty, List.length_nil] at enough
        omega
      · have card : (missingTables pgdNow k.mem (call :: calls)).card = _ :=
          added.missing_card
        have stack := added.stack
        obtain ⟨last, returned', tables'', refines⟩ := induction tables'
          (fun other member => valid other (by simp [member])) (by omega)
        refine ⟨last, ?_, tables'', ?_⟩
        · rw [VmmCall.runAll, Outcome.bind_of_ok returned, returned']
        · intro page small
          rw [refines page small, List.map_cons, AssignmentLog.after_cons]
          exact AssignmentLog.after_congr (update page small) _

/-- Where the stack has a frame for each missing table that `map` needs, every
run of `map` and `unmap` returns, and `get_mapping` then answers as the last
call for the page says, and as at the start for a page no call touched. -/
theorem getMapping_after_calls (calls : List VmmCall)
    (tables : PageTables pgdNow k.mem k.pmmStack)
    (valid : ∀ call ∈ calls, call.Valid)
    (enough : (missingTables pgdNow k.mem calls).card ≤ k.pmmStack.length) :
    ∃ (start : Nat → Option Nat) (k' : Kernel),
      (∀ va < 4294967296,
        getMapping pgdNow va k = .ok (start (va / pageSize)) k) ∧
      VmmCall.runAll pgdNow calls k = .ok () k' ∧
      ∀ va < 4294967296,
        getMapping pgdNow va k' =
          .ok (AssignmentLog.after start (calls.map VmmCall.entry)
            (va / pageSize)) k' := by
  obtain ⟨k', returned, tables', refines⟩ :=
    VmmCall.runAll_refines calls tables valid enough
  refine ⟨pageMap pgdNow k.mem, k', ?_, returned, ?_⟩
  · intro va _small
    rw [getMapping_eq tables, translation_eq_pageMap]
  · intro va small
    rw [getMapping_eq tables', translation_eq_pageMap, refines]
    simp only [pageSize]
    omega

/-- A directory without tables at 1 MB and two free frames. -/
def emptyDirectory : Kernel :=
  { mem := fun _ => 0
    pmmStack := [0x200000, 0x300000]
    phyPageCount := 2
    heapFirst := 0
    heapMax := heapStart }

theorem emptyDirectory_tables :
    PageTables 0xC0100000 emptyDirectory.mem emptyDirectory.pmmStack := by
  have absent : ∀ i, pdeOf 0xC0100000 emptyDirectory.mem i = 0 := fun _ => rfl
  constructor
  · decide
  · exact fun i _ present => absurd (absent i) present
  · exact fun i _ j _ present => absurd (absent i) present
  · simp only [emptyDirectory, IsFrame]
    decide
  · decide
  · exact fun i _ present => absurd (absent i) present
  · exact fun i _ present => absurd (absent i) present
  · simp only [emptyDirectory, Apart]
    decide

/-- A page is mapped, a page in another table is mapped, the first is unmapped
through another of its addresses. -/
def sampleCalls : List VmmCall :=
  [.map 0xE0000123 0x5678 3, .map 0xE0400000 0x7000 7, .unmap 0xE0000FFF]

/-- The calls return and leave the second page mapped, the first not. -/
theorem getMapping_after_sampleCalls :
    ∃ k', VmmCall.runAll 0xC0100000 sampleCalls emptyDirectory = .ok () k' ∧
      getMapping 0xC0100000 0xE0400ABC k' = .ok (some 0x7000) k' ∧
      getMapping 0xC0100000 0xE0000123 k' = .ok none k' := by
  have missing : (missingTables 0xC0100000 emptyDirectory.mem
      sampleCalls).card ≤ emptyDirectory.pmmStack.length := by
    decide
  obtain ⟨start, k', _, returned, answers⟩ :=
    getMapping_after_calls sampleCalls emptyDirectory_tables
      (by simp [sampleCalls, VmmCall.Valid, pageSize]) missing
  refine ⟨k', returned, ?_, ?_⟩
  · rw [answers 0xE0400ABC (by decide)]
    rfl
  · rw [answers 0xE0000123 (by decide)]
    rfl

end MiniOS
