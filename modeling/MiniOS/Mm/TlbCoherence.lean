import MiniOS.Lib.Tlb
import MiniOS.Mm.PageMapRefinement

/-!
# The translation look-aside buffer

`map` and `unmap` store by store, with the `invlpg` at their ends.  The
processor may walk the tables for any page between two stores; while the bytes
of a new table are not all cleared it must not do so for the pages of this
table, which nothing has mapped yet.  Then no translation that is cached when a
call returns differs from the tables.
-/

namespace MiniOS

open ByteMemory Tlb

/-- The directory entry and the table entry of a page, if both are present. -/
def walkEntries (pgdNow : Nat) (mem : Mem) : Walk Nat (Nat × Nat) := fun page =>
  let va := page * pageSize
  let pde := load32 mem (pgdNow - pageOffset + 4 * pgdIndex va)
  if page < 1048576 ∧ pde % 2 = 1 then
    let pte := load32 mem (roundDown pde pageSize + 4 * pteIndex va)
    if pte % 2 = 1 then some (pde, pte) else none
  else none

abbrev PageCache := Cache Nat (Nat × Nat)

/-- The pages of one table. -/
def pagesOf (index : Nat) : Set Nat :=
  {page | pgdIndex (page * pageSize) = index}

/-! ## Calls, store by store -/

inductive CallStage where
  | start
  /-- The frame is in the directory, and its first bytes are cleared. -/
  | clearing (frame cleared : Nat)
  /-- The table entry is stored. -/
  | stored

/-- A call of `map` or `unmap` on its way; `before` is the state in which it
was called. -/
structure ActiveCall where
  call : VmmCall
  before : Kernel
  stage : CallStage

def VmmCall.va : VmmCall → Nat
  | .map va _ _ => va
  | .unmap va => va

def VmmCall.value : VmmCall → Nat
  | .map _ pa flags => roundDown pa pageSize ||| flags
  | .unmap _ => 0

/-- The pages that must not be walked. -/
def barred : Option ActiveCall → Set Nat
  | some ⟨call, _, .clearing _ _⟩ => pagesOf (pgdIndex call.va)
  | _ => ∅

/-- One step of a call. -/
inductive CallStep (pgdNow : Nat) (k : Kernel) (cache : PageCache) :
    ActiveCall → Kernel → PageCache → Option ActiveCall → Prop
  /-- The table is there. -/
  | entry {call : VmmCall} {before : Kernel}
      (present : tableOf pgdNow k.mem (pgdIndex call.va) ≠ 0) :
      CallStep pgdNow k cache ⟨call, before, .start⟩
        { k with
          mem := store32 k.mem
            (tableOf pgdNow k.mem (pgdIndex call.va) + 4 * pteIndex call.va)
            call.value }
        cache (some ⟨call, before, .stored⟩)
  /-- `map` puts a new frame into the directory. -/
  | table {va pa flags frame : Nat} {before : Kernel} {rest : List Nat}
      (missing : tableOf pgdNow k.mem (pgdIndex va) = 0)
      (stack : k.pmmStack = frame :: rest) :
      CallStep pgdNow k cache ⟨.map va pa flags, before, .start⟩
        { k with
          mem := store32 k.mem (pgdNow - pageOffset + 4 * pgdIndex va)
            (frame ||| pagePresent ||| pageWrite)
          pmmStack := rest }
        cache (some ⟨.map va pa flags, before, .clearing frame 0⟩)
  /-- `bzero` clears the next byte. -/
  | clear {call : VmmCall} {frame cleared : Nat} {before : Kernel}
      (more : cleared < pageSize) :
      CallStep pgdNow k cache ⟨call, before, .clearing frame cleared⟩
        { k with mem := store8 k.mem (frame + cleared) 0 }
        cache (some ⟨call, before, .clearing frame (cleared + 1)⟩)
  /-- The entry goes into the new table. -/
  | newEntry {call : VmmCall} {frame : Nat} {before : Kernel} :
      CallStep pgdNow k cache ⟨call, before, .clearing frame pageSize⟩
        { k with
          mem := store32 k.mem (frame + 4 * pteIndex call.va) call.value }
        cache (some ⟨call, before, .stored⟩)
  /-- `unmap` without a table returns. -/
  | nothing {va : Nat} {before : Kernel}
      (missing : tableOf pgdNow k.mem (pgdIndex va) = 0) :
      CallStep pgdNow k cache ⟨.unmap va, before, .start⟩ k cache none
  | invlpg {call : VmmCall} {before : Kernel} :
      CallStep pgdNow k cache ⟨call, before, .stored⟩ k
        (flush (call.va / pageSize) cache) none

/-- The states after `switch_pgd`, with the translations that are cached.
Between calls the code leaves the entries alone; the page stack may change. -/
inductive TlbRun (pgdNow : Nat) :
    Kernel → PageCache → Option ActiveCall → Prop
  | start {k : Kernel} (tables : PageTables pgdNow k.mem k.pmmStack) :
      TlbRun pgdNow k ∅ none
  | fill {k : Kernel} {cache cache' : PageCache} {active : Option ActiveCall}
      (run : TlbRun pgdNow k cache active)
      (refilled : Refilled (barred active) (walkEntries pgdNow k.mem) cache
        cache') :
      TlbRun pgdNow k cache' active
  | compute {k k' : Kernel} {cache : PageCache}
      (run : TlbRun pgdNow k cache none)
      (tables : PageTables pgdNow k'.mem k'.pmmStack)
      (pde : ∀ i < pgdSize, pdeOf pgdNow k'.mem i = pdeOf pgdNow k.mem i)
      (pte : ∀ va, pteOf pgdNow k'.mem va = pteOf pgdNow k.mem va) :
      TlbRun pgdNow k' cache none
  | call {k : Kernel} {cache : PageCache} {call : VmmCall}
      (run : TlbRun pgdNow k cache none) (valid : call.Valid) :
      TlbRun pgdNow k cache (some ⟨call, k, .start⟩)
  | step {k k' : Kernel} {cache cache' : PageCache} {active : ActiveCall}
      {active' : Option ActiveCall}
      (run : TlbRun pgdNow k cache (some active))
      (taken : CallStep pgdNow k cache active k' cache' active') :
      TlbRun pgdNow k' cache' active'

/-! ## Walks and entries -/

section Walks

variable {pgdNow : Nat} {mem mem' : Mem} {stack stack' : List Nat}
  {page : Nat}

theorem walkEntries_eq (tables : PageTables pgdNow mem stack)
    (small : page < 1048576) :
    walkEntries pgdNow mem page =
      if pdeOf pgdNow mem (pgdIndex (page * pageSize)) % 2 = 1 ∧
          pteOf pgdNow mem (page * pageSize) % 2 = 1 then
        some (pdeOf pgdNow mem (pgdIndex (page * pageSize)),
          pteOf pgdNow mem (page * pageSize))
      else none := by
  have bound : pgdIndex (page * pageSize) < pgdSize := pgdIndex_lt _
  change (if page < 1048576 ∧
      pdeOf pgdNow mem (pgdIndex (page * pageSize)) % 2 = 1 then
    if load32 mem (tableOf pgdNow mem (pgdIndex (page * pageSize)) +
        4 * pteIndex (page * pageSize)) % 2 = 1 then
      some (pdeOf pgdNow mem (pgdIndex (page * pageSize)),
        load32 mem (tableOf pgdNow mem (pgdIndex (page * pageSize)) +
          4 * pteIndex (page * pageSize)))
    else none else none) = _
  by_cases missing : tableOf pgdNow mem (pgdIndex (page * pageSize)) = 0
  · have absent := tables.pde_eq_zero bound missing
    simp [absent]
  · have entry : pteOf pgdNow mem (page * pageSize) =
        load32 mem (tableOf pgdNow mem (pgdIndex (page * pageSize)) +
          4 * pteIndex (page * pageSize)) := if_neg missing
    rw [entry]
    by_cases present : pdeOf pgdNow mem (pgdIndex (page * pageSize)) % 2 = 1
    · simp [small, present]
    · simp [present]

theorem walkEntries_congr (tables : PageTables pgdNow mem stack)
    (tables' : PageTables pgdNow mem' stack')
    (pde : ∀ i < pgdSize, i = pgdIndex (page * pageSize) →
      pdeOf pgdNow mem' i = pdeOf pgdNow mem i)
    (pte : pteOf pgdNow mem' (page * pageSize) =
      pteOf pgdNow mem (page * pageSize)) :
    walkEntries pgdNow mem' page = walkEntries pgdNow mem page := by
  by_cases small : page < 1048576
  · rw [walkEntries_eq tables small, walkEntries_eq tables' small, pte,
      pde _ (pgdIndex_lt _) rfl]
  · simp [walkEntries, small]

theorem walkEntries_missing (tables : PageTables pgdNow mem stack)
    {index : Nat} (missing : tableOf pgdNow mem index = 0) :
    ∀ page ∈ pagesOf index, walkEntries pgdNow mem page = none := by
  intro page inside
  have index_eq : pgdIndex (page * pageSize) = index := inside
  by_cases small : page < 1048576
  · rw [walkEntries_eq tables small, index_eq,
      tables.pde_eq_zero (index_eq ▸ pgdIndex_lt _) missing]
    rfl
  · simp [walkEntries, small]

theorem walkEntries_store (tables : PageTables pgdNow mem stack) {va : Nat}
    (vaSmall : va < 4294967296) {value : Nat} (valueSmall : value < 4294967296)
    (present : tableOf pgdNow mem (pgdIndex va) ≠ 0) :
    ∀ page, page ∉ ({va / pageSize} : Set Nat) →
      walkEntries pgdNow (store32 mem
        (tableOf pgdNow mem (pgdIndex va) + 4 * pteIndex va) value) page =
      walkEntries pgdNow mem page := by
  intro page other
  by_cases small : page < 1048576
  · have stored := tables.store_table value (pgdIndex_lt va) (pteIndex_lt va)
      present
    apply walkEntries_congr tables stored
    · intro i bound _
      exact tables.pdeOf_store_table value (pgdIndex_lt va) (pteIndex_lt va)
        present i bound
    · rw [tables.pteOf_store_table value _ valueSmall present, if_neg]
      rw [samePage_iff (by simp only [pageSize]; omega) vaSmall,
        Nat.mul_div_cancel _ (by decide)]
      exact other
  · simp [walkEntries, small]

end Walks

/-! ## A table that is being cleared -/

/-- The frame is in the directory, and `cleared` bytes of it are zero. -/
def halfTable (pgdNow : Nat) (mem : Mem) (index frame cleared : Nat) : Mem :=
  fill (store32 mem (pgdNow - pageOffset + 4 * index)
    (frame ||| pagePresent ||| pageWrite)) frame 0 cleared

section HalfTable

variable {pgdNow : Nat} {mem : Mem} {frame index cleared : Nat}
  {rest : List Nat}

theorem halfTable_succ (pgdNow : Nat) (mem : Mem) (index frame cleared : Nat) :
    store8 (halfTable pgdNow mem index frame cleared) (frame + cleared) 0 =
      halfTable pgdNow mem index frame (cleared + 1) := by
  funext x
  simp only [halfTable, store8, fill_apply]
  by_cases last : x = frame + cleared
  · rw [if_pos last, if_pos (by omega)]
  · rw [if_neg last]
    congr 1
    simp only [eq_iff_iff]
    omega

/-- Outside of the frame it is the table that it will be. -/
theorem halfTable_outside {x : Nat} (few : cleared ≤ pageSize)
    (outside : x < frame ∨ frame + pageSize ≤ x) :
    halfTable pgdNow mem index frame cleared x =
      addTable pgdNow mem index frame x := by
  rw [halfTable, addTable, fill_outside _ _ outside,
    fill_outside _ _ (by omega)]

variable (tables : PageTables pgdNow mem (frame :: rest))
variable (bound : index < pgdSize)
variable (missing : tableOf pgdNow mem index = 0)
variable (few : cleared ≤ pageSize)
include tables few

theorem pdeOf_halfTable : ∀ i < pgdSize,
    pdeOf pgdNow (halfTable pgdNow mem index frame cleared) i =
      pdeOf pgdNow (addTable pgdNow mem index frame) i := by
  intro i iBound
  have apart := tables.directory_stack frame (by simp)
  apply load32_congr
  intro x lower upper
  apply halfTable_outside few
  simp only [Apart, pageSize, pgdSize] at *
  omega

include bound

theorem pdeOf_halfTable_new :
    pdeOf pgdNow (halfTable pgdNow mem index frame cleared) index =
      frame + 3 := by
  rw [pdeOf_halfTable tables few _ bound,
    PageTables.pdeOf_addTable tables _ _ bound, if_pos rfl]

theorem tableOf_halfTable_new :
    tableOf pgdNow (halfTable pgdNow mem index frame cleared) index =
      frame := by
  rw [tableOf_congr (pdeOf_halfTable tables few _ bound),
    PageTables.tableOf_addTable tables _ _ bound, if_pos rfl]

include missing

theorem tables_halfTable :
    PageTables pgdNow (halfTable pgdNow mem index frame cleared) rest :=
  (tables.add bound missing).congr (pdeOf_halfTable tables few)

theorem walkEntries_halfTable : ∀ page, page ∉ pagesOf index →
    walkEntries pgdNow (halfTable pgdNow mem index frame cleared) page =
      walkEntries pgdNow mem page := by
  intro page other
  have different : pgdIndex (page * pageSize) ≠ index := other
  have vaBound : pgdIndex (page * pageSize) < pgdSize := pgdIndex_lt _
  have slotBound : pteIndex (page * pageSize) < pteSize := pteIndex_lt _
  have pdeAdded := PageTables.pdeOf_addTable tables index
  have added := tables.add bound missing
  apply walkEntries_congr tables (tables_halfTable tables bound missing few)
  · intro i iBound same
    rw [pdeOf_halfTable tables few i iBound, pdeAdded i iBound,
      if_neg (same ▸ different)]
  · rw [← PageTables.pteOf_addTable tables bound missing]
    have tableEq := tableOf_congr
      (pdeOf_halfTable tables few _ vaBound : pdeOf pgdNow
        (halfTable pgdNow mem index frame cleared) _ = _)
    simp only [pteOf, tableEq]
    split
    · rfl
    · rename_i present
      have tableFrame := added.isFrame vaBound present
      have apart : Apart (tableOf pgdNow (addTable pgdNow mem index frame)
          (pgdIndex (page * pageSize))) frame := by
        apply tableFrame.apart (tables.stack_frame frame (by simp))
        rw [PageTables.tableOf_addTable tables index _ vaBound,
          if_neg different] at present ⊢
        intro equality
        exact tables.table_stack _ vaBound (PageTables.pde_ne_zero present)
          (by simp [equality])
      apply load32_congr
      intro x lower upper
      apply halfTable_outside few
      simp only [Apart, pageSize, pteSize] at *
      omega

end HalfTable

/-! ## The invariant of a call -/

inductive TlbInvariant (pgdNow : Nat) (k : Kernel) (cache : PageCache) :
    Option ActiveCall → Prop
  | idle (tables : PageTables pgdNow k.mem k.pmmStack)
      (coherent : Coherent (walkEntries pgdNow k.mem) cache) :
      TlbInvariant pgdNow k cache none
  | start {call : VmmCall} (valid : call.Valid)
      (tables : PageTables pgdNow k.mem k.pmmStack)
      (coherent : Coherent (walkEntries pgdNow k.mem) cache) :
      TlbInvariant pgdNow k cache (some ⟨call, k, .start⟩)
  | clearing {va pa flags frame cleared : Nat} {before : Kernel}
      {rest : List Nat} (valid : (VmmCall.map va pa flags).Valid)
      (tables : PageTables pgdNow before.mem before.pmmStack)
      (missing : tableOf pgdNow before.mem (pgdIndex va) = 0)
      (stack : before.pmmStack = frame :: rest) (few : cleared ≤ pageSize)
      (state : k = { before with
        mem := halfTable pgdNow before.mem (pgdIndex va) frame cleared
        pmmStack := rest })
      (avoids : Avoids (pagesOf (pgdIndex va)) cache)
      (coherent : Coherent (walkEntries pgdNow before.mem) cache) :
      TlbInvariant pgdNow k cache
        (some ⟨.map va pa flags, before, .clearing frame cleared⟩)
  | stored {call : VmmCall} {before : Kernel}
      (returned : call.run pgdNow before = .ok () k)
      (tables : PageTables pgdNow k.mem k.pmmStack)
      (coherent : CoherentOff {call.va / pageSize} (walkEntries pgdNow k.mem)
        cache) :
      TlbInvariant pgdNow k cache (some ⟨call, before, .stored⟩)

theorem VmmCall.Valid.small {call : VmmCall} (valid : call.Valid) :
    call.va < 4294967296 ∧ call.value < 4294967296 := by
  cases call with
  | map va pa flags =>
      obtain ⟨vaSmall, paSmall, flagsSmall, _⟩ := valid
      obtain ⟨orEq, small⟩ := entry_small paSmall flagsSmall
      refine ⟨vaSmall, ?_⟩
      rw [VmmCall.value, orEq]
      exact small
  | unmap va => exact ⟨valid, Nat.zero_lt_succ _⟩

namespace TlbInvariant

variable {pgdNow : Nat} {k k' : Kernel} {cache cache' : PageCache}
  {active : Option ActiveCall}

theorem fill (invariant : TlbInvariant pgdNow k cache active)
    (refilled : Refilled (barred active) (walkEntries pgdNow k.mem) cache
      cache') : TlbInvariant pgdNow k cache' active := by
  cases invariant with
  | idle tables coherent => exact .idle tables (coherent.refill refilled)
  | start valid tables coherent =>
      exact .start valid tables (coherent.refill refilled)
  | clearing valid tables missing stack few state avoids coherent =>
      refine .clearing valid tables missing stack few state
        (avoids.refill refilled) ?_
      intro page entry member
      rcases refilled page entry member with old | ⟨outside, walked⟩
      · exact coherent page entry old
      · rw [state] at walked
        rwa [walkEntries_halfTable (stack ▸ tables) (pgdIndex_lt _) missing
          few page outside] at walked
  | stored returned tables coherent =>
      exact .stored returned tables (coherent.refill refilled)

theorem entry {call : VmmCall} (valid : call.Valid)
    (tables : PageTables pgdNow k.mem k.pmmStack)
    (coherent : Coherent (walkEntries pgdNow k.mem) cache)
    (present : tableOf pgdNow k.mem (pgdIndex call.va) ≠ 0) :
    TlbInvariant pgdNow { k with
        mem := store32 k.mem
          (tableOf pgdNow k.mem (pgdIndex call.va) + 4 * pteIndex call.va)
          call.value }
      cache (some ⟨call, k, .stored⟩) := by
  obtain ⟨vaSmall, valueSmall⟩ := valid.small
  refine .stored ?_ (tables.store_table call.value (pgdIndex_lt _)
    (pteIndex_lt _) present) ((coherent.off _).change
      (walkEntries_store tables vaSmall valueSmall present))
  cases call with
  | map va pa flags => exact map_present tables present
  | unmap va => exact unmap_present tables present

theorem newEntry {va pa flags frame : Nat} {before : Kernel} {rest : List Nat}
    (valid : (VmmCall.map va pa flags).Valid)
    (tables : PageTables pgdNow before.mem before.pmmStack)
    (missing : tableOf pgdNow before.mem (pgdIndex va) = 0)
    (stack : before.pmmStack = frame :: rest)
    (avoids : Avoids (pagesOf (pgdIndex va)) cache)
    (coherent : Coherent (walkEntries pgdNow before.mem) cache) :
    TlbInvariant pgdNow { before with
        mem := store32 (addTable pgdNow before.mem (pgdIndex va) frame)
          (frame + 4 * pteIndex va) (roundDown pa pageSize ||| flags)
        pmmStack := rest }
      cache (some ⟨.map va pa flags, before, .stored⟩) := by
  obtain ⟨vaSmall, valueSmall⟩ := valid.small
  simp only [VmmCall.va, VmmCall.value] at vaSmall valueSmall
  have tables' : PageTables pgdNow before.mem (frame :: rest) :=
    stack ▸ tables
  have bound : pgdIndex va < pgdSize := pgdIndex_lt va
  have added := tables'.add bound missing
  have frameOf : tableOf pgdNow
      (addTable pgdNow before.mem (pgdIndex va) frame) (pgdIndex va) =
        frame := by
    rw [PageTables.tableOf_addTable tables' _ _ bound, if_pos rfl]
  have positive := (tables'.stack_frame frame (by simp)).2.1
  have present : tableOf pgdNow
      (addTable pgdNow before.mem (pgdIndex va) frame) (pgdIndex va) ≠ 0 := by
    rw [frameOf]
    exact Nat.ne_of_gt positive
  have kept := walkEntries_store added vaSmall valueSmall present
  have tables'' := added.store_table (roundDown pa pageSize ||| flags) bound
    (pteIndex_lt va) present
  rw [frameOf] at kept tables''
  refine .stored (map_missing tables missing stack) tables'' ?_
  apply CoherentOff.change ?_ kept
  intro page found member _
  have outside := avoids page found member
  have half := walkEntries_halfTable tables' bound missing
    (Nat.le_refl pageSize) page outside
  exact half.trans (coherent page found member)

theorem step {call : ActiveCall} {active' : Option ActiveCall}
    (invariant : TlbInvariant pgdNow k cache (some call))
    (taken : CallStep pgdNow k cache call k' cache' active') :
    TlbInvariant pgdNow k' cache' active' := by
  cases taken with
  | entry present =>
      cases invariant with
      | start valid tables coherent => exact entry valid tables coherent present
  | table missing stack =>
      cases invariant with
      | start valid tables coherent =>
          refine .clearing valid tables missing stack (Nat.zero_le _) ?_
            (coherent.avoids (walkEntries_missing tables missing)) coherent
          rw [halfTable, ByteMemory.fill]
  | clear more =>
      cases invariant with
      | clearing valid tables missing stack few state avoids coherent =>
          refine .clearing valid tables missing stack more ?_ avoids coherent
          rw [state, ← halfTable_succ]
  | newEntry =>
      cases invariant with
      | clearing valid tables missing stack few state avoids coherent =>
          rw [state]
          exact newEntry valid tables missing stack avoids coherent
  | nothing missing =>
      cases invariant with
      | start valid tables coherent => exact .idle tables coherent
  | invlpg =>
      cases invariant with
      | stored returned tables coherent => exact .idle tables coherent.flush

end TlbInvariant

theorem TlbRun.invariant {pgdNow : Nat} {k : Kernel} {cache : PageCache}
    {active : Option ActiveCall} (run : TlbRun pgdNow k cache active) :
    TlbInvariant pgdNow k cache active := by
  induction run with
  | start tables => exact .idle tables (coherent_empty _)
  | fill run refilled induction => exact induction.fill refilled
  | compute run tables pde pte induction =>
      cases induction with
      | idle tables' coherent =>
          refine .idle tables (coherent.change ?_)
          intro page
          exact walkEntries_congr tables' tables
            (fun i bound _ => pde i bound) (pte _)
  | call run valid induction =>
      cases induction with
      | idle tables coherent => exact .start valid tables coherent
  | step run taken induction => exact induction.step taken

/-! ## What is cached -/

def changing : Option ActiveCall → Set Nat
  | some active => {active.call.va / pageSize}
  | none => ∅

namespace TlbInvariant

variable {pgdNow : Nat} {k : Kernel} {cache : PageCache}
  {active : Option ActiveCall}

theorem tables (invariant : TlbInvariant pgdNow k cache active) :
    PageTables pgdNow k.mem k.pmmStack := by
  cases invariant with
  | idle tables _ => exact tables
  | start _ tables _ => exact tables
  | clearing _ tables missing stack few state _ _ =>
      rw [state]
      exact tables_halfTable (stack ▸ tables) (pgdIndex_lt _) missing few
  | stored _ tables _ => exact tables

theorem coherent (invariant : TlbInvariant pgdNow k cache active) :
    CoherentOff (changing active) (walkEntries pgdNow k.mem) cache := by
  cases invariant with
  | idle _ coherent => exact coherent.off _
  | start _ _ coherent => exact coherent.off _
  | clearing _ tables missing stack few state avoids coherent =>
      intro page entry member _
      rw [state, walkEntries_halfTable (stack ▸ tables) (pgdIndex_lt _)
        missing few page (avoids page entry member)]
      exact coherent page entry member
  | stored _ _ coherent => exact coherent

end TlbInvariant

theorem walkEntries_translation {pgdNow : Nat} {k : Kernel} {va pde pte : Nat}
    (tables : PageTables pgdNow k.mem k.pmmStack)
    (walked : walkEntries pgdNow k.mem (va / pageSize) = some (pde, pte)) :
    mmuWalk k.mem (pgdNow - pageOffset) va =
        some (roundDown pte pageSize + va % pageSize) ∧
      getMapping pgdNow va k = .ok (some (roundDown pte pageSize)) k := by
  have small : va / pageSize < 1048576 := by
    by_contra large
    simp [walkEntries, large] at walked
  have index : pgdIndex (va / pageSize * pageSize) = pgdIndex va := by
    simp only [pgdIndex_eq, pageSize]
    omega
  rw [walkEntries_eq tables small, index, pteOf_page] at walked
  split at walked
  · rename_i present
    obtain ⟨pdePresent, ptePresent⟩ := present
    rw [Option.some.injEq, Prod.mk.injEq] at walked
    obtain ⟨-, rfl⟩ := walked
    have missing : tableOf pgdNow k.mem (pgdIndex va) ≠ 0 := by
      intro missing
      simp [pteOf, missing] at ptePresent
    have entry : load32 k.mem (tableOf pgdNow k.mem (pgdIndex va) +
        4 * pteIndex va) = pteOf pgdNow k.mem va := (if_neg missing).symm
    constructor
    · change (if pdeOf pgdNow k.mem (pgdIndex va) % 2 = 0 then none
        else if load32 k.mem (tableOf pgdNow k.mem (pgdIndex va) +
            4 * pteIndex va) % 2 = 0 then none
          else some (roundDown (load32 k.mem
            (tableOf pgdNow k.mem (pgdIndex va) + 4 * pteIndex va)) pageSize +
              va % pageSize)) = _
      rw [entry, if_neg (by omega), if_neg (by omega)]
    · rw [getMapping_eq tables, translation, if_neg (by omega)]
  · cases walked

/-- In every state of a run a translation that is cached, but for the page of
a call on its way, is the one of the tables; and a call returns with the state
that `map` or `unmap` computes. -/
theorem tlb_coherent {pgdNow : Nat} {k : Kernel} {cache : PageCache}
    {active : Option ActiveCall} (run : TlbRun pgdNow k cache active) :
    (∀ va pde pte, (va / pageSize, (pde, pte)) ∈ cache →
      va / pageSize ∉ changing active →
      mmuWalk k.mem (pgdNow - pageOffset) va =
          some (roundDown pte pageSize + va % pageSize) ∧
        getMapping pgdNow va k = .ok (some (roundDown pte pageSize)) k) ∧
    ∀ call before, active = some ⟨call, before, .stored⟩ →
      call.run pgdNow before = .ok () k := by
  have invariant := run.invariant
  refine ⟨?_, ?_⟩
  · intro va pde pte member other
    exact walkEntries_translation invariant.tables
      (invariant.coherent _ _ member other)
  · rintro call before rfl
    cases invariant with
    | stored returned _ _ => exact returned

/-- Page 0xE0000 is mapped, and the processor walks it. -/
theorem walked_sample :
    ∃ (k : Kernel) (pde : Nat),
      PageTables 0xC0100000 k.mem k.pmmStack ∧
      tableOf 0xC0100000 k.mem (pgdIndex 0xE0000000) ≠ 0 ∧
      walkEntries 0xC0100000 k.mem 0xE0000 = some (pde, 0x5003) := by
  rcases map_step emptyDirectory_tables
    (by decide : 0xE0000000 < 4294967296) (by decide : 0x5000 < 4294967296)
    (by decide : 3 < pageSize) with ⟨_, stack⟩ | ⟨k, returned, written⟩
  · cases stack
  · have place := map_tables emptyDirectory_tables returned
    have pte := written.pte 0xE0000000 (by decide)
    have pde := place.pde (pgdIndex 0xE0000000) (pgdIndex_lt _)
    rw [if_pos ⟨rfl, rfl⟩] at pde
    have aligned : tableOf 0xC0100000 k.mem (pgdIndex 0xE0000000) % 4096 = 0 :=
      roundDown_mod _ pageSize
    refine ⟨k, pdeOf 0xC0100000 k.mem (pgdIndex 0xE0000000), written.tables,
      place.present, ?_⟩
    rw [walkEntries_eq written.tables (by decide)]
    refine (if_pos ⟨?_, ?_⟩).trans (congrArg some (Prod.ext rfl pte))
    · change pdeOf 0xC0100000 k.mem (pgdIndex 0xE0000000) % 2 = 1
      omega
    · exact congrArg (· % 2) pte

/-- `map` of the next page, from the call to its `invlpg`, with the first page
cached. -/
theorem tlb_coherent_sample :
    ∃ (k k' : Kernel) (cache : PageCache) (pde : Nat),
      TlbRun 0xC0100000 k' cache none ∧
      map 0xC0100000 0xE0001000 0x7000 3 k = .ok () k' ∧
      (0xE0000123 / pageSize, (pde, 0x5003)) ∈ cache ∧
      mmuWalk k'.mem (0xC0100000 - pageOffset) 0xE0000123 =
        some (roundDown 0x5003 pageSize + 0xE0000123 % pageSize) := by
  obtain ⟨k, pde, tables, present, walked⟩ := walked_sample
  let call : VmmCall := .map 0xE0001000 0x7000 3
  have filled : TlbRun 0xC0100000 k {(0xE0000, (pde, 0x5003))} none := by
    refine (TlbRun.start tables).fill ?_
    rintro page entry ⟨⟩
    exact .inr ⟨id, walked⟩
  have valid : call.Valid := by simp [call, VmmCall.Valid, pageSize]
  have called := filled.call valid
  have sameTable : pgdIndex call.va = pgdIndex 0xE0000000 := by decide
  rw [← sameTable] at present
  have stored := called.step (.entry present)
  have flushed := stored.step .invlpg
  have member : (0xE0000123 / pageSize, (pde, 0x5003)) ∈
      flush (call.va / pageSize) {(0xE0000, (pde, 0x5003))} :=
    ⟨rfl, show 0xE0000123 / pageSize ≠ 0xE0001000 / pageSize by decide⟩
  refine ⟨k, _, _, pde, flushed, (tlb_coherent stored).2 _ _ rfl, member, ?_⟩
  exact ((tlb_coherent flushed).1 0xE0000123 pde 0x5003 member id).1

/-! ## Why pages of a new table must not be walked -/

/-- A page of a new table, other than the one that `map` is called for, whose
slot in the frame still holds a word that looks present. -/
structure Leftover (k : Kernel) (va frame page : Nat) : Prop where
  small : page < 1048576
  table : page ∈ pagesOf (pgdIndex va)
  other : page ≠ va / pageSize
  word : load32 k.mem (frame + 4 * pteIndex (page * pageSize)) % 2 = 1

theorem Leftover.walked {pgdNow va frame page : Nat} {k : Kernel}
    {rest : List Nat} (left : Leftover k va frame page)
    (tables : PageTables pgdNow k.mem (frame :: rest))
    (missing : tableOf pgdNow k.mem (pgdIndex va) = 0) :
    walkEntries pgdNow (halfTable pgdNow k.mem (pgdIndex va) frame 0) page =
      some (frame + 3, load32 k.mem
        (frame + 4 * pteIndex (page * pageSize))) := by
  have bound : pgdIndex va < pgdSize := pgdIndex_lt va
  have slotBound : pteIndex (page * pageSize) < pteSize := pteIndex_lt _
  have index : pgdIndex (page * pageSize) = pgdIndex va := left.table
  have isFrame := tables.stack_frame frame (by simp)
  have apart := tables.directory_stack frame (by simp)
  have uncleared : 0 ≤ pageSize := Nat.zero_le _
  -- the stores into the directory miss the frame
  have pte : pteOf pgdNow (halfTable pgdNow k.mem (pgdIndex va) frame 0)
      (page * pageSize) =
        load32 k.mem (frame + 4 * pteIndex (page * pageSize)) := by
    rw [pteOf, index, tableOf_halfTable_new tables bound uncleared,
      if_neg (Nat.ne_of_gt isFrame.2.1), halfTable, ByteMemory.fill]
    apply load32_store32_disjoint
    simp only [Apart, pageSize, pgdSize, pteSize] at *
    omega
  have aligned := isFrame.1
  rw [walkEntries_eq (tables_halfTable tables bound missing uncleared)
    left.small, index, pdeOf_halfTable_new tables bound uncleared, pte, if_pos]
  refine ⟨?_, left.word⟩
  simp only [pageSize] at aligned
  omega

/-- A walk between the store into the directory and `bzero` finds the word that
the frame held before, the `invlpg` of `map` does not flush it, and the tables
do not have it. -/
theorem tlb_leftover {pgdNow va pa flags frame page : Nat} {k : Kernel}
    {rest : List Nat} (tables : PageTables pgdNow k.mem k.pmmStack)
    (valid : (VmmCall.map va pa flags).Valid)
    (missing : tableOf pgdNow k.mem (pgdIndex va) = 0)
    (stack : k.pmmStack = frame :: rest) (left : Leftover k va frame page) :
    ∃ k',
      let old := load32 k.mem (frame + 4 * pteIndex (page * pageSize))
      walkEntries pgdNow (halfTable pgdNow k.mem (pgdIndex va) frame 0) page =
        some (frame + 3, old) ∧
      (page, (frame + 3, old)) ∈
        flush (va / pageSize) {(page, (frame + 3, old))} ∧
      map pgdNow va pa flags k = .ok () k' ∧
      walkEntries pgdNow k'.mem page = none := by
  obtain ⟨vaSmall, valueSmall⟩ := valid.small
  simp only [VmmCall.va, VmmCall.value] at vaSmall valueSmall
  have tables' : PageTables pgdNow k.mem (frame :: rest) := stack ▸ tables
  have bound : pgdIndex va < pgdSize := pgdIndex_lt va
  have index : pgdIndex (page * pageSize) = pgdIndex va := left.table
  have isFrame := tables'.stack_frame frame (by simp)
  have added := tables'.add bound missing
  have there : tableOf pgdNow (addTable pgdNow k.mem (pgdIndex va) frame)
      (pgdIndex va) = frame := by
    rw [PageTables.tableOf_addTable tables' _ _ bound, if_pos rfl]
  have last := walkEntries_store added vaSmall valueSmall
    (there.symm ▸ Nat.ne_of_gt isFrame.2.1) page left.other
  rw [there] at last
  refine ⟨_, left.walked tables' missing, ⟨rfl, left.other⟩,
    map_missing tables missing stack, ?_⟩
  refine last.trans ?_
  have empty : pteOf pgdNow k.mem (page * pageSize) = 0 := by
    rw [pteOf, index, if_pos missing]
  rw [walkEntries_eq added left.small,
    PageTables.pteOf_addTable tables' bound missing, empty]
  simp

/-- A frame with an odd word in its second slot. -/
def dirtyDirectory : Kernel :=
  { emptyDirectory with mem := fun x => if x = 0x200004 then 1 else 0 }

theorem dirtyDirectory_tables :
    PageTables 0xC0100000 dirtyDirectory.mem dirtyDirectory.pmmStack := by
  apply emptyDirectory_tables.congr
  intro i bound
  apply load32_congr
  intro x lower upper
  apply if_neg
  simp only [pageOffset, pgdSize, pageSize] at *
  omega

theorem tlb_leftover_dirty :
    ∃ k' : Kernel,
      walkEntries 0xC0100000 (halfTable 0xC0100000 dirtyDirectory.mem
        (pgdIndex 0xE0000000) 0x200000 0) 0xE0001 = some (0x200003, 1) ∧
      (0xE0001, (0x200003, 1)) ∈
        flush (0xE0000000 / pageSize) {(0xE0001, (0x200003, 1))} ∧
      map 0xC0100000 0xE0000000 0x5000 3 dirtyDirectory = .ok () k' ∧
      walkEntries 0xC0100000 k'.mem 0xE0001 = none := by
  have old : load32 dirtyDirectory.mem
      (0x200000 + 4 * pteIndex (0xE0001 * pageSize)) = 1 := by decide
  have valid : (VmmCall.map 0xE0000000 0x5000 3).Valid := by
    simp [VmmCall.Valid, pageSize]
  have odd : Leftover dirtyDirectory 0xE0000000 0x200000 0xE0001 :=
    ⟨by decide, rfl, by decide, by decide⟩
  have left := tlb_leftover dirtyDirectory_tables valid (by decide) rfl odd
  rwa [old] at left

end MiniOS
