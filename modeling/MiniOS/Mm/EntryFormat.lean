import MiniOS.Mm.DirectMap
import MiniOS.Mm.PageMapRefinement

/-!
# Page tables in the format of `vmm.h`

The processor goes by the flag bits of the entries at both levels.
`get_mapping` takes every table entry other than 0 for a mapping, and `map`
gives each new table to a directory entry that is present and writable, but
not the user's.
-/

namespace MiniOS

open ByteMemory

/-- `page_helper_t`, the bit-fields of an entry. -/
structure PageHelper where
  present : Nat
  rw : Nat
  user : Nat
  accessed : Nat
  dirty : Nat
  unused : Nat
  frame : Nat
  deriving DecidableEq, Repr

def pageHelper (entry : Nat) : PageHelper where
  present := entry % 2
  rw := entry / 2 % 2
  user := entry / 4 % 2
  accessed := entry / 8 % 2
  dirty := entry / 16 % 2
  unused := entry / 32 % 128
  frame := entry / 4096 % 1048576

/-- The two entries that a walk for `va` reads. -/
def walkedPde (mem : Mem) (cr3 va : Nat) : Nat :=
  load32 mem (cr3 + 4 * pgdIndex va)

def walkedPte (mem : Mem) (cr3 va : Nat) : Nat :=
  load32 mem (roundDown (walkedPde mem cr3 va) pageSize + 4 * pteIndex va)

/-- A right counts when its bit is set at both levels. -/
structure RightsAre (mem : Mem) (cr3 va flags : Nat) : Prop where
  write : ((pageHelper (walkedPde mem cr3 va)).rw = 1 ∧
    (pageHelper (walkedPte mem cr3 va)).rw = 1) ↔ flags &&& pageWrite ≠ 0
  user : ((pageHelper (walkedPde mem cr3 va)).user = 1 ∧
    (pageHelper (walkedPte mem cr3 va)).user = 1) ↔ flags &&& pageUser ≠ 0

/-- The present bit is set at both levels. -/
def WalkPresent (mem : Mem) (cr3 va : Nat) : Prop :=
  (pageHelper (walkedPde mem cr3 va)).present = 1 ∧
    (pageHelper (walkedPte mem cr3 va)).present = 1

/-- `get_mapping` succeeds where the processor finds both levels present. -/
def AgreesWithWalk (pgdNow : Nat) (k : Kernel) : Prop :=
  ∀ va < 4294967296, (∃ pa, getMapping pgdNow va k = .ok (some pa) k) ↔
    WalkPresent k.mem (pgdNow - pageOffset) va

namespace VmmCall

/-- The arguments are `uint32_t`, the flags some of `PAGE_PRESENT`,
`PAGE_WRITE` and `PAGE_USER`. -/
def Drawn : VmmCall → Prop
  | .map va pa flags => va < 4294967296 ∧ pa < 4294967296 ∧ flags < 8
  | .unmap va => va < 4294967296

/-- After a call of `map` with `PAGE_PRESENT` the rights are its flags. -/
def RightsTaken (pgdNow : Nat) (k : Kernel) : VmmCall → Prop
  | .map va _ flags => flags &&& pagePresent ≠ 0 →
      RightsAre k.mem (pgdNow - pageOffset) va flags
  | .unmap _ => True

/-- A page that is present is not for the user, and one that is not present
gets the entry 0. -/
def FollowsFormat : VmmCall → Prop
  | .map _ pa flags =>
      if flags &&& pagePresent ≠ 0 then flags &&& pageUser = 0
      else roundDown pa pageSize = 0 ∧ flags = 0
  | .unmap _ => True

instance : DecidablePred FollowsFormat
  | .map _ pa flags => inferInstanceAs (Decidable
      (if flags &&& pagePresent ≠ 0 then flags &&& pageUser = 0
        else roundDown pa pageSize = 0 ∧ flags = 0))
  | .unmap _ => instDecidableTrue

end VmmCall

/-- In every state of a run `get_mapping` and the processor agree, and every
call of `map` has the rights that it asked for. -/
def FormatKept (pgdNow : Nat) : List VmmCall → Kernel → Prop
  | [], k => AgreesWithWalk pgdNow k
  | call :: calls, k => AgreesWithWalk pgdNow k ∧
      ∀ k', call.run pgdNow k = .ok () k' →
        call.RightsTaken pgdNow k' ∧ FormatKept pgdNow calls k'

/-- A directory as `map` and `init_vmm` make it: tables are present and
writable. -/
structure TablesWritable (pgdNow : Nat) (k : Kernel) : Prop where
  tables : PageTables pgdNow k.mem k.pmmStack
  pde : ∀ i < pgdSize, pdeOf pgdNow k.mem i ≠ 0 →
    pdeOf pgdNow k.mem i = tableOf pgdNow k.mem i + 3

section Walk

variable {pgdNow va : Nat} {k : Kernel}

theorem TablesWritable.pde_walked (state : TablesWritable pgdNow k)
    (present : tableOf pgdNow k.mem (pgdIndex va) ≠ 0) :
    walkedPde k.mem (pgdNow - pageOffset) va =
        tableOf pgdNow k.mem (pgdIndex va) + 3 ∧
      walkedPte k.mem (pgdNow - pageOffset) va = pteOf pgdNow k.mem va := by
  have isTable := state.pde _ (pgdIndex_lt va)
    (PageTables.pde_ne_zero present)
  refine ⟨isTable, ?_⟩
  rw [pteOf, if_neg present]
  rfl

/-- The table entry decides, since the directory entry of a table is present. -/
theorem TablesWritable.walkPresent_iff (state : TablesWritable pgdNow k) :
    WalkPresent k.mem (pgdNow - pageOffset) va ↔
      pteOf pgdNow k.mem va % 2 = 1 := by
  have bound : pgdIndex va < pgdSize := pgdIndex_lt va
  unfold WalkPresent pageHelper
  by_cases missing : tableOf pgdNow k.mem (pgdIndex va) = 0
  · have zero : walkedPde k.mem (pgdNow - pageOffset) va = 0 :=
      state.tables.pde_eq_zero bound missing
    simp [zero, pteOf, missing]
  · obtain ⟨pde, pte⟩ := state.pde_walked missing
    have aligned := (state.tables.isFrame bound missing).1
    simp only [pageSize] at aligned
    simp only [pde, pte]
    omega

theorem TablesWritable.getMapping_some (state : TablesWritable pgdNow k) :
    (∃ pa, getMapping pgdNow va k = .ok (some pa) k) ↔
      pteOf pgdNow k.mem va ≠ 0 := by
  rw [getMapping_eq state.tables, translation]
  split <;> simp [*]

theorem TablesWritable.agrees_iff (state : TablesWritable pgdNow k) :
    AgreesWithWalk pgdNow k ↔ ∀ va < 4294967296,
      pteOf pgdNow k.mem va = 0 ∨ pteOf pgdNow k.mem va % 2 = 1 := by
  unfold AgreesWithWalk
  apply forall₂_congr
  intro va small
  rw [state.getMapping_some, state.walkPresent_iff]
  omega

end Walk

/-! ## One call -/

section Call

variable {pgdNow : Nat} {k k' : Kernel}

/-- The table that `map` adds is present and writable. -/
theorem TablesWritable.map {va pa flags : Nat}
    (state : TablesWritable pgdNow k) (vaSmall : va < 4294967296)
    (paSmall : pa < 4294967296) (flagsSmall : flags < 8)
    (returned : MiniOS.map pgdNow va pa flags k = .ok () k') :
    TablesWritable pgdNow k' ∧
      tableOf pgdNow k'.mem (pgdIndex va) ≠ 0 ∧
      EntryWritten pgdNow va (roundDown pa pageSize + flags) k k' := by
  have inPlace := map_tables state.tables returned
  have small : flags < pageSize := by
    simp only [pageSize]
    omega
  rcases map_step state.tables vaSmall paSmall small with
    ⟨stopped, _⟩ | ⟨k₁, ok, written⟩
  · rw [stopped] at returned
    cases returned
  rw [ok] at returned
  cases returned
  refine ⟨⟨written.tables, ?_⟩, inPlace.present, written⟩
  intro i iBound present
  have pde := inPlace.pde i iBound
  split at pde
  · exact pde
  · rw [pde] at present ⊢
    rw [tableOf_congr pde]
    exact state.pde i iBound present

theorem TablesWritable.unmap {va : Nat} (state : TablesWritable pgdNow k)
    (vaSmall : va < 4294967296)
    (returned : MiniOS.unmap pgdNow va k = .ok () k') :
    TablesWritable pgdNow k' ∧ EntryWritten pgdNow va 0 k k' := by
  obtain ⟨k₁, ok, written⟩ := unmap_step state.tables vaSmall
  rw [ok] at returned
  cases returned
  by_cases missing : tableOf pgdNow k.mem (pgdIndex va) = 0
  · rw [unmap_missing state.tables missing] at ok
    cases ok
    exact ⟨state, written⟩
  · rw [unmap_present state.tables missing] at ok
    cases ok
    have pdeEq := state.tables.pdeOf_store_table 0 (pgdIndex_lt va)
      (pteIndex_lt va) missing
    refine ⟨⟨written.tables, ?_⟩, written⟩
    intro i iBound present
    rw [pdeEq i iBound] at present ⊢
    rw [tableOf_congr (pdeEq i iBound)]
    exact state.pde i iBound present

/-- The bits of the flags that `map` can be called with. -/
theorem flags_bits {flags : Nat} (small : flags < 8) :
    (flags &&& pagePresent ≠ 0 ↔ flags % 2 = 1) ∧
      (flags &&& pageWrite ≠ 0 ↔ flags / 2 % 2 = 1) ∧
      (flags &&& pageUser ≠ 0 ↔ flags / 4 % 2 = 1) := by
  revert flags
  decide

/-- A directory in the format stays in it when the entry that was written is 0
or present. -/
theorem EntryWritten.agrees_iff {va value : Nat}
    (written : EntryWritten pgdNow va value k k')
    (before : TablesWritable pgdNow k) (after : TablesWritable pgdNow k')
    (agrees : AgreesWithWalk pgdNow k) (vaSmall : va < 4294967296) :
    AgreesWithWalk pgdNow k' ↔ value = 0 ∨ value % 2 = 1 := by
  rw [before.agrees_iff] at agrees
  rw [after.agrees_iff]
  constructor
  · intro all
    have here := all va vaSmall
    rwa [written.pte va vaSmall, if_pos rfl] at here
  · intro formatted other otherSmall
    rw [written.pte other otherSmall]
    split
    · exact formatted
    · exact agrees other otherSmall

theorem TablesWritable.rightsAre_iff {va pa flags : Nat}
    (state : TablesWritable pgdNow k)
    (present : tableOf pgdNow k.mem (pgdIndex va) ≠ 0) (flagsSmall : flags < 8)
    (entry : pteOf pgdNow k.mem va = roundDown pa pageSize + flags) :
    RightsAre k.mem (pgdNow - pageOffset) va flags ↔
      flags &&& pageUser = 0 := by
  obtain ⟨pde, pte⟩ := state.pde_walked present
  obtain ⟨_, write, user⟩ := flags_bits flagsSmall
  have tableAligned := (state.tables.isFrame (pgdIndex_lt va) present).1
  have pageAligned := roundDown_mod pa pageSize
  simp only [pageSize] at tableAligned pageAligned entry
  constructor
  · intro rights
    have user' := rights.user
    rw [user] at user'
    simp only [pageHelper, pde, pte, entry] at user'
    by_contra some
    have bit := user.mp some
    omega
  · intro none
    have noUser : ¬ flags / 4 % 2 = 1 := fun bit => user.mpr bit none
    constructor
    · rw [write]
      simp only [pageHelper, pde, pte, entry]
      omega
    · rw [user]
      simp only [pageHelper, pde, pte, entry]
      omega

theorem VmmCall.followsFormat_iff {call : VmmCall}
    (state : TablesWritable pgdNow k) (agrees : AgreesWithWalk pgdNow k)
    (drawn : call.Drawn) (returned : call.run pgdNow k = .ok () k') :
    TablesWritable pgdNow k' ∧
      (AgreesWithWalk pgdNow k' ∧ call.RightsTaken pgdNow k' ↔
        call.FollowsFormat) := by
  cases call with
  | map va pa flags =>
      obtain ⟨vaSmall, paSmall, flagsSmall⟩ := drawn
      obtain ⟨state', inPlace, written⟩ :=
        state.map vaSmall paSmall flagsSmall returned
      obtain ⟨present, _, _⟩ := flags_bits flagsSmall
      have entry := written.pte va vaSmall
      rw [if_pos rfl] at entry
      have pageAligned := roundDown_mod pa pageSize
      simp only [pageSize] at pageAligned
      refine ⟨state', ?_⟩
      rw [written.agrees_iff state state' agrees vaSmall]
      simp only [RightsTaken, FollowsFormat]
      rw [state'.rightsAre_iff inPlace flagsSmall entry]
      simp only [present, pageSize]
      split <;> omega
  | unmap va =>
      obtain ⟨state', written⟩ := state.unmap drawn returned
      refine ⟨state', ?_⟩
      rw [written.agrees_iff state state' agrees drawn]
      simp [RightsTaken, FollowsFormat]

end Call

/-! ## Runs -/

/-- A directory where the software and the processor agree. -/
structure FormattedDirectory (pgdNow : Nat) (k : Kernel) : Prop
    extends TablesWritable pgdNow k where
  agrees : AgreesWithWalk pgdNow k

theorem FormattedDirectory.empty {pgdNow : Nat} {k : Kernel}
    (tables : PageTables pgdNow k.mem k.pmmStack)
    (blank : ∀ i < pgdSize, pdeOf pgdNow k.mem i = 0) :
    FormattedDirectory pgdNow k := by
  have state : TablesWritable pgdNow k :=
    ⟨tables, fun i bound present => absurd (blank i bound) present⟩
  refine ⟨state, state.agrees_iff.mpr ?_⟩
  intro va _small
  left
  rw [pteOf, if_pos (tableOf_eq_zero_of_pdeOf (blank _ (pgdIndex_lt va)))]

theorem FormattedDirectory.initVmm {img : KernelImage} {k : Kernel} {mem : Mem}
    (usable : ∀ frame ∈ k.pmmStack, UsableFrame img frame)
    (distinct : k.pmmStack.Nodup) (zero : img.BssZero mem)
    (filled : k.mem = MiniOS.initVmm img.pgdKern img.pteKern mem) :
    FormattedDirectory img.pgdKern k := by
  have tables := HeapPaging.boot_tables usable distinct zero
  rw [← filled] at tables
  have state : TablesWritable img.pgdKern k := by
    refine ⟨tables, ?_⟩
    intro i bound present
    rw [filled, img.pdeOf_initVmm zero i bound, KernelImage.kernelPde] at present
    split at present
    · rename_i inside
      rw [filled, KernelImage.tableOf_initVmm zero inside.1 inside.2,
        KernelImage.pdeOf_initVmm zero i bound, KernelImage.kernelPde,
        if_pos inside]
    · exact absurd rfl present
  refine ⟨state, state.agrees_iff.mpr ?_⟩
  intro va small
  rw [filled, KernelImage.pteOf_initVmm zero small, directPte]
  split
  · have aligned := roundDown_mod (va - pageOffset) pageSize
    simp only [pageSize] at aligned ⊢
    omega
  · exact .inl rfl

/-- In every run of `map` and `unmap` the software and the processor agree on
presence and rights exactly if no call asks for the user's right and none
makes an entry that is not present. -/
theorem formatKept_iff {pgdNow : Nat} {k k' : Kernel} {calls : List VmmCall}
    (directory : FormattedDirectory pgdNow k)
    (drawn : ∀ call ∈ calls, call.Drawn)
    (returned : VmmCall.runAll pgdNow calls k = .ok () k') :
    FormatKept pgdNow calls k ↔ ∀ call ∈ calls, call.FollowsFormat := by
  induction calls generalizing k with
  | nil => simpa [FormatKept] using directory.agrees
  | cons call calls induction =>
      rw [VmmCall.runAll] at returned
      obtain ⟨⟨⟩, k₁, ok, rest⟩ := Outcome.bind_eq_ok returned
      obtain ⟨state₁, step⟩ := VmmCall.followsFormat_iff
        directory.toTablesWritable directory.agrees (drawn call (by simp)) ok
      have later : AgreesWithWalk pgdNow k₁ →
          (FormatKept pgdNow calls k₁ ↔
            ∀ other ∈ calls, other.FollowsFormat) :=
        fun agrees₁ => induction ⟨state₁, agrees₁⟩
          (fun other member => drawn other (by simp [member])) rest
      have first : FormatKept pgdNow calls k₁ → AgreesWithWalk pgdNow k₁ := by
        intro kept
        cases calls with
        | nil => exact kept
        | cons => exact kept.1
      rw [List.forall_mem_cons]
      constructor
      · rintro ⟨_, kept⟩
        obtain ⟨rights, keptRest⟩ := kept k₁ ok
        have agrees₁ := first keptRest
        exact ⟨step.mp ⟨agrees₁, rights⟩, (later agrees₁).mp keptRest⟩
      · rintro ⟨follows, others⟩
        obtain ⟨agrees₁, rights⟩ := step.mpr follows
        refine ⟨directory.agrees, ?_⟩
        intro k₂ ok₂
        rw [ok] at ok₂
        cases ok₂
        exact ⟨rights, (later agrees₁).mpr others⟩

theorem emptyDirectory_formatted :
    FormattedDirectory 0xC0100000 emptyDirectory :=
  .empty emptyDirectory_tables fun _ _ => rfl

/-- A page is mapped for the kernel. -/
theorem formatKept_kernelPage :
    FormatKept 0xC0100000 [.map 0xE0000000 0x5000 3] emptyDirectory := by
  obtain ⟨k', returned⟩ : ∃ k', VmmCall.runAll 0xC0100000
      [.map 0xE0000000 0x5000 3] emptyDirectory = .ok () k' := ⟨_, rfl⟩
  exact (formatKept_iff emptyDirectory_formatted
    (by simp [VmmCall.Drawn]) returned).mpr
      (by decide)

/-- `map` is called with `PAGE_WRITE` alone, or with all three flags. -/
theorem formatKept_fails :
    ¬FormatKept 0xC0100000 [.map 0xE0000000 0x5000 2] emptyDirectory ∧
      ¬FormatKept 0xC0100000 [.map 0xE0000000 0x5000 7] emptyDirectory := by
  have fails : ∀ flags ∈ [2, 7], ¬ VmmCall.FollowsFormat
      (.map 0xE0000000 0x5000 flags) := by decide
  have refuted : ∀ flags ∈ [2, 7], ¬ FormatKept 0xC0100000
      [.map 0xE0000000 0x5000 flags] emptyDirectory := by
    intro flags among kept
    have small : flags < 8 := by
      simp only [List.mem_cons, List.not_mem_nil, or_false] at among
      omega
    let call : VmmCall := .map 0xE0000000 0x5000 flags
    have drawn : call.Drawn := ⟨by decide, by decide, small⟩
    obtain ⟨k', returned⟩ : ∃ k', call.run 0xC0100000 emptyDirectory =
        .ok () k' := ⟨_, rfl⟩
    obtain ⟨rights, agrees⟩ := kept.2 k' returned
    have follows := (VmmCall.followsFormat_iff
      emptyDirectory_formatted.toTablesWritable emptyDirectory_formatted.agrees
      drawn returned).2.mp ⟨agrees, rights⟩
    exact fails flags among follows
  exact ⟨refuted 2 (by decide), refuted 7 (by decide)⟩

end MiniOS
