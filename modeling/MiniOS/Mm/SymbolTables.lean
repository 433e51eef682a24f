import MiniOS.Debug.SymbolLookup
import MiniOS.Mm.BootSoundness

/-!
# The symbol tables among the free frames

The boot loader puts `.symtab` and `.strtab` where it likes; the linker script
does not place them below `kern_end`.  `init_pmm` clamps to `kern_end` only.
Whether the page stack holds a frame of the tables is a matter of the ranges
between the rounded ends of the records.
-/

namespace MiniOS

open ByteMemory

/-! ## The bytes of the free frames -/

/-- The bytes that the records give to the page stack, one range for each
record, as long as the stack has room. -/
def freeRanges (phyKernEnd : Nat) : Nat → List MmapEntry → List (Nat × Nat)
  | _, [] => []
  | room, entry :: records =>
      let frames := (entry.lowFrames phyKernEnd).length
      let start := frameBegin phyKernEnd entry
      (start, start + pageSize * min room frames) ::
        freeRanges phyKernEnd (room - frames) records

theorem mem_framesFrom {start count x : Nat} :
    (∃ frame ∈ List.range' start count pageSize,
      frame ≤ x ∧ x < frame + pageSize) ↔
      start ≤ x ∧ x < start + pageSize * count := by
  simp only [List.mem_range', pageSize]
  constructor
  · rintro ⟨frame, ⟨i, below, rfl⟩, lower, upper⟩
    omega
  · rintro ⟨lower, upper⟩
    refine ⟨start + 4096 * ((x - start) / 4096), ⟨_, ?_, rfl⟩, ?_, ?_⟩ <;>
      omega

theorem MmapEntry.take_lowFrames (phyKernEnd room : Nat) (entry : MmapEntry) :
    (entry.lowFrames phyKernEnd).take room =
      List.range' (frameBegin phyKernEnd entry)
        (min room (entry.lowFrames phyKernEnd).length) pageSize := by
  unfold lowFrames
  split
  · rw [List.length_range']
    rcases Nat.le_total room ((frameEnd entry -
        frameBegin phyKernEnd entry) / pageSize) with short | long
    · rw [Nat.min_eq_left short, List.take_range'_of_length_ge short]
    · rw [Nat.min_eq_right long, List.take_range'_of_length_le long]
  · simp

/-- The frames that fit the stack and the ranges have the same bytes. -/
theorem mem_freeRanges {phyKernEnd x : Nat} (records : List MmapEntry)
    (room : Nat) :
    (∃ frame ∈ (namedFrames phyKernEnd records).take room,
      frame ≤ x ∧ x < frame + pageSize) ↔
      ∃ range ∈ freeRanges phyKernEnd room records,
        range.1 ≤ x ∧ x < range.2 := by
  induction records generalizing room with
  | nil => simp [namedFrames, freeRanges]
  | cons entry records induction =>
      have split : namedFrames phyKernEnd (entry :: records) =
          entry.lowFrames phyKernEnd ++ namedFrames phyKernEnd records := by
        simp [namedFrames]
      rw [split, List.take_append, freeRanges]
      simp only [List.mem_append, or_and_right, exists_or, List.mem_cons,
        exists_eq_left]
      rw [induction, ← mem_framesFrom, ← entry.take_lowFrames]

/-! ## The recorded tables -/

def SectionHeader.Holds (sh : SectionHeader) (x : Nat) : Prop :=
  sh.addr ≤ x ∧ x < sh.addr + sh.size

/-- The sections from which `elf_from_multiboot` takes addresses and sizes:
the last one of either name. -/
def recordedTables (mem : Mem) (mb : MultibootElf) : List SectionHeader :=
  (sectionsNamed mem mb ".symtab").getLast?.toList ++
    (sectionsNamed mem mb ".strtab").getLast?.toList

/-- No frame of the stack has a byte of a table. -/
def TablesSpared (tables : List SectionHeader) (stack : List Nat) : Prop :=
  ∀ table ∈ tables, ∀ frame ∈ stack, ∀ x,
    frame ≤ x → x < frame + pageSize → ¬ table.Holds x

/-- The range of no record that `init_pmm` walks has a byte of a table. -/
def TablesClear (tables : List SectionHeader) (phyKernEnd : Nat)
    (records : List MmapEntry) : Prop :=
  ∀ table ∈ tables, ∀ range ∈ freeRanges phyKernEnd pageMaxSize records,
    range.2 ≤ table.addr ∨ table.addr + table.size ≤ range.1 ∨
      range.2 ≤ range.1 ∨ table.size = 0

instance (tables : List SectionHeader) (phyKernEnd : Nat)
    (records : List MmapEntry) :
    Decidable (TablesClear tables phyKernEnd records) :=
  inferInstanceAs (Decidable (∀ table ∈ tables, ∀ range ∈ _, _))

theorem tablesSpared_iff {tables : List SectionHeader} {phyKernEnd : Nat}
    {records : List MmapEntry} :
    TablesSpared tables
        ((namedFrames phyKernEnd records).take pageMaxSize).reverse ↔
      TablesClear tables phyKernEnd records := by
  refine forall₂_congr fun table _ => ?_
  constructor
  · intro spared range member
    by_contra shared
    obtain ⟨frame, inStack, lower, upper⟩ := (mem_freeRanges records
      pageMaxSize).mpr ⟨range, member, (show range.1 ≤
        max range.1 table.addr by omega), by omega⟩
    apply spared frame (List.mem_reverse.mpr inStack) _ lower upper
    unfold SectionHeader.Holds
    omega
  · intro clear frame inStack x lower upper holds
    obtain ⟨range, member, start, stop⟩ := (mem_freeRanges records
      pageMaxSize).mp ⟨frame, List.mem_reverse.mp inStack, lower, upper⟩
    have apart := clear range member
    unfold SectionHeader.Holds at holds
    omega

/-- `init_pmm` leaves the tables alone that `elf_from_multiboot` has recorded,
whether it returns or panics. -/
def InitPmmSparesTables (k : Kernel) (kernEnd : Nat) (glbMbootPtr : Multiboot)
    (mb : MultibootElf) : Prop :=
  ∀ k', (initPmm glbMbootPtr kernEnd k = .ok () k' ∨
      ∃ stop, initPmm glbMbootPtr kernEnd k = .error stop k') →
    TablesSpared (recordedTables k.mem mb) k'.pmmStack

section Boot

variable {k : Kernel} {glbMbootPtr : Multiboot}

theorem initPmm_stack (fresh : FreshStack k) (kernEnd : Nat)
    (fits : glbMbootPtr.MapFits) :
    ∃ k', k'.pmmStack = ((namedFrames (kernEnd - pageOffset)
        (glbMbootPtr.records k.mem)).take pageMaxSize).reverse ∧
      (initPmm glbMbootPtr kernEnd k = .ok () k' ∨
        initPmm glbMbootPtr kernEnd k =
          .error (.panic "out of pmm_stack stack") k') := by
  obtain ⟨room, full⟩ := initPmm_spec fresh kernEnd fits
  rw [← initPmm_length kernEnd fits] at room full
  refine ⟨_, pushed_stack fresh _, ?_⟩
  by_cases few : (namedFrames (kernEnd - pageOffset)
      (glbMbootPtr.records k.mem)).length ≤ pageMaxSize
  · rw [List.take_of_length_le few]
    exact .inl (room few)
  · exact .inr (full (Nat.lt_of_not_le few))

/-- The page stack spares the recorded tables exactly where the records do. -/
theorem initPmm_tables_iff (fresh : FreshStack k) (kernEnd : Nat)
    (fits : glbMbootPtr.MapFits) (mb : MultibootElf) :
    InitPmmSparesTables k kernEnd glbMbootPtr mb ↔
      TablesClear (recordedTables k.mem mb) (kernEnd - pageOffset)
        (glbMbootPtr.records k.mem) := by
  obtain ⟨last, stack, ended⟩ := initPmm_stack fresh kernEnd fits
  rw [← tablesSpared_iff, ← stack]
  constructor
  · intro spared
    apply spared
    exact ended.imp_right fun stopped => ⟨_, stopped⟩
  · rintro spared k' (returned | ⟨stop, stopped⟩)
    · rcases ended with ended | ended
      · rw [returned] at ended
        cases ended
        exact spared
      · rw [returned] at ended
        cases ended
    · rcases ended with ended | ended
      · rw [stopped] at ended
        cases ended
      · rw [stopped] at ended
        cases ended
        exact spared

end Boot

/-- Three pages of memory at 2 MB, and section headers that tell of a symbol
table at an address. -/
def tableKernel (symtab : Nat) : Kernel :=
  { bootKernel lowEntry with
    mem := storeMmapEntry
      (fun address => sampleSections symtab (address % pageOffset)) 0x1000
      lowEntry }

/-- Both tables lie below the kernel. -/
theorem initPmm_tables_below :
    InitPmmSparesTables (tableKernel 0x12000) 0xC0182000 ⟨24, 0x1000⟩
      ⟨3, 0x10000, 0⟩ := by
  have tables : recordedTables (tableKernel 0x12000).mem ⟨3, 0x10000, 0⟩ =
      [⟨0, 0x12000, 16⟩, ⟨8, 0x13000, 8⟩] := by decide +kernel
  have records : Multiboot.records ⟨24, 0x1000⟩ (tableKernel 0x12000).mem =
      [lowEntry] := by decide +kernel
  refine (initPmm_tables_iff ⟨rfl, rfl⟩ 0xC0182000 (by decide) _).mpr ?_
  rw [tables, records]
  decide +kernel

/-- The symbol table lies in the memory behind the kernel. -/
theorem initPmm_tables_behind :
    ¬ ∀ (k : Kernel) (kernEnd : Nat) (glbMbootPtr : Multiboot)
        (mb : MultibootElf), FreshStack k → glbMbootPtr.MapFits →
      InitPmmSparesTables k kernEnd glbMbootPtr mb := by
  intro spares
  have fresh : FreshStack (tableKernel 0x201000) := ⟨rfl, rfl⟩
  have tables : recordedTables (tableKernel 0x201000).mem ⟨3, 0x10000, 0⟩ =
      [⟨0, 0x201000, 16⟩, ⟨8, 0x13000, 8⟩] := by decide +kernel
  have records : Multiboot.records ⟨24, 0x1000⟩ (tableKernel 0x201000).mem =
      [lowEntry] := by decide +kernel
  have fits : Multiboot.MapFits ⟨24, 0x1000⟩ := by decide
  obtain ⟨k', stack, ended⟩ := initPmm_stack fresh 0xC0182000 fits
  have spared := spares _ 0xC0182000 _ ⟨3, 0x10000, 0⟩ fresh fits
    k' (ended.imp_right fun stopped => ⟨_, stopped⟩)
  rw [stack, records, tables] at spared
  apply spared ⟨0, 0x201000, 16⟩ List.mem_cons_self 0x201000 (by decide +kernel)
    0x201000 (Nat.le_refl _) (by decide)
  exact ⟨by decide, by decide⟩

end MiniOS
