import Mathlib.Data.List.Find
import Mathlib.Data.List.Induction
import Mathlib.Data.Set.Lattice
import MiniOS.Debug.Elf

/-!
# From an address to the name of its function

`elf_from_multiboot` keeps the last section of either name, and a field that
no section sets holds whatever the stack held.  The sum for `symtab` is taken
in symbols, and sixteen times `PAGE_OFFSET` is zero in 32 bits: the table is
looked up at its physical address, which is not there once the low addresses
of the boot directory are gone.
-/

namespace MiniOS

open ByteMemory

/-! ## What is asked for -/

def sectionHeaders (mem : Mem) (mb : MultibootElf) : List SectionHeader :=
  (List.range mb.num).map (sectionHeader mem mb)

def sectionsNamed (mem : Mem) (mb : MultibootElf) (name : String) :
    List SectionHeader :=
  (sectionHeaders mem mb).filter fun sh =>
    StringAt mem (sectionName (sectionHeader mem mb mb.shndx).addr sh)
      (literal name)

def tableSymbols (mem : Mem) (symtab symtabsz : Nat) : List ElfSymbol :=
  (List.range (symtabsz / elfSymbolSize)).map (elfSymbol mem symtab)

/-- A function whose range contains the address. -/
def ElfSymbol.Covers (addr : Nat) (symbol : ElfSymbol) : Prop :=
  elf32StType symbol.info = 0x2 ∧ symbol.value ≤ addr ∧
    addr < symbol.value + symbol.size

instance (addr : Nat) : DecidablePred (ElfSymbol.Covers addr) :=
  fun _ => inferInstanceAs (Decidable (_ ∧ _ ∧ _))

/-- The name of the first function that contains the address, when both tables
are seen `PAGE_OFFSET` above their physical addresses. -/
def symbolName (mem : Mem) (symtab strtab : SectionHeader) (addr : Nat) : Nat :=
  match (tableSymbols mem (uint32 (symtab.addr + pageOffset))
      symtab.size).find? (ElfSymbol.Covers addr) with
  | some symbol => uint32 (uint32 (strtab.addr + pageOffset) + symbol.name)
  | none => 0

def SectionMissing (mem : Mem) (mb : MultibootElf) : Prop :=
  sectionsNamed mem mb ".symtab" = [] ∨ sectionsNamed mem mb ".strtab" = []

/-- The bytes of every section are seen `PAGE_OFFSET` above its physical
address, when the headers are read and at the lookup. -/
def SectionsVisible (boot : Mem) (space : AddressSpace) (mb : MultibootElf) :
    Prop :=
  ∀ sh ∈ sectionHeaders boot mb,
    ∀ x ∈ List.range' (sh.addr + pageOffset) sh.size,
      space.mapped x = true ∧ space.mem x = boot x

instance (boot : Mem) (space : AddressSpace) (mb : MultibootElf) :
    Decidable (SectionsVisible boot space mb) :=
  inferInstanceAs (Decidable (∀ sh ∈ sectionHeaders boot mb,
    ∀ x ∈ List.range' (sh.addr + pageOffset) sh.size,
      space.mapped x = true ∧ space.mem x = boot x))

/-- Addresses are symbolised end to end: `boot` is what the kernel sees when it
reads the section headers, `space` what it sees at the lookup. -/
structure Symbolises (boot : Mem) (space : AddressSpace) (mb : MultibootElf)
    (leftover : Elf) : Prop where
  recorded : ∀ symtab strtab, sectionsNamed boot mb ".symtab" = [symtab] →
    sectionsNamed boot mb ".strtab" = [strtab] →
    elfFromMultiboot boot mb leftover =
      ⟨uint32 (symtab.addr + pageOffset), symtab.size,
        uint32 (strtab.addr + pageOffset), strtab.size⟩
  name : ∀ symtab strtab, sectionsNamed boot mb ".symtab" = [symtab] →
    sectionsNamed boot mb ".strtab" = [strtab] → ∀ addr < 4294967296,
    lookupSymbol space addr (elfFromMultiboot boot mb leftover) =
      .ok (symbolName space.mem symtab strtab addr)
  missing : SectionMissing boot mb → ∀ addr < 4294967296,
    lookupSymbol space addr (elfFromMultiboot boot mb leftover) = .ok 0

/-! ## What is recorded -/

/-- The last of the sections of either name decides. -/
def lastSections (symtabs strtabs : List SectionHeader) (leftover : Elf) :
    Elf where
  symtab := (symtabs.getLast?.map
    fun sh => uint32 sh.addr).getD leftover.symtab
  symtabsz := (symtabs.getLast?.map SectionHeader.size).getD leftover.symtabsz
  strtab := (strtabs.getLast?.map
    fun sh => uint32 (sh.addr + pageOffset)).getD leftover.strtab
  strtabsz := (strtabs.getLast?.map SectionHeader.size).getD leftover.strtabsz

def recordedElf (mem : Mem) (mb : MultibootElf) (leftover : Elf) : Elf :=
  lastSections (sectionsNamed mem mb ".symtab")
    (sectionsNamed mem mb ".strtab") leftover

/-- `PAGE_OFFSET` symbols further on is the same address. -/
theorem symtab_unmoved (addr : Nat) :
    uint32 (addr + elfSymbolSize * pageOffset) = uint32 addr := by
  simp only [uint32, elfSymbolSize, pageOffset]
  omega

section Recorded

variable {mem : Mem} {shstrtab : Nat}

/-- The last of some sections with one more behind them. -/
theorem getLast?_filter_concat {α : Type} (field : SectionHeader → α)
    (headers : List SectionHeader) (sh : SectionHeader) (other : α)
    (named : SectionHeader → Bool) :
    (((headers ++ [sh]).filter named).getLast?.map field).getD other =
      if named sh then field sh
      else ((headers.filter named).getLast?.map field).getD other := by
  rw [List.filter_append]
  by_cases here : named sh = true
  · simp [here]
  · simp [here]

theorem getLast?_singleton {α : Type} (field : SectionHeader → α)
    (sh : SectionHeader) (other : α) :
    ([sh].getLast?.map field).getD other = field sh := by
  rw [List.getLast?_singleton, Option.map_some, Option.getD_some]

theorem foldl_elfSection (headers : List SectionHeader) (leftover : Elf) :
    headers.foldl (elfSection mem shstrtab) leftover =
      let named (name : String) := headers.filter fun sh =>
        StringAt mem (sectionName shstrtab sh) (literal name)
      lastSections (named ".symtab") (named ".strtab") leftover := by
  induction headers using List.reverseRecOn with
  | nil => rfl
  | append_singleton headers sh induction =>
      have symtabProper : 0 ∉ literal ".symtab" := by decide
      have strtabProper : 0 ∉ literal ".strtab" := by decide
      rw [List.foldl_append, induction]
      simp only [List.foldl_cons, List.foldl_nil, elfSection, lastSections,
        strcmp_eq_zero_iff symtabProper, strcmp_eq_zero_iff strtabProper,
        symtab_unmoved, getLast?_filter_concat, decide_eq_true_eq]
      split <;> split <;> rfl

end Recorded

theorem elfFromMultiboot_eq (mem : Mem) (mb : MultibootElf) (leftover : Elf) :
    elfFromMultiboot mem mb leftover = recordedElf mem mb leftover := by
  rw [elfFromMultiboot, ← List.foldl_map]
  exact foldl_elfSection _ leftover

/-! ## What the lookup reads -/

section Reads

variable {space : AddressSpace}

theorem read_bind {α β : Type} {read : Except TraceStop α} {a : α}
    (returned : read = .ok a) (next : α → Except TraceStop β) :
    (read >>= next) = next a := by
  rw [returned]
  rfl

theorem read_then {α β : Type} {read : Except TraceStop α}
    {next : α → Except TraceStop β} {b : β}
    (returned : (read >>= next) = .ok b) :
    ∃ a, read = .ok a ∧ next a = .ok b := by
  cases shape : read with
  | error stop =>
      rw [shape] at returned
      cases returned
  | ok a =>
      rw [read_bind shape] at returned
      exact ⟨a, rfl, returned⟩

theorem byte_iff {address : Nat} {byte : UInt8} :
    space.byte address = .ok byte ↔
      space.mapped address = true ∧ byte = space.mem address := by
  unfold AddressSpace.byte
  split
  · rename_i there
    rw [Except.ok.injEq, eq_comm]
    exact (and_iff_right there).symm
  · rename_i hole
    simp [hole]

theorem word_iff {address value : Nat} :
    space.word address = .ok value ↔
      space.WordMapped address ∧ value = load32 space.mem address := by
  unfold AddressSpace.word AddressSpace.WordMapped
  split
  · rename_i hole found
    have unmapped : space.mapped hole = false := by
      simpa using List.find?_some found
    constructor
    · intro read
      cases read
    · rintro ⟨there, _⟩
      rw [there hole (List.mem_of_find?_eq_some found)] at unmapped
      cases unmapped
  · rename_i none
    have there : ∀ x ∈ List.range' address 4, space.mapped x = true := by
      simpa using List.find?_eq_none.mp none
    rw [Except.ok.injEq, eq_comm]
    exact (and_iff_right there).symm

end Reads

/-! ## A table that names nothing -/

/-- The addresses that the lookup takes for those of a function: the end of the
range is a sum in 32 bits.  A symbol of another type has none. -/
def ElfSymbol.range (symbol : ElfSymbol) : Set Nat :=
  if elf32StType symbol.info = 0x2 then
    Set.Ico symbol.value (uint32 (symbol.value + symbol.size))
  else ∅

theorem ElfSymbol.mem_range {symbol : ElfSymbol} {addr : Nat} :
    addr ∈ symbol.range ↔ elf32StType symbol.info = 0x2 ∧
      symbol.value ≤ addr ∧ addr < uint32 (symbol.value + symbol.size) := by
  unfold range
  split <;> simp_all

/-- The type of a symbol is there to be read, and of a function its value and
its size. -/
structure TestsMapped (space : AddressSpace) (elf : Elf) (i : Nat) : Prop where
  info : space.mapped (uint32 (elf.symbol i + 12)) = true
  bounds : elf32StType (elfSymbol space.mem elf.symtab i).info = 0x2 →
    space.WordMapped (uint32 (elf.symbol i + 4)) ∧
      space.WordMapped (uint32 (elf.symbol i + 8))

/-- The table and the names that the lookup goes by are there, as far as it
reads them, and no symbol has a name. -/
structure NothingNamed (space : AddressSpace) (elf : Elf) : Prop where
  fields : ∀ i < elf.count, TestsMapped space elf i
  /-- A function with an address of its own has the null pointer for a name. -/
  names : ∀ i < elf.count,
    ¬ (elfSymbol space.mem elf.symtab i).range ⊆
      ⋃ j < i, (elfSymbol space.mem elf.symtab j).range →
    space.WordMapped (elf.symbol i) ∧
      uint32 (elf.strtab + (elfSymbol space.mem elf.symtab i).name) = 0

section Lookup

variable {space : AddressSpace} {elf : Elf} {addr i rounds : Nat}

/-- Where the fields can be read the tests are those of the range. -/
theorem TestsMapped.tests (fields : TestsMapped space elf i) (addr : Nat) :
    ∃ found, symbolTests space addr (elf.symbol i) = .ok found ∧
      (found = true ↔ addr ∈ (elfSymbol space.mem elf.symtab i).range) := by
  obtain ⟨info, bounds⟩ := fields
  rw [ElfSymbol.mem_range, symbolTests, read_bind (byte_iff.mpr ⟨info, rfl⟩)]
  change elf32StType (space.mem (uint32 (elf.symbol i + 12))).toNat = 0x2 → _
    at bounds
  change ∃ found, _ ∧ (_ ↔
    elf32StType (space.mem (uint32 (elf.symbol i + 12))).toNat = 0x2 ∧
      load32 space.mem (uint32 (elf.symbol i + 4)) ≤ addr ∧
        addr < uint32 (load32 space.mem (uint32 (elf.symbol i + 4)) +
          load32 space.mem (uint32 (elf.symbol i + 8))))
  by_cases function :
      elf32StType (space.mem (uint32 (elf.symbol i + 12))).toNat = 0x2
  · obtain ⟨value, size⟩ := bounds function
    rw [if_neg (not_not.mpr function), read_bind (word_iff.mpr ⟨value, rfl⟩)]
    by_cases below : addr < load32 space.mem (uint32 (elf.symbol i + 4))
    · rw [if_pos below]
      exact ⟨false, rfl, by simp [Nat.not_le.mpr below]⟩
    · rw [if_neg below, read_bind (word_iff.mpr ⟨size, rfl⟩)]
      exact ⟨_, rfl, by simp [function, Nat.not_lt.mp below]⟩
  · rw [if_pos function]
    exact ⟨false, rfl, by simp [function]⟩

/-- The last address is in no range, so that all fields are read for it. -/
theorem symbolTests_last {found : Bool}
    (tests : symbolTests space 4294967295 (elf.symbol i) = .ok found) :
    found = false ∧ TestsMapped space elf i := by
  obtain ⟨info, infoRead, tests⟩ := read_then tests
  obtain ⟨infoThere, rfl⟩ := byte_iff.mp infoRead
  split at tests
  · rename_i other
    cases tests
    exact ⟨rfl, infoThere, fun function => absurd function other⟩
  · obtain ⟨value, valueRead, tests⟩ := read_then tests
    obtain ⟨valueThere, rfl⟩ := word_iff.mp valueRead
    split at tests
    · rename_i above
      have := load32_lt space.mem (uint32 (elf.symbol i + 4))
      omega
    · obtain ⟨size, sizeRead, tests⟩ := read_then tests
      obtain ⟨sizeThere, rfl⟩ := word_iff.mp sizeRead
      cases tests
      have small := uint32_lt (load32 space.mem (uint32 (elf.symbol i + 4)) +
        load32 space.mem (uint32 (elf.symbol i + 8)))
      exact ⟨decide_eq_false (by omega), infoThere,
        fun _ => ⟨valueThere, sizeThere⟩⟩

/-- A lookup of the last address that returns has read every symbol. -/
theorem lookupLoop_last (returned : lookupLoop space 4294967295 elf rounds i =
      .ok 0) :
    ∀ j, i ≤ j → j < i + rounds → TestsMapped space elf j := by
  induction rounds generalizing i with
  | zero =>
      intro j lower upper
      omega
  | succ rounds induction =>
      intro j lower upper
      obtain ⟨found, tests, rest⟩ := read_then returned
      obtain ⟨rfl, here⟩ := symbolTests_last tests
      rcases Nat.eq_or_lt_of_le lower with rfl | later
      · exact here
      · exact induction rest j later (by omega)

theorem lookupLoop_passes (passed : ∀ j, i ≤ j → j < i + rounds →
      symbolTests space addr (elf.symbol j) = .ok false) (more : Nat) :
    lookupLoop space addr elf (rounds + more) i =
      lookupLoop space addr elf more (i + rounds) := by
  induction rounds generalizing i with
  | zero => rw [Nat.zero_add, Nat.add_zero]
  | succ rounds induction =>
      rw [Nat.add_right_comm, lookupLoop,
        read_bind (passed i (Nat.le_refl i) (by omega)),
        if_neg Bool.false_ne_true,
        induction fun j lower upper => passed j (by omega) (by omega)]
      congr 1
      omega

/-- The lookups of the last address and of one that only this function contains
have read what is asked for. -/
theorem NothingNamed.of_silent
    (silent : ∀ addr < 4294967296, lookupSymbol space addr elf = .ok 0) :
    NothingNamed space elf where
  fields := by
    intro i inTable
    have read := lookupLoop_last (silent 4294967295 (by decide))
    exact read i (Nat.zero_le i) (by omega)
  names := by
    intro i inTable own
    have read := lookupLoop_last (silent 4294967295 (by decide))
    obtain ⟨addr, inRange, others⟩ := Set.not_subset.mp own
    simp only [Set.mem_iUnion, not_exists] at others
    have small := (ElfSymbol.mem_range.mp inRange).2.2
    have bound := uint32_lt ((elfSymbol space.mem elf.symtab i).value +
      (elfSymbol space.mem elf.symtab i).size)
    have returned := silent addr (by omega)
    have passed (j) (_ : 0 ≤ j) (before : j < 0 + i) :
        symbolTests space addr (elf.symbol j) = .ok false := by
      obtain ⟨found, tests, here⟩ :=
        (read j (Nat.zero_le j) (by omega)).tests addr
      rw [tests, Bool.eq_false_iff.mpr (mt here.mp (others j (by omega)))]
    obtain ⟨more, split⟩ : ∃ more, elf.count = i + (more + 1) :=
      ⟨elf.count - i - 1, by omega⟩
    obtain ⟨found, tests, here⟩ :=
      (read i (Nat.zero_le i) (by omega)).tests addr
    obtain rfl := here.mpr inRange
    rw [lookupSymbol, split, lookupLoop_passes passed, Nat.zero_add,
      lookupLoop, read_bind tests, if_pos rfl] at returned
    obtain ⟨offset, nameRead, null⟩ := read_then returned
    obtain ⟨there, rfl⟩ := word_iff.mp nameRead
    exact ⟨there, Except.ok.inj null⟩

/-- The first function that contains the address has the null pointer for a
name. -/
theorem NothingNamed.loop_null (nothing : NothingNamed space elf)
    (whole : i + rounds = elf.count)
    (before : ∀ j < i, addr ∉ (elfSymbol space.mem elf.symtab j).range) :
    lookupLoop space addr elf rounds i = .ok 0 := by
  induction rounds generalizing i with
  | zero => rfl
  | succ rounds induction =>
      obtain ⟨found, tests, here⟩ := (nothing.fields i (by omega)).tests addr
      rw [lookupLoop, read_bind tests]
      cases found with
      | true =>
          have own : ¬ (elfSymbol space.mem elf.symtab i).range ⊆
              ⋃ j < i, (elfSymbol space.mem elf.symtab j).range := by
            apply Set.not_subset.mpr
            refine ⟨addr, here.mp rfl, ?_⟩
            simpa using before
          obtain ⟨there, null⟩ := nothing.names i (by omega) own
          rw [if_pos rfl, read_bind (word_iff.mpr ⟨there, rfl⟩)]
          exact congrArg Except.ok null
      | false =>
          rw [if_neg Bool.false_ne_true]
          apply induction (by omega)
          intro j earlier
          rcases Nat.lt_succ_iff_lt_or_eq.mp earlier with less | rfl
          · exact before j less
          · exact fun inside => Bool.false_ne_true (here.mpr inside)

/-- The lookup returns the null pointer for every address exactly when the
table names nothing. -/
theorem lookupSymbol_null_iff (space : AddressSpace) (elf : Elf) :
    (∀ addr < 4294967296, lookupSymbol space addr elf = .ok 0) ↔
      NothingNamed space elf := by
  constructor
  · exact .of_silent
  · intro nothing addr _
    exact nothing.loop_null (Nat.zero_add _)
      fun j none => absurd none (Nat.not_lt_zero j)

end Lookup

/-! ## End to end -/

section

variable {boot : Mem} {space : AddressSpace} {mb : MultibootElf}
  {leftover : Elf}

def OneOfEach (mem : Mem) (mb : MultibootElf) : Prop :=
  (sectionsNamed mem mb ".symtab").length = 1 ∧
    (sectionsNamed mem mb ".strtab").length = 1

theorem recordedElf_of_sections {symtab strtab : SectionHeader}
    (oneSymtab : sectionsNamed boot mb ".symtab" = [symtab])
    (oneStrtab : sectionsNamed boot mb ".strtab" = [strtab]) :
    recordedElf boot mb leftover =
      ⟨uint32 symtab.addr, symtab.size, uint32 (strtab.addr + pageOffset),
        strtab.size⟩ := by
  rw [recordedElf, oneSymtab, oneStrtab, lastSections, getLast?_singleton,
    getLast?_singleton, getLast?_singleton, getLast?_singleton]

/-- With both sections the symbol table is never where it should be.  With one
missing the lookup goes by the other and by what the stack held, and all
depends on what is there. -/
theorem symbolises_iff :
    Symbolises boot space mb leftover ↔ ¬ OneOfEach boot mb ∧
      (SectionMissing boot mb →
        NothingNamed space (recordedElf boot mb leftover)) := by
  constructor
  · intro symbolises
    refine ⟨?_, ?_⟩
    case refine_2 =>
      intro missing
      rw [← lookupSymbol_null_iff, ← elfFromMultiboot_eq]
      exact symbolises.missing missing
    rintro ⟨symtabs, strtabs⟩
    obtain ⟨symtab, oneSymtab⟩ := List.length_eq_one_iff.mp symtabs
    obtain ⟨strtab, oneStrtab⟩ := List.length_eq_one_iff.mp strtabs
    have recorded := symbolises.recorded symtab strtab oneSymtab oneStrtab
    rw [elfFromMultiboot_eq, recordedElf_of_sections oneSymtab oneStrtab]
      at recorded
    have moved : uint32 symtab.addr = uint32 (symtab.addr + pageOffset) :=
      congrArg Elf.symtab recorded
    simp only [uint32, pageOffset] at moved
    omega
  · rintro ⟨notEach, missing⟩
    have never : ∀ symtab strtab,
        sectionsNamed boot mb ".symtab" = [symtab] →
        sectionsNamed boot mb ".strtab" = [strtab] → False := by
      intro symtab strtab oneSymtab oneStrtab
      apply notEach
      rw [OneOfEach, oneSymtab, oneStrtab]
      exact ⟨rfl, rfl⟩
    refine ⟨?_, ?_, ?_⟩
    · intro symtab strtab oneSymtab oneStrtab
      exact (never symtab strtab oneSymtab oneStrtab).elim
    · intro symtab strtab oneSymtab oneStrtab
      exact (never symtab strtab oneSymtab oneStrtab).elim
    · intro gone
      rw [elfFromMultiboot_eq]
      exact (lookupSymbol_null_iff _ _).mpr (missing gone)

def storeSectionHeader (mem : Mem) (sh : Nat) (header : SectionHeader) : Mem :=
  store32 (store32 (store32 mem sh header.name) (sh + 12) header.addr)
    (sh + 20) header.size

def storeElfSymbol (mem : Mem) (place : Nat) (symbol : ElfSymbol) : Mem :=
  store8 (store32 (store32 (store32 mem place symbol.name) (place + 4) symbol.value)
    (place + 8) symbol.size) (place + 12) (UInt8.ofNat symbol.info)

/-- Section headers at 64 KB, the names of sections behind them, one function
in the symbol table, and an empty string table. -/
def sampleSections (symtab : Nat) : Mem :=
  let names := literal ".symtab" ++ [0] ++ literal ".strtab" ++ [0]
  let mem : Mem := fun address =>
    if 0x11000 ≤ address then names.getD (address - 0x11000) 0 else 0
  let mem := storeSectionHeader mem 0x10000 ⟨15, 0x11000, 16⟩
  let mem := storeSectionHeader mem 0x10028 ⟨0, symtab, 16⟩
  let mem := storeSectionHeader mem 0x10050 ⟨8, 0x13000, 8⟩
  storeElfSymbol mem symtab ⟨1, 0xC0100000, 0x100, 0x12⟩

/-- The first 4 MB of physical memory, seen at `PAGE_OFFSET` only. -/
def sampleSpace (physical : Mem) : AddressSpace where
  mem address := physical (address - pageOffset)
  mapped address := pageOffset ≤ address && address < pageOffset + 0x400000
  bounded := by
    intro address mapped
    rw [Bool.and_eq_true, decide_eq_true_eq, decide_eq_true_eq] at mapped
    exact Nat.lt_trans mapped.2 (by decide)

/-- A function at 3 GB + 1 MB, looked up when the low addresses of the boot
directory are gone: the first read of the table faults. -/
theorem symbolises_sampleSections :
    ¬ ∀ (boot : Mem) (space : AddressSpace) (mb : MultibootElf)
        (leftover : Elf), SectionsVisible boot space mb →
      Symbolises boot space mb leftover := by
  intro symbolises
  let physical := sampleSections 0x12000
  let boot : Mem := fun address => physical (address % pageOffset)
  have visible : SectionsVisible boot (sampleSpace physical)
      ⟨3, 0x10000, 0⟩ := by decide +kernel
  have name := (symbolises boot (sampleSpace physical) ⟨3, 0x10000, 0⟩
    ⟨0, 0, 0, 0⟩ visible).name ⟨0, 0x12000, 16⟩ ⟨8, 0x13000, 8⟩
    (by decide +kernel) (by decide +kernel) 0xC0100010 (by decide)
  have fault : lookupSymbol (sampleSpace physical) 0xC0100010
      (elfFromMultiboot boot ⟨3, 0x10000, 0⟩ ⟨0, 0, 0, 0⟩) =
        .error (.pageFault 0x1200C) := by decide +kernel
  rw [fault] at name
  cases name

end

end MiniOS
