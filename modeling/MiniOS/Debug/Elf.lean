import MiniOS.Kernel

/-!
# Symbols of the kernel (`elf.c`)

The boot loader leaves the section headers of the kernel in memory and their
place in the Multiboot structure.  Headers are read at their physical address,
which the boot directory maps to itself; names and tables at theirs plus
`PAGE_OFFSET`.  While the headers are read memory is what the kernel sees at
its virtual addresses; the lookup comes later, when a panic may find pages that
are not there.  Pointer arithmetic is in units of the element and wraps at
4 GB.
-/

namespace MiniOS

open ByteMemory

/-! ## The data structures -/

/-- The fields of `multiboot_t` that tell of the section headers. -/
structure MultibootElf where
  num : Nat
  addr : Nat
  shndx : Nat
  deriving DecidableEq, Repr

/-- The fields of `elf_section_header_t` that are read. -/
structure SectionHeader where
  name : Nat
  addr : Nat
  size : Nat
  deriving DecidableEq, Repr

abbrev sectionHeaderSize : Nat := 40

def readSectionHeader (mem : Mem) (sh : Nat) : SectionHeader where
  name := load32 mem sh
  addr := load32 mem (sh + 12)
  size := load32 mem (sh + 20)

/-- The fields of `elf_symbol_t` that are read. -/
structure ElfSymbol where
  name : Nat
  value : Nat
  size : Nat
  info : Nat
  deriving DecidableEq, Repr

abbrev elfSymbolSize : Nat := 16

def readElfSymbol (mem : Mem) (symbol : Nat) : ElfSymbol where
  name := load32 mem symbol
  value := load32 mem (uint32 (symbol + 4))
  size := load32 mem (uint32 (symbol + 8))
  info := (mem (uint32 (symbol + 12))).toNat

def elf32StType (info : Nat) : Nat := info &&& 0xF

/-- `elf_t` -/
structure Elf where
  symtab : Nat
  symtabsz : Nat
  strtab : Nat
  strtabsz : Nat
  deriving DecidableEq, Repr

/-! ## Memory with page faults -/

/-- Why a panic does not go on. -/
inductive TraceStop where
  | pageFault (address : Nat)
  /-- A chain of frames without an end. -/
  | spin
  /-- A string with more characters than an `int` counts. -/
  | endless
  /-- A line that does not fit into `buff`. -/
  | overrun
  /-- `printk` is called in a way that C leaves open. -/
  | undefined
  deriving DecidableEq, Repr

/-- What the kernel sees at its virtual addresses. -/
structure AddressSpace where
  mem : Mem
  mapped : Nat → Bool
  bounded : ∀ address, mapped address = true → address < 4294967296

namespace AddressSpace

variable (space : AddressSpace)

def byte (address : Nat) : Except TraceStop UInt8 :=
  if space.mapped address then .ok (space.mem address)
  else .error (.pageFault address)

def word (address : Nat) : Except TraceStop Nat :=
  match (List.range' address 4).find? fun x => !space.mapped x with
  | some hole => .error (.pageFault hole)
  | none => .ok (load32 space.mem address)

def WordMapped (address : Nat) : Prop :=
  ∀ x ∈ List.range' address 4, space.mapped x = true

instance (address : Nat) : Decidable (space.WordMapped address) :=
  List.decidableBAll _ _

end AddressSpace

/-! ## The functions -/

/-- `strcmp` with a string literal for `str2`, whose NUL comes at its end. -/
def strcmp (mem : Mem) : Nat → List UInt8 → Int
  | str1, [] => (mem str1).toNat
  | str1, char :: str2 =>
      if mem str1 ≠ 0 ∧ mem str1 = char then strcmp mem (uint32 (str1 + 1)) str2
      else (mem str1).toNat - char.toNat

def sectionHeader (mem : Mem) (mb : MultibootElf) (i : Nat) : SectionHeader :=
  readSectionHeader mem (uint32 (mb.addr + sectionHeaderSize * i))

/-- `name` of the loop in `elf_from_multiboot` -/
def sectionName (shstrtab : Nat) (sh : SectionHeader) : Nat :=
  uint32 (uint32 (shstrtab + sh.name) + pageOffset)

/-- The body of the loop over the sections. -/
def elfSection (mem : Mem) (shstrtab : Nat) (elf : Elf) (sh : SectionHeader) :
    Elf :=
  let name := sectionName shstrtab sh
  let elf :=
    if strcmp mem name (literal ".strtab") = 0 then
      { elf with
        strtab := uint32 (sh.addr + pageOffset)
        strtabsz := sh.size }
    else elf
  if strcmp mem name (literal ".symtab") = 0 then
    -- the cast comes before the sum: `PAGE_OFFSET` counts symbols
    { elf with
      symtab := uint32 (sh.addr + elfSymbolSize * pageOffset)
      symtabsz := sh.size }
  else elf

/-- `elf_from_multiboot(mb)`; the local `elf` starts out as `leftover`. -/
def elfFromMultiboot (mem : Mem) (mb : MultibootElf) (leftover : Elf) : Elf :=
  let shstrtab := (sectionHeader mem mb mb.shndx).addr
  (List.range mb.num).foldl
    (fun elf i => elfSection mem shstrtab elf (sectionHeader mem mb i)) leftover

def elfSymbol (mem : Mem) (symtab i : Nat) : ElfSymbol :=
  readElfSymbol mem (uint32 (symtab + elfSymbolSize * i))

def Elf.symbol (elf : Elf) (i : Nat) : Nat :=
  uint32 (elf.symtab + elfSymbolSize * i)

def Elf.count (elf : Elf) : Nat := elf.symtabsz / elfSymbolSize

section Lookup

variable (space : AddressSpace)

/-- The tests of a round of `elf_lookup_symbol`, field by field. -/
def symbolTests (addr symbol : Nat) : Except TraceStop Bool := do
  let info ← space.byte (uint32 (symbol + 12))
  if elf32StType info.toNat ≠ 0x2 then return false
  let value ← space.word (uint32 (symbol + 4))
  if addr < value then return false
  let size ← space.word (uint32 (symbol + 8))
  return addr < uint32 (value + size)

/-- The loop of `elf_lookup_symbol` from round `i` on. -/
def lookupLoop (addr : Nat) (elf : Elf) : Nat → Nat → Except TraceStop Nat
  | 0, _ => .ok 0
  | rounds + 1, i => do
      if ← symbolTests space addr (elf.symbol i) then
        let name ← space.word (elf.symbol i)
        return uint32 (elf.strtab + name)
      else lookupLoop addr elf rounds (i + 1)

/-- `elf_lookup_symbol(addr, elf)`; 0 is the null pointer. -/
def lookupSymbol (addr : Nat) (elf : Elf) : Except TraceStop Nat :=
  lookupLoop space addr elf elf.count 0

end Lookup

/-! ## What they compute -/

/-- The NUL-terminated string `text` lies at the address. -/
def StringAt (mem : Mem) : Nat → List UInt8 → Prop
  | address, [] => mem address = 0
  | address, char :: text =>
      mem address = char ∧ StringAt mem (uint32 (address + 1)) text

instance decidableStringAt (mem : Mem) :
    (address : Nat) → (text : List UInt8) → Decidable (StringAt mem address text)
  | address, [] => inferInstanceAs (Decidable (mem address = 0))
  | address, char :: text =>
      have := decidableStringAt mem (uint32 (address + 1)) text
      inferInstanceAs (Decidable (mem address = char ∧ StringAt mem _ text))

theorem strcmp_eq_zero_iff {mem : Mem} {str1 : Nat} {str2 : List UInt8}
    (proper : 0 ∉ str2) :
    strcmp mem str1 str2 = 0 ↔ StringAt mem str1 str2 := by
  induction str2 generalizing str1 with
  | nil =>
      simp only [strcmp, StringAt, ← UInt8.toNat_inj]
      simp
  | cons char str2 induction =>
      rw [List.mem_cons, not_or] at proper
      rw [strcmp, StringAt]
      split
      · rename_i same
        rw [induction proper.2]
        simp [same.2]
      · rename_i other
        have differ : (mem str1).toNat ≠ char.toNat := by
          intro same
          have same := UInt8.toNat_inj.mp same
          exact other ⟨same ▸ Ne.symm proper.1, same⟩
        constructor
        · intro zero
          omega
        · intro found
          exact absurd (congrArg UInt8.toNat found.1) differ

end MiniOS
