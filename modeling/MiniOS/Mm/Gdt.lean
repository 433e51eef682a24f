import Mathlib.Tactic.IntervalCases

/-!
# Segment descriptors and the TSS (`gdt.c`)

A descriptor scatters a base of 32 bits, a limit of 20 bits, an access byte and
four flags over its eight bytes.  `gdt_set_gate` fills the fields from words,
and `decode` reads them as the processor does.
-/

namespace MiniOS

/-- `gdt_entry_t` -/
structure GdtEntry where
  limitLow : BitVec 16
  baseLow : BitVec 16
  baseMiddle : BitVec 8
  access : BitVec 8
  granularity : BitVec 8
  baseHigh : BitVec 8
  deriving DecidableEq, Repr

/-- `tss_entry_t` -/
structure TssEntry where
  prevTss : BitVec 32 := 0
  esp0 : BitVec 32 := 0
  ss0 : BitVec 32 := 0
  esp1 : BitVec 32 := 0
  ss1 : BitVec 32 := 0
  esp2 : BitVec 32 := 0
  ss2 : BitVec 32 := 0
  cr3 : BitVec 32 := 0
  eip : BitVec 32 := 0
  eflags : BitVec 32 := 0
  eax : BitVec 32 := 0
  ecx : BitVec 32 := 0
  edx : BitVec 32 := 0
  ebx : BitVec 32 := 0
  esp : BitVec 32 := 0
  ebp : BitVec 32 := 0
  esi : BitVec 32 := 0
  edi : BitVec 32 := 0
  es : BitVec 32 := 0
  cs : BitVec 32 := 0
  ss : BitVec 32 := 0
  ds : BitVec 32 := 0
  fs : BitVec 32 := 0
  gs : BitVec 32 := 0
  ldt : BitVec 32 := 0
  trap : BitVec 16 := 0
  iomapBase : BitVec 16 := 0
  deriving DecidableEq, Repr

/-- `sizeof(tss_entry_t)`: 25 words and two half-words, packed. -/
abbrev tssSize : Nat := 25 * 4 + 2 * 2

/-- `GDT_LENGTH` -/
abbrev gdtLength : Nat := 6

/-- The static variables of `gdt.c`. -/
structure Gdt where
  gdtEntries : Vector GdtEntry gdtLength
  tssEntry : TssEntry

/-- The fields that `gdt_set_gate` stores. -/
def gdtEntry (base limit : BitVec 32) (access gran : BitVec 8) : GdtEntry where
  baseLow := (base &&& 0xFFFF).setWidth 16
  baseMiddle := (base >>> 16 &&& 0xFF).setWidth 8
  baseHigh := (base >>> 24 &&& 0xFF).setWidth 8
  limitLow := (limit &&& 0xFFFF).setWidth 16
  granularity := (limit >>> 16 &&& 0x0F).setWidth 8 ||| (gran &&& 0xF0)
  access := access

/-- `static void gdt_set_gate(int32_t num, uint32_t base, uint32_t limit,
uint8_t access, uint8_t gran)` -/
def gdtSetGate (num : Fin gdtLength) (base limit : BitVec 32)
    (access gran : BitVec 8) (g : Gdt) : Gdt :=
  { g with
    gdtEntries := g.gdtEntries.set num (gdtEntry base limit access gran) }

/-- `static void write_tss(uint32_t num, uint16_t ss0, uint32_t esp0)` with
`tss_entry` at `tssAddress` -/
def writeTss (tssAddress : BitVec 32) (num : Fin gdtLength) (ss0 : BitVec 16)
    (esp0 : BitVec 32) (g : Gdt) : Gdt :=
  let base := tssAddress
  let limit := base + BitVec.ofNat 32 tssSize
  let g := gdtSetGate num base limit 0xE9 0x00 g
  { g with
    tssEntry := {
      ss0 := ss0.setWidth 32
      esp0 := esp0
      cs := 0x0b
      ss := 0x13
      ds := 0x13
      es := 0x13
      fs := 0x13
      gs := 0x13 } }

/-! ## What the processor reads -/

/-- A segment descriptor put together from its fields. -/
structure Descriptor where
  base : BitVec 32
  limit : BitVec 20
  access : BitVec 8
  flags : BitVec 4
  deriving DecidableEq, Repr

def GdtEntry.decode (entry : GdtEntry) : Descriptor where
  base := entry.baseHigh ++ entry.baseMiddle ++ entry.baseLow
  limit := entry.granularity.extractLsb' 0 4 ++ entry.limitLow
  access := entry.access
  flags := entry.granularity.extractLsb' 4 4

/-- The limit counts pages of 4096 bytes. -/
def Descriptor.granular (descriptor : Descriptor) : Bool :=
  descriptor.flags.getLsbD 3

/-- The offset of the last byte of the segment. -/
def Descriptor.lastOffset (descriptor : Descriptor) : Nat :=
  if descriptor.granular then descriptor.limit.toNat * 4096 + 4095
  else descriptor.limit.toNat

section Fields

/-- A shifted and masked word, stored in a field as wide as the mask. -/
theorem field_eq (value : BitVec 32) (start len : Nat) (narrow : len ≤ 32) :
    (value >>> start &&& (BitVec.allOnes len).setWidth 32).setWidth len =
      value.extractLsb' start len := by
  ext i bound
  have inWord : i < 32 := by omega
  simp [inWord, bound]

theorem base_decode (base : BitVec 32) :
    base.extractLsb' 24 8 ++ base.extractLsb' 16 8 ++ base.extractLsb' 0 16 =
      base := by
  have upper : base.extractLsb' 24 8 ++ base.extractLsb' 16 8 =
      base.extractLsb' 16 16 :=
    BitVec.extractLsb'_append_extractLsb'_eq_extractLsb' rfl
  rw [upper]
  exact (BitVec.extractLsb'_append_extractLsb'_eq_extractLsb' rfl).trans
    BitVec.extractLsb'_eq_self

/-- The lower half of `granularity` has the upper bits of the limit. -/
theorem granularity_limit (limit : BitVec 32) (gran : BitVec 8) :
    ((limit >>> 16 &&& 0x0F).setWidth 8 ||| (gran &&& 0xF0)).extractLsb' 0 4 =
      limit.extractLsb' 16 4 := by
  ext i bound
  interval_cases i <;> simp

theorem granularity_flags (limit : BitVec 32) (gran : BitVec 8) :
    ((limit >>> 16 &&& 0x0F).setWidth 8 ||| (gran &&& 0xF0)).extractLsb' 4 4 =
      gran.extractLsb' 4 4 := by
  ext i bound
  interval_cases i <;> simp

end Fields

/-- What `gdt_set_gate` stores has the base, the low 20 bits of the limit, the
access byte and the upper four bits of `gran`. -/
theorem gdtEntry_decode (base limit : BitVec 32) (access gran : BitVec 8) :
    (gdtEntry base limit access gran).decode =
      ⟨base, limit.setWidth 20, access, gran.extractLsb' 4 4⟩ := by
  have high : (base >>> 24 &&& 0xFF).setWidth 8 = base.extractLsb' 24 8 :=
    field_eq base 24 8 (by decide)
  have middle : (base >>> 16 &&& 0xFF).setWidth 8 = base.extractLsb' 16 8 :=
    field_eq base 16 8 (by decide)
  have low : (base &&& 0xFFFF).setWidth 16 = base.extractLsb' 0 16 :=
    field_eq base 0 16 (by decide)
  have limitLow : (limit &&& 0xFFFF).setWidth 16 = limit.extractLsb' 0 16 :=
    field_eq limit 0 16 (by decide)
  have limitEq : limit.extractLsb' 16 4 ++ limit.extractLsb' 0 16 =
      limit.setWidth 20 := by
    rw [BitVec.setWidth_eq_extractLsb' (by decide)]
    exact BitVec.extractLsb'_append_extractLsb'_eq_extractLsb' rfl
  simp only [gdtEntry, GdtEntry.decode, Descriptor.mk.injEq]
  refine ⟨?_, ?_, trivial, granularity_flags limit gran⟩
  · rw [high, middle, low, base_decode]
  · rw [granularity_limit, limitLow, limitEq]

/-- The descriptor at an index of the table. -/
def Gdt.descriptor (g : Gdt) (num : Fin gdtLength) : Descriptor :=
  g.gdtEntries[num].decode

theorem gdtSetGate_descriptor (num other : Fin gdtLength)
    (base limit : BitVec 32) (access gran : BitVec 8) (g : Gdt) :
    (gdtSetGate num base limit access gran g).descriptor other =
      if other = num then
        ⟨base, limit.setWidth 20, access, gran.extractLsb' 4 4⟩
      else g.descriptor other := by
  unfold Gdt.descriptor gdtSetGate
  by_cases same : other = num
  · subst same
    rw [if_pos rfl, ← gdtEntry_decode base limit access gran]
    simp
  · have differ : (num : Nat) ≠ other := fun equal => same (Fin.ext equal.symm)
    rw [if_neg same]
    simp [differ]

/-! ## The TSS descriptor -/

/-- The descriptor that `write_tss` stores for `tss_entry` at `tssAddress`. -/
def tssDescriptor (tssAddress : BitVec 32) (num : Fin gdtLength)
    (ss0 : BitVec 16) (esp0 : BitVec 32) (g : Gdt) : Descriptor :=
  (writeTss tssAddress num ss0 esp0 g).descriptor num

theorem tssDescriptor_eq (tssAddress : BitVec 32) (num : Fin gdtLength)
    (ss0 : BitVec 16) (esp0 : BitVec 32) (g : Gdt) :
    tssDescriptor tssAddress num ss0 esp0 g =
      ⟨tssAddress, (tssAddress + BitVec.ofNat 32 tssSize).setWidth 20, 0xE9,
        0⟩ :=
  (gdtSetGate_descriptor num num _ _ _ _ g).trans (if_pos rfl)

/-- The segment is the TSS: it begins at `tss_entry` and ends with its last
byte, and access byte and flags are the ones given. -/
structure CoversTss (tssAddress : BitVec 32) (descriptor : Descriptor) :
    Prop where
  base : descriptor.base = tssAddress
  access : descriptor.access = 0xE9
  flags : descriptor.flags = 0
  byteGranular : descriptor.granular = false
  lastOffset : descriptor.lastOffset = tssSize - 1

theorem tssDescriptor_lastOffset (tssAddress : BitVec 32)
    (num : Fin gdtLength) (ss0 : BitVec 16) (esp0 : BitVec 32) (g : Gdt) :
    (tssDescriptor tssAddress num ss0 esp0 g).lastOffset =
      (tssAddress.toNat + tssSize) % 1048576 := by
  rw [tssDescriptor_eq]
  simp [Descriptor.lastOffset, Descriptor.granular]

/-- `write_tss` takes the address of the end for the limit, so that only the
low 20 bits of the address decide: the segment is the TSS when they are all
ones. -/
theorem tssDescriptor_covers_iff (tssAddress : BitVec 32)
    (num : Fin gdtLength) (ss0 : BitVec 16) (esp0 : BitVec 32) (g : Gdt) :
    CoversTss tssAddress (tssDescriptor tssAddress num ss0 esp0 g) ↔
      tssAddress.toNat % 1048576 = 1048575 := by
  have limit := tssDescriptor_lastOffset tssAddress num ss0 esp0 g
  simp only [tssSize] at limit
  constructor
  · intro covers
    have last := covers.lastOffset
    rw [limit] at last
    simp only [tssSize] at last
    omega
  · intro ones
    have whole := tssDescriptor_eq tssAddress num ss0 esp0 g
    refine ⟨by rw [whole], by rw [whole], by rw [whole], ?_, ?_⟩
    · rw [whole]
      simp [Descriptor.granular]
    · rw [limit]
      simp only [tssSize]
      omega

/-- With `tss_entry` at `0xC01FFFA0` the limit is 8. -/
theorem tssDescriptor_short :
    ¬ ∀ (tssAddress : BitVec 32) (num : Fin gdtLength) (ss0 : BitVec 16)
      (esp0 : BitVec 32) (g : Gdt),
      CoversTss tssAddress (tssDescriptor tssAddress num ss0 esp0 g) := by
  intro covers
  let blank : Gdt := ⟨Vector.replicate gdtLength ⟨0, 0, 0, 0, 0, 0⟩, {}⟩
  have last := (covers 0xC01FFFA0 5 0x10 0 blank).lastOffset
  rw [tssDescriptor_lastOffset] at last
  simp only [tssSize] at last
  exact absurd last (by decide)

end MiniOS
