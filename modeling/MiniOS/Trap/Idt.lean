import MiniOS.Lib.X86
import MiniOS.Mm.Gdt

/-!
# Interrupt gates (`idt.c`)

`init_idt` clears the table and fills in a gate for every vector that has a
stub.
-/

namespace MiniOS

open X86

/-- `idt_entry_t` -/
structure IdtEntry where
  baseLow : BitVec 16
  sel : BitVec 16
  always0 : BitVec 8
  flags : BitVec 8
  baseHigh : BitVec 16
  deriving DecidableEq, Repr

abbrev IdtEntries := UInt8 → IdtEntry

/-- `static void idt_set_gate(uint8_t num, uint32_t base, uint16_t sel,
uint8_t flags)` -/
def idtSetGate (num : UInt8) (base : Word) (sel : BitVec 16)
    (flags : BitVec 8) (idtEntries : IdtEntries) : IdtEntries :=
  Function.update idtEntries num {
    baseLow := (base &&& 0xFFFF).setWidth 16
    baseHigh := (base >>> 16 &&& 0xFFFF).setWidth 16
    sel := sel
    always0 := 0
    flags := flags }

/-- The part of `void init_idt()` that fills the table; `isr` gives the
addresses of the stubs. -/
def initIdt (isr : UInt8 → Word) : IdtEntries :=
  let idtEntries : IdtEntries := fun _ => ⟨0, 0, 0, 0, 0⟩
  let idtEntries := ((List.range 48).map UInt8.ofNat).foldl
    (fun idtEntries n => idtSetGate n (isr n) 0x08 0x8E idtEntries) idtEntries
  idtSetGate 80 (isr 80) 0x08 0xEE idtEntries

/-- The gate that the processor reads from an entry, if it is present and an
interrupt gate of 32 bits. -/
def IdtEntry.gate (entry : IdtEntry) : Option Gate :=
  if entry.flags.getLsbD 7 ∧ entry.flags.extractLsb' 0 5 = 0xE then
    some ⟨entry.baseHigh ++ entry.baseLow, entry.sel⟩
  else none

def isrVectors : List UInt8 := (List.range 48).map UInt8.ofNat ++ [80]

theorem idtSetGate_gate (num : UInt8) (base : Word) (sel : BitVec 16)
    {flags : BitVec 8} (kernel : flags = 0x8E ∨ flags = 0xEE)
    (idtEntries : IdtEntries) :
    (idtSetGate num base sel flags idtEntries num).gate = some ⟨base, sel⟩ := by
  have high : (base >>> 16 &&& 0xFFFF).setWidth 16 = base.extractLsb' 16 16 :=
    field_eq base 16 16 (by decide)
  have low : (base &&& 0xFFFF).setWidth 16 = base.extractLsb' 0 16 :=
    field_eq base 0 16 (by decide)
  have whole : base.extractLsb' 16 16 ++ base.extractLsb' 0 16 = base := by
    rw [BitVec.extractLsb'_append_extractLsb'_eq_extractLsb' (by rfl)]
    exact BitVec.extractLsb'_eq_self
  have present : flags.getLsbD 7 ∧ flags.extractLsb' 0 5 = 0xE := by
    rcases kernel with rfl | rfl <;> decide
  rw [idtSetGate, Function.update_self, IdtEntry.gate, if_pos present, high,
    low, whole]

theorem idtSetGate_other {num other : UInt8} (different : other ≠ num)
    (base : Word) (sel : BitVec 16) (flags : BitVec 8)
    (idtEntries : IdtEntries) :
    idtSetGate num base sel flags idtEntries other = idtEntries other :=
  Function.update_of_ne different ..

theorem idtSetGates (isr : UInt8 → Word) (nums : List UInt8)
    (idtEntries : IdtEntries) (vector : UInt8) :
    (nums.foldl (fun idtEntries n => idtSetGate n (isr n) 0x08 0x8E idtEntries)
        idtEntries vector).gate =
      if vector ∈ nums then some ⟨isr vector, 0x08⟩
      else (idtEntries vector).gate := by
  induction nums generalizing idtEntries with
  | nil => simp
  | cons num nums induction =>
      rw [List.foldl_cons, induction]
      by_cases later : vector ∈ nums
      · simp [later]
      · by_cases here : vector = num
        · subst here
          simp [later, idtSetGate_gate]
        · simp [later, here, idtSetGate_other]

/-- The table leads every vector with a stub to it, and no other vector
anywhere. -/
theorem initIdt_gate (isr : UInt8 → Word) (vector : UInt8) :
    (initIdt isr vector).gate =
      if vector ∈ isrVectors then some ⟨isr vector, 0x08⟩ else none := by
  have empty : (⟨0, 0, 0, 0, 0⟩ : IdtEntry).gate = none := by decide
  by_cases systemCall : vector = 80
  · subst systemCall
    rw [initIdt, idtSetGate_gate _ _ _ (.inr rfl)]
    rfl
  · rw [initIdt, idtSetGate_other systemCall, idtSetGates, empty]
    simp [isrVectors, systemCall]

end MiniOS
