import MiniOS.Mm.PageMap

/-!
# Kernel image and the page tables of `init_vmm`

The linker places the directory `pgd_kern` and the tables `pte_kern` inside
the image; `init_vmm` fills them so that the direct map holds and everything
else, the heap window included, is unmapped.
-/

namespace MiniOS

open ByteMemory

/-- Virtual addresses of `pgd_kern`, `pte_kern` and `kern_end`. -/
structure KernelImage where
  pgdKern : Nat
  pteKern : Nat
  kernEnd : Nat
  pgd_aligned : pgdKern % pageSize = 0
  pte_aligned : pteKern % pageSize = 0
  pgd_lower : pageOffset + pageSize ≤ pgdKern
  pte_lower : pageOffset + pageSize ≤ pteKern
  pgd_upper : pgdKern + pageSize ≤ kernEnd
  pte_upper : pteKern + pteCount * pageSize ≤ kernEnd
  pgd_pte : pgdKern + pageSize ≤ pteKern ∨
    pteKern + pteCount * pageSize ≤ pgdKern
  kernEnd_upper : kernEnd ≤ pageOffset + pmmMaxSize

namespace KernelImage

variable (img : KernelImage)

/-- The directory and the tables are zero before `init_vmm`. -/
def BssZero (mem : Mem) : Prop :=
  (∀ x, img.pgdKern - pageOffset ≤ x →
    x < img.pgdKern - pageOffset + pageSize → mem x = 0) ∧
  (∀ x, img.pteKern - pageOffset ≤ x →
    x < img.pteKern - pageOffset + pteCount * pageSize → mem x = 0)

def kernelPde (index : Nat) : Nat :=
  if 768 ≤ index ∧ index < 896 then
    img.pteKern - pageOffset + pageSize * (index - 768) + 3
  else 0

end KernelImage

def directPte (va : Nat) : Nat :=
  if pageOffset + pageSize ≤ va ∧ va < pageOffset + pmmMaxSize then
    roundDown (va - pageOffset) pageSize + 3
  else 0

theorem load32_of_zero {mem : Mem} {address : Nat}
    (zero : ∀ x, address ≤ x → x < address + 4 → mem x = 0) :
    load32 mem address = 0 := by
  have blank : load32 mem address = load32 (fun _ => 0) address :=
    load32_congr zero
  rw [blank]
  rfl

namespace KernelImage

variable {img : KernelImage} {mem : Mem}

theorem pdeOf_initVmm (zero : img.BssZero mem) : ∀ i < pgdSize,
    pdeOf img.pgdKern (initVmm img.pgdKern img.pteKern mem) i =
      img.kernelPde i := by
  intro i bound
  have pgdLower := img.pgd_lower
  have pteLower := img.pte_lower
  have pteAligned := img.pte_aligned
  have pteUpper := img.pte_upper
  have separate := img.pgd_pte
  have upper := img.kernEnd_upper
  have first : pgdIndex pageOffset = 768 := by decide
  rw [pdeOf, initVmm, load32_storeRange_disjoint _ _ (by grind), first]
  by_cases inside : 768 ≤ i ∧ i < 896
  · rw [load32_storeRange_inside _ _ inside.1 (by grind), kernelPde,
      if_pos inside]
    have address : img.pteKern + 4 * pteSize * (i - 768) - pageOffset =
        img.pteKern - pageOffset + pageSize * (i - 768) := by
      grind
    have aligned : (img.pteKern - pageOffset + pageSize * (i - 768)) %
        pageSize = 0 := by
      grind
    rw [address, uint32_of_lt (by grind), Nat.or_assoc,
      or_flags aligned (by decide)]
    exact Nat.mod_eq_of_lt (by grind)
  · rw [load32_storeRange_disjoint _ _ (by grind), kernelPde, if_neg inside]
    apply load32_of_zero
    intro x lower upper
    exact zero.1 x (by omega) (by grind)

theorem tableOf_initVmm (zero : img.BssZero mem) {i : Nat}
    (lower : 768 ≤ i) (upper : i < 896) :
    tableOf img.pgdKern (initVmm img.pgdKern img.pteKern mem) i =
      img.pteKern - pageOffset + pageSize * (i - 768) := by
  have pteAligned := img.pte_aligned
  have pteLower := img.pte_lower
  rw [tableOf, pdeOf_initVmm zero i (by simp only [pgdSize, pageSize]; omega),
    kernelPde, if_pos ⟨lower, upper⟩]
  apply roundDown_add_flags _ (by decide)
  simp only [pageSize, pageOffset] at *
  omega

theorem directPte_page {va : Nat} (small : va < 4294967296) :
    directPte va =
      if 768 ≤ pgdIndex va ∧ pgdIndex va < 896 ∧
          1024 * (pgdIndex va - 768) + pteIndex va ≠ 0 then
        (1024 * (pgdIndex va - 768) + pteIndex va) * pageSize + 3
      else 0 := by
  rw [directPte]
  simp only [pgdIndex_eq, pteIndex_eq, roundDown, pageSize, pageOffset,
    pmmMaxSize]
  split <;> split <;> omega

theorem pteOf_initVmm (zero : img.BssZero mem) {va : Nat}
    (small : va < 4294967296) :
    pteOf img.pgdKern (initVmm img.pgdKern img.pteKern mem) va =
      directPte va := by
  have indexBound := pgdIndex_lt va
  have slotBound := pteIndex_lt va
  rw [pteOf, directPte_page small]
  by_cases inside : 768 ≤ pgdIndex va ∧ pgdIndex va < 896
  · have pteLower := img.pte_lower
    have pteUpper := img.pte_upper
    have separate := img.pgd_pte
    have upper := img.kernEnd_upper
    have tableEq := tableOf_initVmm zero inside.1 inside.2
    have present :
        tableOf img.pgdKern (initVmm img.pgdKern img.pteKern mem)
          (pgdIndex va) ≠ 0 := by
      rw [tableEq]
      simp only [pageSize, pageOffset] at *
      omega
    rw [if_neg present, tableEq]
    have slot : img.pteKern - pageOffset + pageSize * (pgdIndex va - 768) +
        4 * pteIndex va = img.pteKern - pageOffset +
          4 * (1024 * (pgdIndex va - 768) + pteIndex va) := by
      simp only [pageSize]
      omega
    rw [slot]
    have small : 1024 * (pgdIndex va - 768) + pteIndex va < 131072 := by
      omega
    generalize 1024 * (pgdIndex va - 768) + pteIndex va = n at small ⊢
    rw [initVmm]
    by_cases first : n = 0
    · subst n
      have index : pgdIndex pageOffset = 768 := by decide
      rw [if_neg (by omega), Nat.mul_zero, Nat.add_zero,
        load32_storeRange_disjoint _ _ (by omega),
        load32_storeRange_disjoint _ _ (by rw [index]; grind)]
      apply load32_of_zero
      intro x lower upper
      exact zero.2 x (by omega) (by simp only [pteCount, pageSize]; omega)
    · rw [if_pos ⟨inside.1, inside.2, first⟩,
        load32_storeRange_inside _ _ (by omega)
          (by simp only [pteCount, pteSize, pageSize]; omega)]
      have aligned : n * pageSize % pageSize = 0 := Nat.mul_mod_left ..
      have shift : n <<< 12 = n * pageSize := by
        simp [Nat.shiftLeft_eq, pageSize]
      rw [shift, Nat.or_assoc, or_flags aligned (by decide)]
      exact Nat.mod_eq_of_lt (by grind)
  · have missing :
        tableOf img.pgdKern (initVmm img.pgdKern img.pteKern mem)
          (pgdIndex va) = 0 := by
      apply tableOf_eq_zero_of_pdeOf
      rw [pdeOf_initVmm zero _ indexBound, kernelPde, if_neg inside]
    rw [if_pos missing, if_neg fun page => inside ⟨page.1, page.2.1⟩]

end KernelImage

end MiniOS
