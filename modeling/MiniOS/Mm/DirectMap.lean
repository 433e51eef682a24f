import MiniOS.Mm.HeapGrowth

/-!
# The direct map

After `init_vmm` the software walk of `get_mapping` finds the first 512 MB of
physical memory, less page 0, at `pageOffset`, and nothing else.
-/

namespace MiniOS

open ByteMemory

/-- Where `pgd_kern` and `pte_kern` may lie: page aligned, apart from each
other, at physical addresses below 512 MB other than 0. -/
structure TablePlacement (pgdKern pteKern : Nat) : Prop where
  pgd_aligned : pgdKern % pageSize = 0
  pte_aligned : pteKern % pageSize = 0
  pgd_lower : pageOffset < pgdKern
  pte_lower : pageOffset < pteKern
  pgd_upper : pgdKern + pageSize ≤ pageOffset + pmmMaxSize
  pte_upper : pteKern + pteCount * pageSize ≤ pageOffset + pmmMaxSize
  separate : pgdKern + pageSize ≤ pteKern ∨
    pteKern + pteCount * pageSize ≤ pgdKern

/-- An image that ends with the direct map. -/
def TablePlacement.image {pgdKern pteKern : Nat}
    (placed : TablePlacement pgdKern pteKern) : KernelImage where
  pgdKern := pgdKern
  pteKern := pteKern
  kernEnd := pageOffset + pmmMaxSize
  pgd_aligned := placed.pgd_aligned
  pte_aligned := placed.pte_aligned
  pgd_lower := by
    have aligned := placed.pgd_aligned
    have lower := placed.pgd_lower
    simp only [pageSize, pageOffset] at *
    omega
  pte_lower := by
    have aligned := placed.pte_aligned
    have lower := placed.pte_lower
    simp only [pageSize, pageOffset] at *
    omega
  pgd_upper := placed.pgd_upper
  pte_upper := placed.pte_upper
  pgd_pte := placed.separate
  kernEnd_upper := Nat.le_refl _

section Filled

variable {img : KernelImage} {mem : Mem} {k : Kernel}

theorem getMapping_initVmm (zero : img.BssZero mem)
    (filled : k.mem = initVmm img.pgdKern img.pteKern mem) {va : Nat}
    (small : va < 4294967296) :
    getMapping img.pgdKern va k =
      .ok (if pageOffset + pageSize ≤ va ∧ va < pageOffset + pmmMaxSize then
        some (roundDown (va - pageOffset) pageSize) else none) k := by
  have tables : PageTables img.pgdKern k.mem [] := by
    rw [filled]
    exact HeapPaging.boot_tables (by simp) List.nodup_nil zero
  have entry : pteOf img.pgdKern k.mem va = directPte va := by
    rw [filled]
    exact KernelImage.pteOf_initVmm zero small
  rw [getMapping_eq tables, translation, entry, directPte]
  by_cases inside : pageOffset + pageSize ≤ va ∧
      va < pageOffset + pmmMaxSize
  · have aligned : roundDown (va - pageOffset) pageSize % pageSize = 0 :=
      roundDown_mod _ _
    rw [if_pos inside, if_pos inside, if_neg (by omega),
      roundDown_add_flags aligned (by decide)]
  · rw [if_neg inside, if_neg inside, if_pos rfl]

end Filled

/-- The kernel direct map is exact: for every address `get_mapping` gives the
frame `pageOffset` below it or, outside the direct map, in page 0 and in the
heap window, nothing. -/
theorem directMap_exact {pgdKern pteKern : Nat}
    (placed : TablePlacement pgdKern pteKern) {mem : Mem}
    (zero : placed.image.BssZero mem) {k : Kernel}
    (filled : k.mem = initVmm pgdKern pteKern mem) :
    (∀ va < 4294967296, getMapping pgdKern va k =
      .ok (if pageOffset + pageSize ≤ va ∧ va < pageOffset + pmmMaxSize then
        some (roundDown (va - pageOffset) pageSize) else none) k) ∧
    (∀ va < pageOffset + pageSize, getMapping pgdKern va k = .ok none k) ∧
    ∀ va, heapStart ≤ va → va < 4294967296 →
      getMapping pgdKern va k = .ok none k := by
  have exact (va : Nat) (small : va < 4294967296) :=
    getMapping_initVmm zero filled small
  refine ⟨exact, ?_, ?_⟩
  · intro va below
    have small : va < 4294967296 :=
      Nat.lt_trans below (by decide)
    have outside : ¬(pageOffset + pageSize ≤ va ∧
        va < pageOffset + pmmMaxSize) := by omega
    exact (exact va small).trans (by rw [if_neg outside])
  · intro va lower small
    have outside : ¬(pageOffset + pageSize ≤ va ∧
        va < pageOffset + pmmMaxSize) := by
      simp only [heapStart, pageOffset, pmmMaxSize] at *
      omega
    exact (exact va small).trans (by rw [if_neg outside])

/-- Directory and tables at 1 MB. -/
theorem directMap_exact_lowImage :
    getMapping 0xC0100000 0xC0345678
        ⟨initVmm 0xC0100000 0xC0101000 fun _ => 0, [], 0, 0, heapStart⟩ =
      .ok (some 0x345000)
        ⟨initVmm 0xC0100000 0xC0101000 fun _ => 0, [], 0, 0, heapStart⟩ := by
  have placed : TablePlacement 0xC0100000 0xC0101000 := by
    constructor <;> decide
  exact (directMap_exact placed ⟨fun _ _ _ => rfl, fun _ _ _ => rfl⟩ rfl).1
    0xC0345678 (by decide)

end MiniOS
