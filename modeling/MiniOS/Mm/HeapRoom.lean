import MiniOS.Mm.HeapRun

/-!
# Room above the heap

The frames of the heap are frames of memory that neither the image's page
tables nor page 0 use.  So the heap never comes near the end of the address
space, and no small request can wrap.
-/

namespace MiniOS

open ByteMemory Tiling

/-- The pages of physical memory that are never in the heap: page 0, the
directory `pgd_kern` and the tables `pte_kern`. -/
def reservedPages (img : KernelImage) : List Nat :=
  0 :: (img.pgdKern - pageOffset) / pageSize ::
    List.range' ((img.pteKern - pageOffset) / pageSize) pteCount

theorem reservedPages_length (img : KernelImage) :
    (reservedPages img).length = 130 := by
  rw [reservedPages, List.length_cons, List.length_cons, List.length_range']

theorem reservedPages_nodup (img : KernelImage) :
    (reservedPages img).Nodup := by
  have pgdLower := img.pgd_lower
  have pteLower := img.pte_lower
  have pgdAligned := img.pgd_aligned
  have pteAligned := img.pte_aligned
  have separate := img.pgd_pte
  have tables : (List.range' ((img.pteKern - pageOffset) / pageSize)
      pteCount).Nodup := List.nodup_range' 1
  simp only [reservedPages, List.nodup_cons, List.mem_cons, List.mem_range'_1]
  refine ⟨?_, ?_, tables⟩ <;> simp only [pageOffset, pageSize, pteCount] at * <;>
    omega

theorem reservedPages_lt (img : KernelImage) :
    ∀ page ∈ reservedPages img, page < pageMaxSize := by
  have pgdUpper := img.pgd_upper
  have pteUpper := img.pte_upper
  have kernEnd := img.kernEnd_upper
  intro page member
  simp only [reservedPages, List.mem_cons, List.mem_range'_1] at member
  simp only [pageOffset, pageSize, pteCount, pmmMaxSize, pageMaxSize,
    pmmPageSize] at *
  omega

theorem UsableFrame.not_reserved {img : KernelImage} {frame : Nat}
    (usable : UsableFrame img frame) :
    frame / pageSize ∉ reservedPages img := by
  have pgdLower := img.pgd_lower
  have pteLower := img.pte_lower
  have pgdAligned := img.pgd_aligned
  have pteAligned := img.pte_aligned
  obtain ⟨⟨aligned, lower, upper⟩, directory, tables⟩ := usable
  simp only [reservedPages, List.mem_cons, List.mem_range'_1]
  simp only [Apart, pageOffset, pageSize, pteCount] at *
  omega

/-- There are fewer usable frames than pages of physical memory. -/
theorem usable_frames_few {img : KernelImage} {frames : List Nat}
    (usable : ∀ frame ∈ frames, UsableFrame img frame)
    (distinct : frames.Nodup) : frames.length + 130 ≤ pageMaxSize := by
  have nodup : (frames.map (· / pageSize)).Nodup := by
    apply List.Nodup.map_on _ distinct
    intro left leftMember right rightMember same
    have leftAligned := (usable left leftMember).isFrame.1
    have rightAligned := (usable right rightMember).isFrame.1
    simp only [pageSize] at *
    omega
  have apart : (frames.map (· / pageSize) ++ reservedPages img).Nodup := by
    rw [List.nodup_append]
    refine ⟨nodup, reservedPages_nodup img, ?_⟩
    intro page inFrames other inReserved same
    obtain ⟨frame, member, rfl⟩ := List.mem_map.mp inFrames
    exact (usable frame member).not_reserved (same ▸ inReserved)
  have subset : frames.map (· / pageSize) ++ reservedPages img ⊆
      List.range pageMaxSize := by
    intro page member
    rw [List.mem_range]
    rcases List.mem_append.mp member with inFrames | inReserved
    · obtain ⟨frame, inList, rfl⟩ := List.mem_map.mp inFrames
      have upper := (usable frame inList).isFrame.2.2
      simp only [pageSize, pageMaxSize, pmmMaxSize, pmmPageSize] at *
      omega
    · exact reservedPages_lt img page inReserved
  have bound := (List.subperm_of_subset apart subset).length_le
  rwa [List.length_append, List.length_map, reservedPages_length,
    List.length_range] at bound

theorem HeapPaging.heapMax_reserve {img : KernelImage} {frames : List Nat}
    {k : Kernel} (paging : HeapPaging img frames k) :
    k.heapMax + 130 * pageSize ≤ 4294967296 := by
  have few := usable_frames_few paging.usable paging.distinct
  have account := paging.account.length_eq
  have aligned := paging.heapMax_aligned
  have lower := paging.heapMax_lower
  simp only [List.length_append, heapFrames, heapPages, List.length_map,
    List.length_range] at account
  simp only [pageSize, pageMaxSize, pmmMaxSize, pmmPageSize, heapStart] at *
  omega

theorem HeapState.small_request {img : KernelImage} {frames : List Nat}
    {k : Kernel} {chunks : List Segment}
    (state : HeapState img frames k chunks) {n : Nat}
    (small : n + headerSize < 130 * pageSize) :
    SafeRequest img.pgdKern k n := by
  have room := state.paging.heapMax_reserve
  have fits := state.fits
  right
  rw [state.heapEnd_eq]
  simp only [pageSize] at *
  omega

end MiniOS
