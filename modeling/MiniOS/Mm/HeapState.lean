import MiniOS.Mm.HeapOps

/-!
# States of the heap

`HeapState` is the invariant of `heap.c`: the page tables are in order, the
headers hold a canonical cut of the heap, and `heap_max` is at most a page
above its end.  This module shows that the cut places its headers on mapped
pages, apart from each other and from the payload.
-/

namespace MiniOS

open ByteMemory Tiling

/-- The chunks tile the mapped part of the heap up to their end. -/
structure Placed (k : Kernel) (chunks : List Segment) : Prop where
  tiles : Tiles heapStart chunks (endOf heapStart chunks)
  large : ∀ chunk ∈ chunks, headerSize ≤ chunk.len
  fits : endOf heapStart chunks ≤ k.heapMax
  upper : k.heapMax < 4294967296

structure HeapState (img : KernelImage) (frames : List Nat) (k : Kernel)
    (chunks : List Segment) : Prop where
  paging : HeapPaging img frames k
  list : ChunkList (fieldOf (heapView img k)) k.heapFirst chunks
  canonical : Canonical headerSize heapStart chunks
  fits : endOf heapStart chunks ≤ k.heapMax
  tight : k.heapMax ≤ endOf heapStart chunks + pageSize

/-- The list lies below `heap_max`, however far that is above its end. -/
structure ReadableList (img : KernelImage) (frames : List Nat) (k : Kernel)
    (chunks : List Segment) : Prop where
  paging : HeapPaging img frames k
  list : ChunkList (fieldOf (heapView img k)) k.heapFirst chunks
  placed : Placed k chunks

/-- The bytes of a chunk behind its header. -/
def InPayload (chunk : Segment) (va : Nat) : Prop :=
  chunk.start + headerSize ≤ va ∧ va < chunk.stop

namespace Placed

variable {k : Kernel} {chunks : List Segment} {chunk : Segment}

theorem bounds (placed : Placed k chunks) (chunk : Segment)
    (member : chunk ∈ chunks) :
    heapStart ≤ chunk.start ∧ chunk.start + headerSize ≤ chunk.stop ∧
      chunk.stop ≤ k.heapMax := by
  have inside := placed.tiles.bounds member
  have large := placed.large chunk member
  refine ⟨inside.1, ?_, inside.2.trans placed.fits⟩
  unfold Segment.stop
  omega

theorem nodes (placed : Placed k chunks) :
    HeaderNodes k (chunks.map Segment.start) := by
  constructor
  · intro header member
    obtain ⟨chunk, inChunks, rfl⟩ := List.mem_map.mp member
    have bounds := placed.bounds _ inChunks
    exact ⟨bounds.1, bounds.2.1.trans bounds.2.2⟩
  · intro left leftMember right rightMember
    obtain ⟨leftChunk, leftIn, rfl⟩ := List.mem_map.mp leftMember
    obtain ⟨rightChunk, rightIn, rfl⟩ := List.mem_map.mp rightMember
    have leftBounds := placed.bounds _ leftIn
    have rightBounds := placed.bounds _ rightIn
    rcases placed.tiles.disjoint leftIn rightIn with same | before | behind
    · exact .inl (same ▸ rfl)
    · exact .inr (.inl (by omega))
    · exact .inr (.inr (by omega))

theorem proper (placed : Placed k chunks) : ProperNodes chunks := by
  constructor
  · unfold List.Nodup
    rw [List.pairwise_map]
    apply placed.tiles.ordered.imp_of_mem
    intro left right leftMember _ ordered
    have bounds := placed.bounds _ leftMember
    simp only [headerSize] at bounds
    omega
  · intro chunk member
    have bounds := placed.bounds _ member
    simp only [heapStart] at bounds
    omega
  · intro chunk member
    have bounds := placed.bounds _ member
    have upper := placed.upper
    unfold Segment.stop at bounds
    simp only [heapStart] at bounds
    omega

theorem list_of_view {view view' : Mem} {first : Nat}
    (placed : Placed k chunks) (list : ChunkList (fieldOf view) first chunks)
    (same : ∀ va < endOf heapStart chunks, view' va = view va) :
    ChunkList (fieldOf view') first chunks := by
  apply list.congr
  intro field chunk member
  have inside := placed.tiles.bounds member
  have large := placed.large chunk member
  apply load32_congr
  intro x lower upper
  apply same
  unfold Segment.stop at inside
  simp only [headerSize] at large
  cases field <;> simp only [HeaderField.offset] at lower upper <;> omega

/-- The length of the list leaves a walk rounds to spare. -/
theorem length_lt (placed : Placed k chunks) :
    chunks.length < 4294967296 := by
  have fits := placed.fits
  have upper := placed.upper
  have bound := placed.tiles.length_le placed.large
  simp only [heapStart, headerSize] at *
  omega

theorem payload_outside (placed : Placed k chunks) (member : chunk ∈ chunks)
    {va : Nat} (inside : InPayload chunk va) :
    ∀ header ∈ chunks.map Segment.start,
      va < header ∨ header + headerSize ≤ va := by
  intro header headerMember
  obtain ⟨other, inChunks, rfl⟩ := List.mem_map.mp headerMember
  obtain ⟨lower, upper⟩ := inside
  have bounds := placed.bounds _ inChunks
  rcases placed.tiles.disjoint member inChunks with same | before | behind
  · subst same
    exact .inr lower
  · exact .inl (by omega)
  · exact .inr (by simp only [headerSize] at *; omega)

end Placed

theorem HeapPaging.heapMax_lt {img : KernelImage} {frames : List Nat}
    {k : Kernel} (paging : HeapPaging img frames k) :
    k.heapMax < 4294967296 :=
  Nat.lt_of_le_of_lt paging.heapMax_upper (by decide)

namespace HeapState

variable {img : KernelImage} {frames : List Nat} {k : Kernel}
variable {chunks : List Segment} {chunk : Segment}

theorem placed (state : HeapState img frames k chunks) : Placed k chunks :=
  ⟨state.canonical.tiles, state.canonical.large, state.fits,
    state.paging.heapMax_lt⟩

theorem readable (state : HeapState img frames k chunks) :
    ReadableList img frames k chunks :=
  ⟨state.paging, state.list, state.placed⟩

theorem boot (usable : ∀ frame ∈ frames, UsableFrame img frame)
    (distinct : frames.Nodup) (started : AfterBoot img frames k) :
    HeapState img frames k [] := by
  have paging := HeapPaging.boot usable distinct started
  obtain ⟨mem, k₀, _, _, _, maxEq, initialised⟩ := started
  cases initialised
  refine ⟨paging, ⟨rfl, trivial, by simp⟩, ?_, ?_, ?_⟩
  · exact ⟨rfl, by simp, .nil, by simp⟩
  · simp [maxEq]
  · simp [maxEq]

end HeapState

end MiniOS
