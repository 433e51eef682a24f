import MiniOS.Mm.HeapRun

/-!
# What the heap guarantees

In every state of every run: the blocks of clients are apart from each other
and from all headers and keep their bytes, the chunk list is well formed, and
heap, page tables and page stack share the frames of the start among them.
-/

namespace MiniOS

open ByteMemory Tiling

/-- The processor reads the same bytes of the block in both states. -/
def Kept (pgdKern : Nat) (k k' : Kernel) (block : Block) : Prop :=
  ∀ va, block.Covers va →
    ∃ byte, read8 pgdKern va k = .ok byte k ∧ read8 pgdKern va k' = .ok byte k'

def BlocksApart (left right : Block) : Prop :=
  ∀ va, left.Covers va → ¬right.Covers va

theorem LiveBlocks.pairwise {k : Kernel} {chunks : List Segment}
    {live : List Block} (held : LiveBlocks chunks live)
    (placed : Placed k chunks) : live.Pairwise BlocksApart := by
  obtain ⟨holds, used, blocks, inside⟩ := held
  have symmetric : ∀ {left right : Block}, BlocksApart left right →
      BlocksApart right left :=
    fun apart va covers other => apart va other covers
  have ordered : (usedOf chunks).Pairwise fun left right =>
      left.stop ≤ right.start ∨ right.stop ≤ left.start :=
    (placed.tiles.ordered.imp .inl).filter _
  have apart := (used.pairwise_iff (fun either => Or.symm either)).mpr ordered
  refine (blocks.pairwise_iff symmetric).mp ?_
  rw [List.pairwise_map] at apart ⊢
  refine apart.imp_of_mem ?_
  intro left right leftMember rightMember either va leftCovers rightCovers
  have leftInside := (inside left leftMember).payload leftCovers
  have rightInside := (inside right rightMember).payload rightCovers
  unfold InPayload at leftInside rightInside
  omega

/-- The chunk list as the kernel reads it, with the links of every chunk. -/
structure ListReads (pgdKern : Nat) (k : Kernel) (chunks : List Segment) :
    Prop where
  listed : chunkList pgdKern k = .ok chunks k
  next : ∀ front chunk back, chunks = front ++ chunk :: back →
    getNext pgdKern chunk.start k =
      .ok (if back = [] then 0 else chunk.stop) k
  prev : ∀ front chunk back, chunks = front ++ chunk :: back →
    getPrev pgdKern chunk.start k =
      .ok ((front.map Segment.start).getLastD 0) k

theorem ListReads.unique {pgdKern : Nat} {k : Kernel}
    {chunks others : List Segment} (reads : ListReads pgdKern k chunks)
    (listed : chunkList pgdKern k = .ok others k) : chunks = others := by
  have same := reads.listed.symm.trans listed
  injection same

namespace ReadableList

variable {img : KernelImage} {frames : List Nat} {k : Kernel}
variable {chunks : List Segment}

/-- The links of a chunk: `next` is its end, or null in the last chunk, and
`prev` the chunk before it. -/
theorem links (readable : ReadableList img frames k chunks)
    {front back : List Segment} {chunk : Segment}
    (split : chunks = front ++ chunk :: back) :
    getNext img.pgdKern chunk.start k =
        .ok (if back = [] then 0 else chunk.stop) k ∧
      getPrev img.pgdKern chunk.start k =
        .ok ((front.map Segment.start).getLastD 0) k := by
  have placed := readable.placed
  have holds := readable.paging.holdsHeaders (chunks.map Segment.start)
  have node : chunk.start ∈ chunks.map Segment.start :=
    List.mem_map.mpr ⟨chunk, by simp [split], rfl⟩
  have list := readable.list
  have tiles := readable.placed.tiles
  rw [split] at list tiles
  rw [holds.getNext placed.nodes node, holds.getPrev placed.nodes node,
    list.next_eq, list.prev_eq]
  refine ⟨?_, rfl⟩
  cases back with
  | nil => rfl
  | cons next back =>
      have start := (tiles_append_cons.mp tiles).2.1
      simp [start]

theorem listReads (readable : ReadableList img frames k chunks) :
    ListReads img.pgdKern k chunks where
  listed := readable.chunkList_eq
  next _ _ _ split := (readable.links split).1
  prev _ _ _ split := (readable.links split).2

end ReadableList

namespace HeapState

variable {img : KernelImage} {frames : List Nat} {k k' : Kernel}
variable {chunks chunks' : List Segment} {live : List Block} {block : Block}

theorem block_bounds (state : HeapState img frames k chunks)
    (held : LiveBlocks chunks live) (member : block ∈ live) :
    heapStart ≤ block.ptr ∧ block.ptr + block.size ≤ k.heapMax := by
  obtain ⟨chunk, inChunks, _, ptr, size⟩ := held.chunk_of member
  have bounds := state.placed.bounds chunk inChunks
  unfold Segment.stop at bounds
  omega

theorem block_mapped (state : HeapState img frames k chunks)
    (held : LiveBlocks chunks live) (member : block ∈ live) {va : Nat}
    (covers : block.Covers va) :
    (mmuWalk k.mem (img.pgdKern - pageOffset) va).isSome := by
  have bounds := state.block_bounds held member
  unfold Block.Covers at covers
  rw [state.paging.walk_heap (by omega) (by omega)]
  rfl

theorem block_header (state : HeapState img frames k chunks)
    (held : LiveBlocks chunks live) (member : block ∈ live) {va : Nat}
    (covers : block.Covers va) {chunk : Segment} (inChunks : chunk ∈ chunks) :
    va < chunk.start ∨ chunk.start + headerSize ≤ va := by
  obtain ⟨own, ownMember, _, inside⟩ := held.chunk_of member
  exact state.placed.payload_outside ownMember (inside.payload covers)
    chunk.start (List.mem_map.mpr ⟨chunk, inChunks, rfl⟩)

/-- A block that is held before and after keeps its bytes if only headers of
its neighbours changed. -/
theorem kept (state : HeapState img frames k chunks)
    (state' : HeapState img frames k' chunks')
    (held : LiveBlocks chunks live) (member : block ∈ live)
    {live' : List Block} (held' : LiveBlocks chunks' live')
    (member' : block ∈ live')
    (view : ∀ va, block.Covers va → heapView img k' va = heapView img k va) :
    Kept img.pgdKern k k' block := by
  intro va covers
  have bounds := state.block_bounds held member
  have bounds' := state'.block_bounds held' member'
  refine ⟨heapView img k va, ?_, ?_⟩
  · unfold Block.Covers at covers
    exact state.paging.read8_ok va (by omega) (by omega)
  · rw [← view va covers]
    unfold Block.Covers at covers
    exact state'.paging.read8_ok va (by omega) (by omega)

theorem kmalloc_kept (state : HeapState img frames k chunks)
    (held : LiveBlocks chunks live) {n : Nat}
    (noWrap : NoWrap img.pgdKern k n) :
    (∃ k', kmalloc img.pgdKern n k = .error (.panic "out of memory") k') ∨
      ∃ p k', kmalloc img.pgdKern n k = .ok p k' ∧
        ∀ block ∈ live, Kept img.pgdKern k k' block := by
  rcases state.kmalloc_spec (state.safeRequest_iff.mp noWrap.safe) with
    ⟨k', stopped, _⟩ | ⟨k', chunk, chunks', returned, allocated⟩
  · exact .inl ⟨k', stopped⟩
  · refine .inr ⟨_, k', returned, ?_⟩
    intro block member
    have held' : LiveBlocks chunks'
        (⟨chunk.start + headerSize, n⟩ :: live) :=
      held.push ⟨rfl, allocated.enough⟩ allocated.used
    have member' : block ∈ (⟨chunk.start + headerSize, n⟩ : Block) :: live :=
      List.mem_cons_of_mem _ member
    refine state.kept allocated.state held member held' member' ?_
    intro va covers
    have bounds := state.block_bounds held member
    apply allocated.view va
    · unfold Block.Covers at covers
      omega
    · intro header headerMember
      obtain ⟨other, inChunks, rfl⟩ := List.mem_map.mp headerMember
      exact allocated.state.block_header held' member' covers inChunks

theorem kfree_kept (state : HeapState img frames k chunks)
    (held : LiveBlocks chunks live) (member : block ∈ live) :
    ∃ k', kfree img.pgdKern block.ptr k = .ok () k' ∧
      ∀ other ∈ live.erase block, Kept img.pgdKern k k' other := by
  obtain ⟨k', chunks', returned, freed, _, held'⟩ :=
    state.kfree_block (held.perm (List.perm_cons_erase member))
  refine ⟨k', returned, ?_⟩
  intro other otherMember
  have otherLive := List.mem_of_mem_erase otherMember
  refine state.kept freed.state held otherLive held' otherMember ?_
  intro va covers
  have bounds := freed.state.block_bounds held' otherMember
  apply freed.view va
  · unfold Block.Covers at covers
    omega
  · intro header headerMember
    obtain ⟨chunk, inChunks, rfl⟩ := List.mem_map.mp headerMember
    exact state.block_header held otherLive covers inChunks

theorem live_starts (held : LiveBlocks chunks live) :
    ((usedOf chunks).map fun chunk => chunk.start + headerSize).Perm
      (live.map Block.ptr) := by
  obtain ⟨holds, used, blocks, inside⟩ := held
  have ptrs : (holds.map Prod.fst).map
      (fun chunk => chunk.start + headerSize) =
        (holds.map Prod.snd).map Block.ptr := by
    rw [List.map_map, List.map_map]
    apply List.map_congr_left
    intro hold member
    exact (inside hold member).1.symm
  exact ((used.map _).symm.trans (List.Perm.of_eq ptrs)).trans (blocks.map _)

theorem empty_iff (state : HeapState img frames k chunks)
    (held : LiveBlocks chunks live) : chunks = [] ↔ live = [] := by
  have length := (live_starts held).length_eq
  simp only [List.length_map] at length
  constructor
  · rintro rfl
    exact List.length_eq_zero_iff.mp length.symm
  · rintro rfl
    exact state.canonical.eq_nil (List.length_eq_zero_iff.mp length)

end HeapState

/-- The blocks of clients lie on mapped pages of the heap, apart from each
other and from every header.  A call returns, unless `kmalloc` runs out of
frames, and leaves the bytes of all other blocks alone. -/
theorem heap_client_contract (img : KernelImage) (frames : List Nat)
    (usable : ∀ frame ∈ frames, UsableFrame img frame)
    (distinct : frames.Nodup) {k : Kernel} {live : List Block}
    (run : HeapRun img frames k live) :
    (∀ block ∈ live,
      heapStart ≤ block.ptr ∧ block.ptr + block.size ≤ k.heapMax ∧
        ∀ va, block.Covers va →
          (mmuWalk k.mem (img.pgdKern - pageOffset) va).isSome) ∧
    live.Pairwise BlocksApart ∧
    (∃ chunks, chunkList img.pgdKern k = .ok chunks k ∧
      ∀ chunk ∈ chunks, ∀ block ∈ live, ∀ va, block.Covers va →
        va < chunk.start ∨ chunk.start + headerSize ≤ va) ∧
    (∀ n, NoWrap img.pgdKern k n →
      (∃ k', kmalloc img.pgdKern n k = .error (.panic "out of memory") k') ∨
        ∃ p k', kmalloc img.pgdKern n k = .ok p k' ∧
          ∀ block ∈ live, Kept img.pgdKern k k' block) ∧
    ∀ block ∈ live, ∃ k', kfree img.pgdKern block.ptr k = .ok () k' ∧
      ∀ other ∈ live.erase block, Kept img.pgdKern k k' other := by
  obtain ⟨chunks, state, held⟩ := run.invariant usable distinct
  refine ⟨?_, held.pairwise state.placed, ⟨chunks, state.chunkList_eq, ?_⟩,
    ?_, ?_⟩
  · intro block member
    have bounds := state.block_bounds held member
    exact ⟨bounds.1, bounds.2, fun va covers =>
      state.block_mapped held member covers⟩
  · intro chunk inChunks block member va covers
    exact state.block_header held member covers inChunks
  · exact fun n noWrap => state.kmalloc_kept held noWrap
  · exact fun block member => state.kfree_kept held member

theorem heap_client_contract_sampleRun :
    ∃ k live, live.length = 2 ∧ HeapRun sampleImage sampleFrames k live ∧
      live.Pairwise BlocksApart ∧
      ∀ block ∈ live, heapStart ≤ block.ptr ∧
        block.ptr + block.size ≤ k.heapMax := by
  obtain ⟨k, p, q, _, run⟩ := exists_sampleRun
  obtain ⟨inside, apart, _⟩ := heap_client_contract sampleImage sampleFrames
    sampleFrames_usable sampleFrames_nodup run
  exact ⟨k, _, rfl, run, apart, fun block member =>
    ⟨(inside block member).1, (inside block member).2.1⟩⟩

/-- The chunk list is a canonical cut of the heap, linked both ways, and its
chunks in use are the blocks that are held. -/
theorem chunk_list_invariant (img : KernelImage) (frames : List Nat)
    (usable : ∀ frame ∈ frames, UsableFrame img frame)
    (distinct : frames.Nodup) {k : Kernel} {live : List Block}
    (run : HeapRun img frames k live) :
    ∃ chunks, chunkList img.pgdKern k = .ok chunks k ∧
      (∀ chunk ∈ chunks.head?, chunk.start = heapStart) ∧
      (∀ front chunk back, chunks = front ++ chunk :: back →
        getNext img.pgdKern chunk.start k =
            .ok (if back = [] then 0 else chunk.stop) k ∧
          getPrev img.pgdKern chunk.start k =
            .ok ((front.map Segment.start).getLastD 0) k) ∧
      Tiles heapStart chunks (endOf heapStart chunks) ∧
      (∀ chunk ∈ chunks, headerSize ≤ chunk.len) ∧
      Coalesced chunks ∧
      (∀ chunk ∈ chunks.getLast?, chunk.used) ∧
      ((usedOf chunks).map fun chunk => chunk.start + headerSize).Perm
        (live.map Block.ptr) ∧
      (chunks = [] ↔ live = []) := by
  obtain ⟨chunks, state, held⟩ := run.invariant usable distinct
  refine ⟨chunks, state.chunkList_eq, ?_, fun _ _ _ split => state.readable.links split,
    state.canonical.tiles, state.canonical.large, state.canonical.coalesced,
    state.canonical.last_used, HeapState.live_starts held,
    state.empty_iff held⟩
  intro chunk isFirst
  cases chunks with
  | nil => simp at isFirst
  | cons first chunks =>
      obtain rfl : first = chunk := by simpa using isFirst
      exact state.canonical.tiles.1

theorem chunk_list_invariant_sampleRun :
    ∃ k live chunks, HeapRun sampleImage sampleFrames k live ∧
      chunkList sampleImage.pgdKern k = .ok chunks k ∧
      (usedOf chunks).length = 2 ∧ Coalesced chunks := by
  obtain ⟨k, p, q, _, run⟩ := exists_sampleRun
  obtain ⟨chunks, listed, _, _, _, _, coalesced, _, used, _⟩ :=
    chunk_list_invariant sampleImage sampleFrames sampleFrames_usable
      sampleFrames_nodup run
  exact ⟨k, _, chunks, run, listed, by simpa using used.length_eq, coalesced⟩

/-- The page of `va` in the heap window: both levels of its translation are
present and writable, and the kernel finds the frame the processor uses. -/
structure HeapPage (img : KernelImage) (k : Kernel) (va frame : Nat) :
    Prop where
  isFrame : IsFrame frame
  pde : pdeOf img.pgdKern k.mem (pgdIndex va) =
    tableOf img.pgdKern k.mem (pgdIndex va) ||| (pagePresent ||| pageWrite)
  pte : pteOf img.pgdKern k.mem va = frame ||| (pagePresent ||| pageWrite)
  walk : mmuWalk k.mem (img.pgdKern - pageOffset) va =
    some (frame + va % pageSize)
  mapping : getMapping img.pgdKern va k = .ok (some frame) k

namespace HeapPaging

variable {img : KernelImage} {frames : List Nat} {k : Kernel}

theorem heapPage (paging : HeapPaging img frames k) {va : Nat}
    (lower : heapStart ≤ va) (upper : va < k.heapMax) :
    HeapPage img k va (frameAt img.pgdKern k.mem va) := by
  have small := Nat.lt_trans upper paging.heapMax_lt
  have isFrame := (paging.frame_usable lower upper).isFrame
  have entry := paging.mapped va lower upper
  have bound : pgdIndex va < pgdSize := pgdIndex_lt va
  have present : tableOf img.pgdKern k.mem (pgdIndex va) ≠ 0 := by
    intro missing
    rw [pteOf, if_pos missing] at entry
    omega
  have tableFrame := paging.tables.isFrame bound present
  refine ⟨isFrame, ?_, ?_, paging.walk_heap lower upper, ?_⟩
  · rw [or_flags tableFrame.1 (by decide)]
    exact paging.table_entry bound present
  · rw [or_flags isFrame.1 (by decide)]
    exact entry
  · rw [getMapping_eq paging.tables, translation, if_neg]
    · rfl
    · omega

theorem heap_unmapped (paging : HeapPaging img frames k) {va : Nat}
    (lower : k.heapMax ≤ va) (upper : va < 4294967296) :
    mmuWalk k.mem (img.pgdKern - pageOffset) va = none ∧
      getMapping img.pgdKern va k = .ok none k := by
  have entry := paging.unmapped va lower upper
  constructor
  · rw [paging.mmuWalk_eq upper, if_pos entry]
  · rw [getMapping_eq paging.tables, translation, if_pos entry]

end HeapPaging

/-- Heap, page tables and page stack share the frames of the start. -/
theorem frame_accounting (img : KernelImage) (frames : List Nat)
    (aligned : ∀ frame ∈ frames, frame % pageSize = 0)
    (lower : ∀ frame ∈ frames, img.kernEnd - pageOffset ≤ frame)
    (upper : ∀ frame ∈ frames, frame < pmmMaxSize)
    (distinct : frames.Nodup) {k : Kernel} {live : List Block}
    (run : HeapRun img frames k live) :
    k.heapMax % pageSize = 0 ∧
    heapEnd img.pgdKern k ≤ k.heapMax ∧
    k.heapMax ≤ heapEnd img.pgdKern k + pageSize ∧
    (∀ va, heapStart ≤ va → va < k.heapMax →
      HeapPage img k va (frameAt img.pgdKern k.mem va)) ∧
    (∀ va, k.heapMax ≤ va → va < 4294967296 →
      mmuWalk k.mem (img.pgdKern - pageOffset) va = none ∧
        getMapping img.pgdKern va k = .ok none k) ∧
    (∀ va other, heapStart ≤ va → va < k.heapMax → heapStart ≤ other →
      other < k.heapMax → frameAt img.pgdKern k.mem va =
        frameAt img.pgdKern k.mem other → va / pageSize = other / pageSize) ∧
    (heapTables img k.mem ++ heapFrames img k ++ k.pmmStack).Nodup ∧
    (heapTables img k.mem ++ heapFrames img k ++ k.pmmStack).Perm frames ∧
    (∀ block ∈ live, ∃ k', kfree img.pgdKern block.ptr k = .ok () k') ∧
    ∀ n stop k', NoWrap img.pgdKern k n →
      kmalloc img.pgdKern n k = .error stop k' →
        stop = .panic "out of memory" := by
  have usable : ∀ frame ∈ frames, UsableFrame img frame :=
    fun frame member => .of_kernEnd (aligned frame member)
      (lower frame member) (upper frame member)
  obtain ⟨chunks, state, held⟩ := run.invariant usable distinct
  have paging := state.paging
  rw [state.heapEnd_eq]
  refine ⟨paging.heapMax_aligned, state.fits, state.tight,
    fun va => paging.heapPage, fun va => paging.heap_unmapped,
    fun va other => paging.frame_injective, paging.nodup, paging.account,
    ?_, ?_⟩
  · intro block member
    obtain ⟨k', returned, _⟩ := state.kfree_kept held member
    exact ⟨k', returned⟩
  · intro n stop k' noWrap stopped
    rcases state.kmalloc_kept held noWrap with
      ⟨last, exhausted⟩ | ⟨p, last, returned, _⟩
    · rw [stopped] at exhausted
      injection exhausted
    · rw [stopped] at returned
      cases returned

theorem frame_accounting_sampleRun :
    ∃ k live, live.length = 2 ∧ HeapRun sampleImage sampleFrames k live ∧
      (heapTables sampleImage k.mem ++ heapFrames sampleImage k ++
        k.pmmStack).Perm sampleFrames := by
  obtain ⟨k, p, q, _, run⟩ := exists_sampleRun
  obtain ⟨_, _, _, _, _, _, _, account, _⟩ :=
    frame_accounting sampleImage sampleFrames (by decide) (by decide)
      (by decide) sampleFrames_nodup run
  exact ⟨k, _, rfl, run, account⟩

end MiniOS
