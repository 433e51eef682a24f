import MiniOS.Mm.HeapState

/-!
# Giving a chunk back

`kfree` marks the chunk, merges it with its free neighbours and trims the heap
when it has become the last one.  From the mark to the end of `glueChunk` the
list has a `Hole`.
-/

namespace MiniOS

open ByteMemory Tiling

/-- Inside `glue_chunk`: the headers hold a list with a hole. -/
structure Gluing (img : KernelImage) (frames : List Nat) (k₀ : Kernel)
    (nodes : List Nat) (stop : Nat) (k : Kernel) (headers : Headers)
    (front : List Segment) (hole : Segment) (back : List Segment) : Prop where
  holds : HoldsHeaders img frames k₀ nodes k headers
  list : ChunkList headers k₀.heapFirst (front ++ hole :: back)
  loose : Hole headerSize heapStart front hole back
  stop_eq : endOf hole.stop back = stop
  fits : stop ≤ k₀.heapMax
  subset : ∀ chunk ∈ front ++ hole :: back, chunk.start ∈ nodes

namespace Gluing

variable {img : KernelImage} {frames nodes : List Nat} {k₀ k : Kernel}
variable {stop : Nat} {headers : Headers}
variable {front back : List Segment} {hole : Segment}

theorem placed (gluing : Gluing img frames k₀ nodes stop k headers front hole
    back) : Placed k₀ (front ++ hole :: back) where
  tiles := by
    rw [endOf_append_cons]
    exact gluing.loose.tiles
  large := gluing.loose.large
  fits := by
    rw [endOf_append_cons, gluing.stop_eq]
    exact gluing.fits
  upper := gluing.holds.wrote.same.heapMax ▸
    gluing.holds.wrote.paging.heapMax_lt

theorem next_mem (gluing : Gluing img frames k₀ nodes stop k headers front
    hole back) {before : List Segment} {chunk : Segment}
    {behind : List Segment}
    (split : front ++ hole :: back = before ++ chunk :: behind)
    (present : headers .next chunk.start ≠ 0) :
    headers .next chunk.start ∈ nodes := by
  have subset := gluing.subset
  have list := gluing.list
  rw [split] at subset list
  rw [list.next_eq] at present ⊢
  cases behind with
  | nil => exact absurd rfl present
  | cons next behind => exact subset next (by simp)

/-- The merge of two neighbours of which the left one or the right one is the
hole. -/
theorem absorb_spec (place : HeaderNodes k₀ nodes)
    (gluing : Gluing img frames k₀ nodes stop k headers front hole back)
    {before behind : List Segment} {left right : Segment}
    (split : front ++ hole :: back = before ++ left :: right :: behind) :
    ∃ k' headers', absorb img.pgdKern left.start right.start k = .ok () k' ∧
      HoldsHeaders img frames k₀ nodes k' headers' ∧
      ChunkList headers' k₀.heapFirst
        (before ++ { left with len := left.len + right.len } :: behind) ∧
      ∀ chunk ∈ before ++ { left with len := left.len + right.len } :: behind,
        chunk.start ∈ nodes := by
  have placed := gluing.placed
  have list := gluing.list
  have subset := gluing.subset
  have nextMember : headers .next right.start ≠ 0 →
      headers .next right.start ∈ nodes :=
    gluing.next_mem (split.trans (List.append_cons ..))
  rw [split] at placed list subset
  have leftMember := subset left (by simp)
  have rightMember := subset right (by simp)
  obtain ⟨k', returned, holds⟩ :=
    gluing.holds.absorb_spec place leftMember rightMember nextMember
  refine ⟨k', _, returned, holds, list.absorb placed.proper ?_, ?_⟩
  · have leftBounds := placed.bounds left (by simp)
    have rightBounds := placed.bounds right (by simp)
    have upper := placed.upper
    unfold Segment.stop at leftBounds rightBounds
    simp only [heapStart] at leftBounds rightBounds
    omega
  · intro chunk member
    rcases List.mem_append.mp member with inFront | inRest
    · exact subset chunk (by simp [inFront])
    · rcases List.mem_cons.mp inRest with rfl | inBack
      · exact leftMember
      · exact subset chunk (by simp [inBack])

theorem glueNext_spec (place : HeaderNodes k₀ nodes)
    (gluing : Gluing img frames k₀ nodes stop k headers front hole back) :
    ∃ k' headers' hole' back', glueNext img.pgdKern hole.start k =
        .ok () k' ∧
      Gluing img frames k₀ nodes stop k' headers' front hole' back' ∧
      hole'.start = hole.start ∧ usedOf back' = usedOf back ∧
      ∀ next ∈ back'.head?, next.used := by
  have placed := gluing.placed
  have proper := placed.proper
  have holeMember := gluing.subset hole (by simp)
  have nextEq := gluing.list.next_eq
  unfold glueNext
  rw [Outcome.bind_of_ok (gluing.holds.getNext place holeMember)]
  cases back with
  | nil =>
      simp only [List.map_nil, List.headD_nil] at nextEq
      refine ⟨k, headers, hole, [], ?_, gluing, rfl, rfl, by simp⟩
      rw [nextEq, Outcome.bind_of_ok
        (gluing.holds.isFree_spec place (by simp))]
      rfl
  | cons next back =>
      simp only [List.map_cons, List.headD_cons] at nextEq
      have nextMember := gluing.subset next (by simp)
      have nextNull := proper.nonzero next (by simp)
      have mark := gluing.list.allocated_eq next (by simp)
      rw [nextEq, Outcome.bind_of_ok
        (gluing.holds.isFree_spec place fun _ => nextMember)]
      cases free : next.used with
      | true =>
          refine ⟨k, headers, hole, next :: back, ?_, gluing, rfl, rfl, ?_⟩
          · simp [mark, free]
          · simp [free]
      | false =>
          obtain ⟨k', headers', returned, holds, list, subset⟩ :=
            gluing.absorb_spec place rfl
          obtain ⟨loose, nonempty, nextUsed⟩ := gluing.loose.mergeNext free
          have stopEq := gluing.stop_eq
          rw [endOf_cons] at stopEq
          have merged := gluing.loose.next_stop
          refine ⟨k', headers', { hole with len := hole.len + next.len }, back,
            ?_, ⟨holds, list, loose, ?_, gluing.fits, subset⟩, rfl, ?_,
            nextUsed⟩
          · simp [mark, free, nextNull, returned]
          · unfold Segment.stop
            simp only
            rw [merged]
            exact stopEq
          · simp [usedOf, free]

theorem gluePrev_spec (place : HeaderNodes k₀ nodes)
    (gluing : Gluing img frames k₀ nodes stop k headers front hole back) :
    ∃ k' headers' hole' front', gluePrev img.pgdKern hole.start k =
        .ok hole'.start k' ∧
      Gluing img frames k₀ nodes stop k' headers' front' hole' back ∧
      usedOf front' = usedOf front ∧
      ∀ prev ∈ front'.getLast?, prev.used := by
  have placed := gluing.placed
  have proper := placed.proper
  have holeMember := gluing.subset hole (by simp)
  have prevEq := gluing.list.prev_eq
  unfold gluePrev
  rw [Outcome.bind_of_ok (gluing.holds.getPrev place holeMember)]
  rcases front.eq_nil_or_concat with rfl | ⟨front, prev, rfl⟩
  · simp only [List.map_nil, List.getLastD_nil] at prevEq
    refine ⟨k, headers, hole, [], ?_, gluing, rfl, by simp⟩
    rw [prevEq, Outcome.bind_of_ok
      (gluing.holds.isFree_spec place (by simp))]
    rfl
  · rw [List.concat_eq_append] at *
    simp only [List.map_append, List.map_cons, List.map_nil,
      List.getLastD_concat] at prevEq
    have prevMember := gluing.subset prev (by simp)
    have prevNull := proper.nonzero prev (by simp)
    have mark := gluing.list.allocated_eq prev (by simp)
    rw [prevEq, Outcome.bind_of_ok
      (gluing.holds.isFree_spec place fun _ => prevMember)]
    cases free : prev.used with
    | true =>
        refine ⟨k, headers, hole, front ++ [prev], ?_, gluing, rfl, ?_⟩
        · simp [mark, free]
        · simp [free]
    | false =>
        obtain ⟨k', headers', returned, holds, list, subset⟩ :=
          gluing.absorb_spec place (List.append_assoc ..)
        obtain ⟨loose, prevUsed⟩ := gluing.loose.mergePrev free
        have merged := gluing.loose.prev_stop
        refine ⟨k', headers', { prev with len := prev.len + hole.len }, front,
          ?_, ⟨holds, list, loose, ?_, gluing.fits, subset⟩, ?_, prevUsed⟩
        · simp [mark, free, prevNull, Outcome.bind_of_ok returned]
        · unfold Segment.stop
          simp only
          rw [merged]
          exact gluing.stop_eq
        · simp [usedOf, free]

theorem listed (gluing : Gluing img frames k₀ nodes stop k headers front hole
    back) : ChunkList (fieldOf (heapView img k)) k.heapFirst
      (front ++ hole :: back) := by
  have list := gluing.list
  rw [← gluing.holds.wrote.first] at list
  exact list.congr fun field chunk member =>
    gluing.holds.reads field chunk.start (gluing.subset chunk member)

end Gluing

/-- What `glue_chunk` leaves: the heap with the list `chunks'`, the pages above
it released, and no byte outside the headers `nodes` changed. -/
structure Freed (img : KernelImage) (frames nodes : List Nat) (stop : Nat)
    (k k' : Kernel) (chunks' : List Segment) : Prop where
  state : HeapState img frames k' chunks'
  releases : Releases img k k'
  heapMax_eq : k'.heapMax =
    min k.heapMax (roundDown (endOf heapStart chunks') pageSize + pageSize)
  endOf_le : endOf heapStart chunks' ≤ stop
  view : ∀ va < k'.heapMax,
    (∀ header ∈ nodes, va < header ∨ header + headerSize ≤ va) →
      heapView img k' va = heapView img k va

theorem SamePaging.releases {img : KernelImage} {frames : List Nat}
    {k k' : Kernel} (paging : HeapPaging img frames k)
    (same : SamePaging img k k') : Releases img k k' where
  heapMax_le := Nat.le_of_eq same.heapMax
  pte va small := by
    rw [same.pte, same.heapMax]
    split
    · exact paging.unmapped va (by assumption) small
    · rfl
  frames := by rw [same.heapFrames_eq, same.stack]

theorem roundDown_bounds (a : Nat) :
    roundDown a pageSize ≤ a ∧ a < roundDown a pageSize + pageSize := by
  have rest := Nat.mod_lt a (show 0 < pageSize by decide)
  have sum := roundDown_add_mod a pageSize
  omega

/-- An aligned bound at most a page above `a` is the one of the page of
`a`. -/
theorem min_roundDown {max a : Nat} (aligned : max % pageSize = 0)
    (tight : max ≤ a + pageSize) :
    min max (roundDown a pageSize + pageSize) = max := by
  have floor := roundDown_mod a pageSize
  have bounds := roundDown_bounds a
  apply Nat.min_eq_left
  simp only [pageSize] at *
  omega

namespace Gluing

variable {img : KernelImage} {frames nodes : List Nat} {k₀ k : Kernel}
variable {stop : Nat} {headers : Headers}
variable {front back : List Segment} {hole : Segment}

theorem dropChunk_spec (place : HeaderNodes k₀ nodes)
    (gluing : Gluing img frames k₀ nodes stop k headers front hole []) :
    ∃ k', dropChunk img.pgdKern hole.start k = .ok () k' ∧
      HeapPaging img frames k' ∧ SamePaging img k₀ k' ∧
      ChunkList (fieldOf (heapView img k')) k'.heapFirst front ∧
      AgreeOutside nodes (heapView img k₀) (heapView img k') := by
  have proper := gluing.placed.proper
  have holeMember := gluing.subset hole (by simp)
  have prevEq := gluing.list.prev_eq
  have dropped := gluing.list.drop proper
  unfold dropChunk
  rw [Outcome.bind_of_ok (gluing.holds.getPrev place holeMember), prevEq]
  rcases front.eq_nil_or_concat with rfl | ⟨front, last, rfl⟩
  · have same : SamePaging img k { k with heapFirst := 0 } :=
      ⟨rfl, rfl, fun _ _ => rfl, fun _ => rfl⟩
    refine ⟨{ k with heapFirst := 0 }, rfl,
      gluing.holds.wrote.paging.transport same,
      gluing.holds.wrote.same.trans same, ?_, gluing.holds.agree⟩
    exact ⟨rfl, trivial, by simp⟩
  · rw [List.concat_eq_append] at *
    simp only [List.map_append, List.map_cons, List.map_nil,
      List.getLastD_concat, Headers.drop] at dropped ⊢
    have lastNull := proper.nonzero last (by simp)
    have lastMember := gluing.subset last (by simp)
    rw [if_neg lastNull] at dropped ⊢
    obtain ⟨k', returned, holds⟩ :=
      gluing.holds.setNext place lastMember (show 0 < 4294967296 by decide)
    refine ⟨k', returned, holds.wrote.paging, holds.wrote.same, ?_,
      holds.agree⟩
    rw [if_neg (by simp), ← holds.wrote.first] at dropped
    exact dropped.congr fun field chunk member =>
      holds.reads field chunk.start
        (gluing.subset chunk (List.mem_append_left _ member))

/-- The hole at the end of the heap is cut off and its pages released. -/
theorem freeChunk_spec (place : HeaderNodes k₀ nodes)
    (gluing : Gluing img frames k₀ nodes stop k headers front hole [])
    (prevUsed : ∀ prev ∈ front.getLast?, prev.used) :
    ∃ k', freeChunk img.pgdKern hole.start k = .ok () k' ∧
      Freed img frames nodes stop k₀ k' front := by
  obtain ⟨canonical, endEq⟩ := gluing.loose.trim prevUsed
  have bounds := gluing.placed.bounds hole (by simp)
  have stopEq : hole.stop = stop := gluing.stop_eq
  have fits := gluing.fits
  obtain ⟨k₁, dropped, paging₁, same₁, list₁, agree₁⟩ :=
    gluing.dropChunk_spec place
  have maxEq := same₁.heapMax
  have pages := paging₁.heapPages_lt
  obtain ⟨k₂, released, paging₂, trims, max⟩ :=
    paging₁.freeChunkLoop_spec (pageMaxSize + 1) bounds.1 (by omega)
  have floor := roundDown_bounds hole.start
  have endLe : endOf heapStart front ≤ k₂.heapMax := by
    rw [max, endEq]
    apply Nat.le_min.mpr
    omega
  refine ⟨k₂, ?_, ⟨paging₂, ?_, canonical, endLe, ?_⟩, ?_, ?_, ?_, ?_⟩
  · unfold freeChunk
    rw [Outcome.bind_of_ok dropped, released]
  · rw [trims.first]
    have placed : Placed k₂ front :=
      ⟨canonical.tiles, canonical.large, endLe, paging₂.heapMax_lt⟩
    apply placed.list_of_view list₁
    intro va below
    exact trims.view va (Nat.lt_of_lt_of_le below endLe)
  · rw [max, endEq]
    omega
  · exact (same₁.releases (paging₁.transport same₁.symm)).trans
      trims.toReleases
  · rw [max, endEq, maxEq]
  · omega
  · intro va below outside
    rw [trims.view va below]
    exact agree₁ va outside

theorem glueChunk_spec (place : HeaderNodes k₀ nodes)
    (gluing : Gluing img frames k₀ nodes stop k headers front hole back)
    (tight : k₀.heapMax ≤ stop + pageSize) :
    ∃ k' chunks', glueChunk img.pgdKern hole.start k = .ok () k' ∧
      Freed img frames nodes stop k₀ k' chunks' ∧
      usedOf chunks' = usedOf front ++ usedOf back := by
  obtain ⟨k₁, headers₁, hole₁, back₁, returned₁, gluing₁, startEq, backUsed,
    nextUsed⟩ := gluing.glueNext_spec place
  obtain ⟨k₂, headers₂, hole₂, front₂, returned₂, gluing₂, frontUsed,
    prevUsed⟩ := gluing₁.gluePrev_spec place
  have holeMember := gluing₂.subset hole₂ (by simp)
  have nextEq := gluing₂.list.next_eq
  unfold glueChunk
  rw [Outcome.bind_of_ok returned₁, ← startEq, Outcome.bind_of_ok returned₂,
    Outcome.bind_of_ok (gluing₂.holds.getNext place holeMember), nextEq]
  cases back₁ with
  | nil =>
      obtain ⟨k', returned, freed⟩ := gluing₂.freeChunk_spec place prevUsed
      refine ⟨k', front₂, ?_, freed, ?_⟩
      · simpa using returned
      · rw [frontUsed, ← backUsed]
        simp [usedOf]
  | cons next back₁ =>
      have nextNull := gluing₂.placed.proper.nonzero next (by simp)
      have wrote := gluing₂.holds.wrote
      have canonical := gluing₂.loose.settle prevUsed nextUsed (by simp)
      have endEq : endOf heapStart (front₂ ++ hole₂ :: next :: back₁) =
          stop := by
        rw [endOf_append_cons]
        exact gluing₂.stop_eq
      have maxEq := wrote.same.heapMax
      have fits := gluing.fits
      have paging₀ := wrote.paging.transport wrote.same.symm
      refine ⟨k₂, front₂ ++ hole₂ :: next :: back₁, ?_,
        ⟨⟨wrote.paging, gluing₂.listed, canonical, ?_, ?_⟩,
          wrote.same.releases paging₀, ?_, ?_, ?_⟩, ?_⟩
      · simp [nextNull]
      · omega
      · omega
      · rw [endEq, min_roundDown paging₀.heapMax_aligned tight, maxEq]
      · omega
      · exact fun va _ outside => gluing₂.holds.agree va outside
      · rw [← frontUsed, ← backUsed]
        simp [usedOf, gluing₂.loose.free]

end Gluing

namespace HeapState

variable {img : KernelImage} {frames : List Nat} {k : Kernel}
variable {front back : List Segment} {chunk : Segment}

/-- `kfree` of a chunk on the list returns and leaves the other chunks in
use. -/
theorem kfree_spec
    (state : HeapState img frames k (front ++ chunk :: back)) :
    ∃ k' chunks', kfree img.pgdKern (chunk.start + headerSize) k =
        .ok () k' ∧
      Freed img frames ((front ++ chunk :: back).map Segment.start)
        (endOf heapStart (front ++ chunk :: back)) k k' chunks' ∧
      usedOf chunks' = usedOf front ++ usedOf back := by
  have placed := state.placed
  have bounds := placed.bounds chunk (by simp)
  have upper := placed.upper
  have headerEq : sub32 (chunk.start + headerSize) headerSize =
      chunk.start := by
    rw [sub32_eq (Nat.le_add_left _ _) (by
      simp only [headerSize] at bounds ⊢
      omega), Nat.add_sub_cancel]
  obtain ⟨k₁, marked, holds⟩ := (state.paging.holdsHeaders
    ((front ++ chunk :: back).map Segment.start)).setAllocated placed.nodes
      (List.mem_map.mpr ⟨chunk, by simp, rfl⟩) 0
  have list := state.list.mark false placed.proper
  have gluing : Gluing img frames k
      ((front ++ chunk :: back).map Segment.start)
      (endOf heapStart (front ++ chunk :: back)) k₁
      ((fieldOf (heapView img k)).setAllocated chunk.start 0) front
      { chunk with used := false } back := by
    refine ⟨holds, list, state.canonical.release, ?_, state.fits, ?_⟩
    · rw [endOf_append_cons]
      rfl
    · intro other member
      have starts : (front ++ { chunk with used := false } :: back).map
          Segment.start = (front ++ chunk :: back).map Segment.start := by
        simp
      rw [← starts]
      exact List.mem_map.mpr ⟨other, member, rfl⟩
  obtain ⟨k', chunks', glued, freed, used⟩ :=
    gluing.glueChunk_spec placed.nodes state.tight
  refine ⟨k', chunks', ?_, freed, used⟩
  unfold kfree
  simp only [headerEq]
  rw [Outcome.bind_of_ok marked]
  exact glued

end HeapState

end MiniOS
