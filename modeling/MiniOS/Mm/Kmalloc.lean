import MiniOS.Mm.HeapState

/-!
# Taking a chunk

`kmalloc` takes the first free chunk that is long enough, cutting off what is
left over if a header fits there; without one it appends a chunk and grows the
mapped part of the heap below it.
-/

namespace MiniOS

open ByteMemory Tiling

def Fits (need : Nat) (chunk : Segment) : Prop :=
  chunk.used = false ∧ need ≤ chunk.len

/-- A free chunk is long enough, or a new one ends below 4 GB. -/
def Servable (chunks : List Segment) (n : Nat) : Prop :=
  (∃ chunk ∈ chunks, Fits (n + headerSize) chunk) ∨
    endOf heapStart chunks + n + headerSize < 4294967296

/-- What becomes of a free chunk that is taken. -/
def takeChunk (need : Nat) (chunk : Segment) : List Segment :=
  if headerSize < chunk.len - need then
    [⟨chunk.start, need, true⟩,
      ⟨chunk.start + need, chunk.len - need, false⟩]
  else [{ chunk with used := true }]

/-- The memory after a chunk was taken, seen from before the call. -/
structure Taken (img : KernelImage) (frames : List Nat) (k k' : Kernel)
    (chunks chunks' : List Segment) : Prop where
  state : HeapState img frames k' chunks'
  same : SamePaging img k k'
  first : k'.heapFirst = k.heapFirst
  agree : AgreeOutside (chunks'.map Segment.start) (heapView img k)
    (heapView img k')

/-- A chunk was appended, seen from before the call. -/
structure Grown (img : KernelImage) (frames : List Nat) (k k' : Kernel)
    (chunks chunks' : List Segment) : Prop where
  state : HeapState img frames k' chunks'
  heapMax_le : k.heapMax ≤ k'.heapMax
  pte : ∀ va < k.heapMax,
    pteOf img.pgdKern k'.mem va = pteOf img.pgdKern k.mem va
  view : ∀ va < k.heapMax,
    (∀ header ∈ chunks'.map Segment.start,
      va < header ∨ header + headerSize ≤ va) →
      heapView img k' va = heapView img k va

namespace HeapState

variable {img : KernelImage} {frames : List Nat} {k : Kernel}
variable {front back : List Segment} {chunk : Segment} {need : Nat}

/-- The walk stops at the first chunk that fits, or runs to the end. -/
theorem kmallocLoop_spec (need : Nat) {chunks : List Segment}
    (state : HeapState img frames k chunks) (rounds : Nat) :
    ∀ front back, chunks = front ++ back → back.length < rounds →
      ((∀ chunk ∈ back, ¬Fits need chunk) ∧
        kmallocLoop img.pgdKern need rounds
          ((back.map Segment.start).headD 0)
          ((front.map Segment.start).getLastD 0) k =
            .ok (.inr ((chunks.map Segment.start).getLastD 0)) k) ∨
      ∃ skipped chunk rest, back = skipped ++ chunk :: rest ∧
        (∀ other ∈ skipped, ¬Fits need other) ∧ Fits need chunk ∧
        kmallocLoop img.pgdKern need rounds
          ((back.map Segment.start).headD 0)
          ((front.map Segment.start).getLastD 0) k =
            (do
              splitChunk img.pgdKern chunk.start need
              setAllocated img.pgdKern chunk.start 1
              return Sum.inl (uint32 (chunk.start + headerSize))) k := by
  have placed := state.placed
  have holds := state.paging.holdsHeaders (chunks.map Segment.start)
  induction rounds with
  | zero => intro front back _ enough; omega
  | succ rounds induction =>
      intro front back split enough
      cases back with
      | nil =>
          left
          simp [split, kmallocLoop]
      | cons chunk back =>
          have member : chunk ∈ chunks := by simp [split]
          have node : chunk.start ∈ chunks.map Segment.start :=
            List.mem_map.mpr ⟨chunk, member, rfl⟩
          have nonzero := placed.proper.nonzero chunk member
          have allocated := holds.getAllocated placed.nodes node
          have length := holds.getLength placed.nodes node
          rw [state.list.allocated_eq chunk member] at allocated
          rw [state.list.length_eq chunk member] at length
          simp only [List.map_cons, List.headD_cons]
          rw [kmallocLoop, if_neg nonzero, Outcome.bind_of_ok allocated,
            Outcome.bind_of_ok length]
          by_cases fits : Fits need chunk
          · right
            refine ⟨[], chunk, back, rfl, by simp, fits, ?_⟩
            rw [if_pos ⟨by simp [fits.1], fits.2⟩]
          · have skip : ¬(chunk.used.toNat = 0 ∧ need ≤ chunk.len) := by
              rintro ⟨free, long⟩
              exact fits ⟨by simpa using free, long⟩
            have nextEq := (split ▸ state.list).next_eq
            rw [if_neg skip, Outcome.bind_of_ok
              (holds.getNext placed.nodes node), nextEq]
            have last : ((front ++ [chunk]).map Segment.start).getLastD 0 =
                chunk.start := by simp
            rw [← last]
            rcases induction (front ++ [chunk]) back (by simp [split])
                (by simpa using enough) with
              ⟨none, returned⟩ | ⟨skipped, found, rest, backEq, none, fit,
                returned⟩
            · refine .inl ⟨?_, returned⟩
              intro other otherMember
              rcases List.mem_cons.mp otherMember with rfl | later
              · exact fits
              · exact none other later
            · refine .inr ⟨chunk :: skipped, found, rest, by simp [backEq],
                ?_, fit, returned⟩
              intro other otherMember
              rcases List.mem_cons.mp otherMember with rfl | later
              · exact fits
              · exact none other later

section Taken

theorem canonical_takeChunk
    (canonical : Canonical headerSize heapStart (front ++ chunk :: back))
    (fits : Fits need chunk) (large : headerSize ≤ need) :
    Canonical headerSize heapStart (front ++ (takeChunk need chunk ++ back)) ∧
      endOf heapStart (front ++ (takeChunk need chunk ++ back)) =
        endOf heapStart (front ++ chunk :: back) := by
  unfold takeChunk
  have stopEq : chunk.start + need + (chunk.len - need) = chunk.stop := by
    have enough := fits.2
    unfold Segment.stop
    omega
  split
  · refine ⟨canonical.take_front fits.1 large (by omega), ?_⟩
    simp only [List.cons_append, List.nil_append, endOf_append_cons,
      endOf_cons]
    rw [← stopEq]
    rfl
  · refine ⟨canonical.take, ?_⟩
    simp only [List.cons_append, List.nil_append, endOf_append_cons]
    rfl

theorem list_takeChunk {headers : Headers} {first : Nat}
    (list : ChunkList headers first (front ++ chunk :: back))
    (proper : ProperNodes (front ++ chunk :: back))
    (taken : ProperNodes (front ++ (takeChunk need chunk ++ back)))
    (fits : Fits need chunk) (positive : 0 < need) :
    ChunkList ((if headerSize < chunk.len - need then
        headers.cut chunk.start need else headers).setAllocated
          chunk.start 1) first
      (front ++ (takeChunk need chunk ++ back)) := by
  unfold takeChunk at taken ⊢
  split
  case isTrue room =>
    rw [if_pos room] at taken
    have marked := taken.mark false
    have chunkEq : (⟨chunk.start, need, false⟩ : Segment) =
        { chunk with len := need } := by rw [← fits.1]
    simp only at marked
    rw [chunkEq] at marked
    have cut := list.cut marked positive fits.2
    exact cut.mark true marked
  case isFalse => exact list.mark true proper

theorem takeChunk_spec
    (state : HeapState img frames k (front ++ chunk :: back))
    (fits : Fits need chunk) (large : headerSize ≤ need) :
    ∃ k', (do
        splitChunk img.pgdKern chunk.start need
        setAllocated img.pgdKern chunk.start 1
        return Sum.inl (uint32 (chunk.start + headerSize)) :
          KernelM (Nat ⊕ Nat)) k =
        .ok (.inl (chunk.start + headerSize)) k' ∧
      Taken img frames k k' (front ++ chunk :: back)
        (front ++ (takeChunk need chunk ++ back)) := by
  obtain ⟨canonical, endEq⟩ :=
    canonical_takeChunk state.canonical fits large
  have old := state.placed
  have placed : Placed k (front ++ (takeChunk need chunk ++ back)) :=
    ⟨canonical.tiles, canonical.large, endEq ▸ state.fits, old.upper⟩
  have bounds := old.bounds chunk (by simp)
  have small := old.upper
  have lengthEq := state.list.length_eq chunk (by simp)
  have nextEq := state.list.next_eq
  have holds := state.paging.holdsHeaders
    ((front ++ (takeChunk need chunk ++ back)).map Segment.start)
  have node : chunk.start ∈
      (front ++ (takeChunk need chunk ++ back)).map Segment.start := by
    unfold takeChunk
    split <;> simp
  have nextNode : fieldOf (heapView img k) .next chunk.start ≠ 0 →
      fieldOf (heapView img k) .next chunk.start ∈
        (front ++ (takeChunk need chunk ++ back)).map Segment.start := by
    rw [nextEq]
    cases back <;> simp
  have newNode : headerSize <
      fieldOf (heapView img k) .bits chunk.start / 2 - need →
        chunk.start + need ∈
          (front ++ (takeChunk need chunk ++ back)).map Segment.start := by
    intro room
    rw [lengthEq] at room
    simp [takeChunk, room]
  obtain ⟨k₁, split, holds₁⟩ := holds.splitChunk_spec placed.nodes node
    (Nat.lt_of_lt_of_le (by decide) large) (lengthEq.symm ▸ fits.2) newNode
    nextNode
  obtain ⟨k₂, marked, holds₂⟩ := holds₁.setAllocated placed.nodes node 1
  have same := holds₂.wrote.same
  have maxEq := same.heapMax
  have stateFits := state.fits
  have stateTight := state.tight
  refine ⟨k₂, ?_, ⟨⟨holds₂.wrote.paging, ?_, canonical, ?_, ?_⟩, same,
    holds₂.wrote.first, holds₂.agree⟩⟩
  · rw [Outcome.bind_of_ok split, Outcome.bind_of_ok marked,
      uint32_of_lt (by omega)]
    rfl
  · have list := list_takeChunk state.list old.proper placed.proper fits
      (Nat.lt_of_lt_of_le (by decide) large)
    rw [← lengthEq, ← holds₂.wrote.first] at list
    exact list.congr fun field other member =>
      holds₂.reads field other.start (List.mem_map.mpr ⟨other, member, rfl⟩)
  · omega
  · omega

end Taken

variable {chunks : List Segment}

/-- The first chunk sets `heap_first`, a later one goes behind the last. -/
theorem chunkStart_spec (state : HeapState img frames k chunks) :
    chunkStart img.pgdKern ((chunks.map Segment.start).getLastD 0) k =
      .ok (endOf heapStart chunks) { k with
        heapFirst := if chunks = [] then heapStart else k.heapFirst } := by
  unfold chunkStart
  have placed := state.placed
  rcases chunks.eq_nil_or_concat with rfl | ⟨front, last, rfl⟩
  · rfl
  · rw [List.concat_eq_append] at *
    have nonzero := placed.proper.nonzero last (by simp)
    have bounds := placed.bounds last (by simp)
    have upper := placed.upper
    have holds := state.paging.holdsHeaders
      ((front ++ [last]).map Segment.start)
    have length := holds.getLength placed.nodes
      (List.mem_map.mpr ⟨last, by simp, rfl⟩)
    rw [state.list.length_eq last (by simp)] at length
    have lastEq : ((front ++ [last]).map Segment.start).getLastD 0 =
        last.start := by simp
    rw [lastEq, if_pos nonzero, Outcome.bind_of_ok length, endOf_concat,
      if_neg (by simp), uint32_of_lt]
    · rfl
    · unfold Segment.stop at bounds
      omega

/-- Without a chunk that fits `kmalloc` stops for lack of a frame, or appends
a chunk behind the last one. -/
theorem kmallocExtend_spec (state : HeapState img frames k chunks)
    (large : headerSize ≤ need)
    (room : endOf heapStart chunks + need < 4294967296) :
    (∃ k', kmallocExtend img.pgdKern need
        ((chunks.map Segment.start).getLastD 0) k =
          .error (.panic "out of memory") k' ∧
      k.heapMax + (k.pmmStack.length - 1) / 2 * pageSize <
        endOf heapStart chunks + need) ∨
      ∃ k', kmallocExtend img.pgdKern need
          ((chunks.map Segment.start).getLastD 0) k =
            .ok (endOf heapStart chunks + headerSize) k' ∧
        Grown img frames k k' chunks
          (chunks ++ [⟨endOf heapStart chunks, need, true⟩]) := by
  let based : Kernel := { k with
    heapFirst := if chunks = [] then heapStart else k.heapFirst }
  have same : SamePaging img k based :=
    ⟨rfl, rfl, fun _ _ => rfl, fun _ => rfl⟩
  unfold kmallocExtend
  rw [Outcome.bind_of_ok state.chunkStart_spec]
  rcases (state.paging.transport same).allocChunk_spec room with
    ⟨k₁, stopped, few⟩ | ⟨k₁, grown, paging₁, extends₁, fits, tight⟩
  · exact .inl ⟨k₁, Outcome.bind_of_error stopped, few⟩
  · right
    rw [Outcome.bind_of_ok grown]
    have canonical := state.canonical.append large
    have endEq : endOf heapStart
        (chunks ++ [⟨endOf heapStart chunks, need, true⟩]) =
          endOf heapStart chunks + need := endOf_concat ..
    have placed : Placed k₁
        (chunks ++ [⟨endOf heapStart chunks, need, true⟩]) :=
      ⟨canonical.tiles, canonical.large, endEq ▸ fits, paging₁.heapMax_lt⟩
    have node : endOf heapStart chunks ∈ List.map Segment.start
        (chunks ++ [⟨endOf heapStart chunks, need, true⟩]) := by simp
    have lastNode : (chunks.map Segment.start).getLastD 0 ≠ 0 →
        (chunks.map Segment.start).getLastD 0 ∈ List.map Segment.start
          (chunks ++ [⟨endOf heapStart chunks, need, true⟩]) := by
      rcases chunks.eq_nil_or_concat with rfl | ⟨front, last, rfl⟩ <;> simp
    obtain ⟨k₂, written, holds⟩ := (paging₁.holdsHeaders
      (List.map Segment.start
        (chunks ++ [⟨endOf heapStart chunks, need, true⟩]))).append_spec
          placed.nodes node lastNode
    -- The headers of the old chunks are below the old `heap_max`.
    have listed : ChunkList (fieldOf (heapView img k₁)) k.heapFirst
        chunks := by
      apply state.placed.list_of_view state.list
      intro va below
      exact extends₁.view va (Nat.lt_of_lt_of_le below state.fits)
    have list := listed.append placed.proper
    have first : k₂.heapFirst = based.heapFirst :=
      holds.wrote.first.trans extends₁.first
    have firstEq : (if chunks = [] then endOf heapStart chunks
        else k.heapFirst) = k₂.heapFirst := by
      rw [first]
      by_cases empty : chunks = [] <;> simp [based, empty]
    have maxEq := holds.wrote.same.heapMax
    have stateTight := state.tight
    have maxLe := extends₁.heapMax_le
    refine ⟨k₂, ?_, ⟨⟨holds.wrote.paging, ?_, canonical, ?_, ?_⟩, ?_, ?_, ?_⟩⟩
    · rw [written, uint32_of_lt]
      omega
    · rw [firstEq] at list
      exact list.congr fun field chunk member =>
        holds.reads field chunk.start (List.mem_map.mpr ⟨chunk, member, rfl⟩)
    · omega
    · rcases tight with unchanged | bounded
      · simp only [based] at unchanged
        omega
      · omega
    · simp only [based] at maxLe
      omega
    · intro va below
      rw [holds.wrote.same.pte]
      exact extends₁.pte va below
    · intro va below outside
      rw [holds.agree va outside]
      exact extends₁.view va below

theorem servable_lt (state : HeapState img frames k chunks) {n : Nat}
    (request : Servable chunks n) : n + headerSize < 4294967296 := by
  rcases request with ⟨chunk, member, _, long⟩ | room
  · have bounds := state.placed.bounds chunk member
    have upper := state.placed.upper
    unfold Segment.stop at bounds
    omega
  · omega

/-- `kmalloc` takes the first chunk that fits; without one it appends a chunk
or stops for lack of a frame. -/
theorem kmalloc_cases (state : HeapState img frames k chunks) {n : Nat}
    (request : Servable chunks n) :
    (∃ front chunk back k', chunks = front ++ chunk :: back ∧
        (∀ other ∈ front, ¬Fits (n + headerSize) other) ∧
        Fits (n + headerSize) chunk ∧
        kmalloc img.pgdKern n k = .ok (chunk.start + headerSize) k' ∧
        Taken img frames k k' chunks
          (front ++ (takeChunk (n + headerSize) chunk ++ back))) ∨
      (∀ chunk ∈ chunks, ¬Fits (n + headerSize) chunk) ∧
        ((∃ k', kmalloc img.pgdKern n k =
            .error (.panic "out of memory") k' ∧
          k.heapMax + (k.pmmStack.length - 1) / 2 * pageSize <
            endOf heapStart chunks + (n + headerSize)) ∨
          ∃ k', kmalloc img.pgdKern n k =
              .ok (endOf heapStart chunks + headerSize) k' ∧
            Grown img frames k k' chunks
              (chunks ++ [⟨endOf heapStart chunks, n + headerSize,
                true⟩])) := by
  have large : headerSize ≤ n + headerSize := Nat.le_add_left _ _
  have needEq : uint32 (n + headerSize) = n + headerSize :=
    uint32_of_lt (state.servable_lt request)
  have first := state.list.first_eq
  have walk := state.kmallocLoop_spec (n + headerSize) 4294967296 [] chunks
    rfl state.placed.length_lt
  rw [← first] at walk
  unfold kmalloc
  simp only [needEq, KernelM.get_bind]
  rcases walk with ⟨none, walked⟩ | ⟨front, chunk, back, split, none, fits,
    walked⟩
  · right
    refine ⟨none, ?_⟩
    have room : endOf heapStart chunks + (n + headerSize) < 4294967296 := by
      rcases request with ⟨chunk, member, fits⟩ | room
      · exact absurd fits (none chunk member)
      · rwa [← Nat.add_assoc]
    simp only [List.map_nil, List.getLastD_nil] at walked
    rw [Outcome.bind_of_ok walked]
    exact state.kmallocExtend_spec large room
  · left
    subst split
    obtain ⟨k', taken, outcome⟩ := state.takeChunk_spec fits large
    simp only [List.map_nil, List.getLastD_nil] at walked
    refine ⟨front, chunk, back, k', rfl, none, fits, ?_, outcome⟩
    rw [Outcome.bind_of_ok (walked.trans taken)]
    rfl

end HeapState

/-- What every successful `kmalloc` leaves: a chunk more in use, and no byte
of the old heap changed outside the headers. -/
structure Allocated (img : KernelImage) (frames : List Nat) (n : Nat)
    (k k' : Kernel) (chunk : Segment) (chunks chunks' : List Segment) :
    Prop where
  state : HeapState img frames k' chunks'
  enough : n + headerSize ≤ chunk.len
  used : (usedOf chunks').Perm (chunk :: usedOf chunks)
  heapMax_le : k.heapMax ≤ k'.heapMax
  pte : ∀ va < k.heapMax,
    pteOf img.pgdKern k'.mem va = pteOf img.pgdKern k.mem va
  view : ∀ va < k.heapMax,
    (∀ header ∈ chunks'.map Segment.start,
      va < header ∨ header + headerSize ≤ va) →
      heapView img k' va = heapView img k va

section Allocated

variable {img : KernelImage} {frames : List Nat} {k k' : Kernel}
variable {front back chunks : List Segment} {chunk : Segment} {n : Nat}

theorem Taken.allocated (fits : Fits (n + headerSize) chunk)
    (taken : Taken img frames k k' (front ++ chunk :: back)
      (front ++ (takeChunk (n + headerSize) chunk ++ back))) :
    ∃ taken, taken.start = chunk.start ∧
      Allocated img frames n k k' taken (front ++ chunk :: back)
        (front ++ (takeChunk (n + headerSize) chunk ++ back)) := by
  have long := fits.2
  have usedEq : ∃ taken, taken.start = chunk.start ∧
      n + headerSize ≤ taken.len ∧
      usedOf (takeChunk (n + headerSize) chunk) = [taken] := by
    unfold takeChunk
    split
    · exact ⟨⟨chunk.start, n + headerSize, true⟩, rfl, Nat.le_refl _, rfl⟩
    · exact ⟨{ chunk with used := true }, rfl, long, rfl⟩
  obtain ⟨new, start, enough, one⟩ := usedEq
  refine ⟨new, start, taken.state, enough, ?_,
    Nat.le_of_eq taken.same.heapMax.symm, fun va _ => taken.same.pte va,
    fun va _ outside => taken.agree va outside⟩
  unfold usedOf at one ⊢
  rw [List.filter_append, List.filter_append, one, List.filter_append,
    List.filter_cons, if_neg (by simp [fits.1])]
  exact List.perm_middle

theorem Grown.allocated
    (grown : Grown img frames k k' chunks
      (chunks ++ [⟨endOf heapStart chunks, n + headerSize, true⟩])) :
    Allocated img frames n k k'
      ⟨endOf heapStart chunks, n + headerSize, true⟩ chunks
      (chunks ++ [⟨endOf heapStart chunks, n + headerSize, true⟩]) where
  state := grown.state
  enough := Nat.le_refl _
  used := by
    unfold usedOf
    rw [List.filter_append]
    exact List.perm_append_comm
  heapMax_le := grown.heapMax_le
  pte := grown.pte
  view := grown.view

theorem HeapState.kmalloc_spec (state : HeapState img frames k chunks)
    {n : Nat} (request : Servable chunks n) :
    (∃ k', kmalloc img.pgdKern n k = .error (.panic "out of memory") k' ∧
      k.heapMax + (k.pmmStack.length - 1) / 2 * pageSize <
        endOf heapStart chunks + (n + headerSize)) ∨
      ∃ k' chunk chunks', kmalloc img.pgdKern n k =
          .ok (chunk.start + headerSize) k' ∧
        Allocated img frames n k k' chunk chunks chunks' := by
  rcases state.kmalloc_cases request with
    ⟨front, chunk, back, k', rfl, _, fits, returned, taken⟩ |
    ⟨_, stopped | ⟨k', returned, grown⟩⟩
  · obtain ⟨new, start, allocated⟩ := taken.allocated fits
    exact .inr ⟨k', new, _, start ▸ returned, allocated⟩
  · exact .inl stopped
  · exact .inr ⟨k', ⟨endOf heapStart chunks, n + headerSize, true⟩, _,
      returned, grown.allocated⟩

end Allocated

end MiniOS
