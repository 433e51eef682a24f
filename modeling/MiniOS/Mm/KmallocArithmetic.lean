import MiniOS.Mm.HeapRun

/-!
# The 32-bit arithmetic of `kmalloc`

The size with the header, the end of a new chunk and the 31-bit length can
wrap.  A request gets a block of its size exactly when a free chunk serves it
or the end of the new chunk does not wrap.
-/

namespace MiniOS

open ByteMemory Tiling

/-- The chunk of the block is as long as was asked for, and the block is
mapped memory below `heap_max`. -/
structure SafeBlock (pgdKern : Nat) (k : Kernel) (block : Block) : Prop where
  stored : ∃ length,
    getLength pgdKern (sub32 block.ptr headerSize) k = .ok length k ∧
      block.size + headerSize ≤ length
  below_max : block.ptr + block.size ≤ k.heapMax
  below_4GB : block.ptr + block.size ≤ 4294967296
  mapped : ∀ va, block.Covers va →
    (mmuWalk k.mem (pgdKern - pageOffset) va).isSome

/-- A routine that leaves `heap_max` alone. -/
def KeepsMax {α : Type} (m : KernelM α) : Prop :=
  ∀ k a k', m k = .ok a k' → k'.heapMax = k.heapMax

theorem HeapAccess.keepsMax {α : Type} {pgdKern : Nat} {m : KernelM α}
    (access : HeapAccess pgdKern m) : KeepsMax m := by
  induction access with
  | pure a =>
      intro k _ k' returned
      cases returned
      rfl
  | read8 va =>
      intro k _ k' returned
      simp only [MiniOS.read8, KernelM.get_bind] at returned
      cases walk : mmuWalk k.mem (pgdKern - pageOffset) va <;>
        simp only [walk] at returned <;> cases returned
      rfl
  | write8 va byte =>
      intro k _ k' returned
      simp only [MiniOS.write8, KernelM.get_bind] at returned
      cases walk : mmuWalk k.mem (pgdKern - pageOffset) va <;>
        simp only [walk] at returned <;> cases returned
      rfl
  | bind _ _ keeps keepsNext =>
      intro k _ k' returned
      obtain ⟨a, k₁, step, rest⟩ := Outcome.bind_eq_ok returned
      exact (keepsNext a k₁ _ k' rest).trans (keeps k a k₁ step)

theorem getLength_lt {pgdKern header length : Nat} {k k' : Kernel}
    (returned : getLength pgdKern header k = .ok length k') :
    length < 2147483648 := by
  unfold getLength read32 at returned
  simp only [bind_assoc, pure_bind] at returned
  obtain ⟨b₀, k₁, _, returned⟩ := Outcome.bind_eq_ok returned
  obtain ⟨b₁, k₂, _, returned⟩ := Outcome.bind_eq_ok returned
  obtain ⟨b₂, k₃, _, returned⟩ := Outcome.bind_eq_ok returned
  obtain ⟨b₃, k₄, _, returned⟩ := Outcome.bind_eq_ok returned
  cases returned
  have small := word_lt b₀ b₁ b₂ b₃
  omega

theorem allocChunk_still {pgdKern start len : Nat} {k : Kernel}
    (low : uint32 (start + len) ≤ k.heapMax) :
    allocChunk pgdKern start len k = .ok () k := by
  unfold allocChunk
  rw [KernelM.get_bind, allocChunkLoop, KernelM.get_bind, if_neg (by omega)]
  rfl

namespace HeapState

variable {img : KernelImage} {frames : List Nat} {k k' : Kernel}
variable {chunks : List Segment} {chunk : Segment} {n p : Nat}

theorem safeBlock (state : HeapState img frames k chunks)
    (member : chunk ∈ chunks) (enough : n + headerSize ≤ chunk.len) :
    SafeBlock img.pgdKern k ⟨chunk.start + headerSize, n⟩ := by
  have placed := state.placed
  have bounds := placed.bounds chunk member
  have upper := placed.upper
  have holds := state.paging.holdsHeaders (chunks.map Segment.start)
  have length := holds.getLength placed.nodes
    (List.mem_map.mpr ⟨chunk, member, rfl⟩)
  rw [state.list.length_eq chunk member] at length
  unfold Segment.stop at bounds
  have header : sub32 (chunk.start + headerSize) headerSize = chunk.start := by
    rw [sub32_eq (Nat.le_add_left _ _) (by omega), Nat.add_sub_cancel]
  refine ⟨⟨chunk.len, ?_, enough⟩, ?_, ?_, ?_⟩
  · rw [header]
    exact length
  · simp only
    omega
  · simp only
    omega
  · rintro va ⟨lower, below⟩
    simp only at lower below
    rw [state.paging.walk_heap (by omega) (by omega)]
    rfl

/-- A request that no free chunk serves and whose end wraps gets the end of
the heap as it is. -/
theorem kmalloc_wrapped (state : HeapState img frames k chunks)
    (small : n + headerSize < 4294967296) (unserved : ¬ Servable chunks n)
    (returned : kmalloc img.pgdKern n k = .ok p k') :
    p = endOf heapStart chunks + headerSize ∧ k'.heapMax = k.heapMax := by
  have maxRoom := state.paging.heapMax_room
  have fits := state.fits
  have first := state.list.first_eq
  have wraps : 4294967296 ≤ endOf heapStart chunks + (n + headerSize) := by
    by_contra room
    exact unserved (.inr (by omega))
  have walk := state.kmallocLoop_spec (n + headerSize) 4294967296 [] chunks
    rfl state.placed.length_lt
  rw [← first] at walk
  unfold kmalloc at returned
  simp only [uint32_of_lt small, KernelM.get_bind] at returned
  rcases walk with ⟨none, walked⟩ | ⟨front, chunk, back, split, none, fit, _⟩
  · simp only [List.map_nil, List.getLastD_nil] at walked
    rw [Outcome.bind_of_ok walked] at returned
    simp only [kmallocExtend] at returned
    rw [Outcome.bind_of_ok state.chunkStart_spec] at returned
    have low : uint32 (endOf heapStart chunks + (n + headerSize)) ≤
        k.heapMax := by
      simp only [uint32]
      omega
    obtain ⟨_, k₀, grown, returned⟩ := Outcome.bind_eq_ok returned
    cases grown.symm.trans (allocChunk_still low)
    have max := (HeapAccess.append _ _ _ _).keepsMax _ _ _ returned
    obtain ⟨_, _, _, returned⟩ := Outcome.bind_eq_ok returned
    obtain ⟨_, _, _, returned⟩ := Outcome.bind_eq_ok returned
    obtain ⟨_, _, _, returned⟩ := Outcome.bind_eq_ok returned
    obtain ⟨_, _, _, returned⟩ := Outcome.bind_eq_ok returned
    obtain ⟨_, _, _, returned⟩ := Outcome.bind_eq_ok returned
    cases returned
    exact ⟨uint32_of_lt (by simp only [headerSize, pageSize] at *; omega), max⟩
  · refine absurd (.inl ⟨chunk, ?_, fit⟩) unserved
    rw [split]
    simp

/-- A new header that fits below `heap_max` is written there, whatever length
is stored. -/
theorem kmallocExtend_inPlace (state : HeapState img frames k chunks)
    {need : Nat} (header : endOf heapStart chunks + headerSize ≤ k.heapMax)
    (low : uint32 (endOf heapStart chunks + need) ≤ k.heapMax) :
    ∃ k', kmallocExtend img.pgdKern need
      ((chunks.map Segment.start).getLastD 0) k =
        .ok (uint32 (endOf heapStart chunks + headerSize)) k' := by
  let based : Kernel := { k with
    heapFirst := if chunks = [] then heapStart else k.heapFirst }
  have same : SamePaging img k based :=
    ⟨rfl, rfl, fun _ _ => rfl, fun _ => rfl⟩
  let nodes := List.map Segment.start
    (chunks ++ [⟨endOf heapStart chunks, headerSize, true⟩])
  have canonical := state.canonical.append (Nat.le_refl headerSize)
  have endEq : endOf heapStart (chunks ++
      [⟨endOf heapStart chunks, headerSize, true⟩]) =
        endOf heapStart chunks + headerSize := endOf_concat ..
  have placed : Placed based
      (chunks ++ [⟨endOf heapStart chunks, headerSize, true⟩]) :=
    ⟨canonical.tiles, canonical.large, endEq ▸ header, state.placed.upper⟩
  have lastNode : (chunks.map Segment.start).getLastD 0 ≠ 0 →
      (chunks.map Segment.start).getLastD 0 ∈ nodes := by
    simp only [nodes]
    rcases chunks.eq_nil_or_concat with rfl | ⟨front, last, rfl⟩ <;> simp
  obtain ⟨k', written, _⟩ :=
    ((state.paging.transport same).holdsHeaders nodes).append_spec
      placed.nodes (show endOf heapStart chunks ∈ nodes by simp [nodes])
      lastNode
  refine ⟨k', ?_⟩
  unfold kmallocExtend
  rw [Outcome.bind_of_ok state.chunkStart_spec]
  exact (Outcome.bind_of_ok (allocChunk_still (k := based) low)).trans written

theorem kmalloc_inPlace (state : HeapState img frames k chunks)
    (none : ∀ chunk ∈ chunks, ¬Fits (uint32 (n + headerSize)) chunk)
    (header : endOf heapStart chunks + headerSize ≤ k.heapMax)
    (low : uint32 (endOf heapStart chunks + uint32 (n + headerSize)) ≤
      k.heapMax) :
    ∃ k', kmalloc img.pgdKern n k =
      .ok (uint32 (endOf heapStart chunks + headerSize)) k' := by
  obtain ⟨k', extended⟩ := state.kmallocExtend_inPlace header low
  refine ⟨k', ?_⟩
  have walk := state.kmallocLoop_spec (uint32 (n + headerSize)) 4294967296 []
    chunks rfl state.placed.length_lt
  rw [List.map_nil, List.getLastD_nil, ← state.list.first_eq] at walk
  unfold kmalloc
  simp only [KernelM.get_bind]
  rcases walk with ⟨_, walked⟩ | ⟨front, chunk, back, split, _, fit, _⟩
  · rw [Outcome.bind_of_ok walked]
    exact extended
  · refine absurd fit (none chunk ?_)
    rw [split]
    simp

theorem unsafe_of_unserved (state : HeapState img frames k chunks)
    (unserved : ¬ Servable chunks n)
    (returned : kmalloc img.pgdKern n k = .ok p k') :
    ¬ SafeBlock img.pgdKern k' ⟨p, n⟩ := by
  rintro ⟨⟨length, stored, enough⟩, below, _, _⟩
  have short := getLength_lt stored
  simp only at enough below
  obtain ⟨rfl, max⟩ := state.kmalloc_wrapped (by omega) unserved returned
  have upper := state.placed.upper
  have room : ¬ endOf heapStart chunks + n + headerSize < 4294967296 :=
    fun room => unserved (.inr room)
  omega

theorem safeBlock_iff (state : HeapState img frames k chunks)
    (returned : kmalloc img.pgdKern n k = .ok p k') :
    SafeBlock img.pgdKern k' ⟨p, n⟩ ↔ Servable chunks n := by
  constructor
  · intro safe
    by_contra unserved
    exact state.unsafe_of_unserved unserved returned safe
  · intro request
    rcases state.kmalloc_spec request with
      ⟨last, stopped, _⟩ | ⟨last, chunk, chunks', returned', allocated⟩
    · rw [returned] at stopped
      cases stopped
    · cases returned.symm.trans returned'
      have used : chunk ∈ usedOf chunks' :=
        allocated.used.mem_iff.mpr (List.mem_cons_self ..)
      exact allocated.state.safeBlock (List.mem_filter.mp used).1
        allocated.enough

end HeapState

/-- In every run of safe requests, whatever `kmalloc` returns next is safe
exactly if the request is. -/
theorem kmalloc_safe_iff (img : KernelImage) (frames : List Nat)
    (usable : ∀ frame ∈ frames, UsableFrame img frame)
    (distinct : frames.Nodup) {k : Kernel} {live : List Block}
    (run : SafeRun img frames k live) {n p : Nat} {k' : Kernel}
    (returned : kmalloc img.pgdKern n k = .ok p k') :
    SafeBlock img.pgdKern k' ⟨p, n⟩ ↔ SafeRequest img.pgdKern k n := by
  obtain ⟨chunks, state, _⟩ := run.invariant usable distinct
  rw [state.safeBlock_iff returned, state.safeRequest_iff]

/-- After boot a request of 16 bytes is safe. -/
theorem kmalloc_safe_firstBlock :
    ∃ p k', kmalloc sampleImage.pgdKern 16 sampleBoot = .ok p k' ∧
      SafeBlock sampleImage.pgdKern k' ⟨p, 16⟩ := by
  obtain ⟨k', returned, _⟩ := exists_firstBlock
  refine ⟨_, k', returned, ?_⟩
  rw [kmalloc_safe_iff sampleImage sampleFrames sampleFrames_usable
    sampleFrames_nodup (.start sampleBoot_started) returned]
  exact .inr (by rw [sampleBoot_state.heapEnd_eq]; decide)

/-- `kmalloc(0xFFFFFFF8)` after a small request: with the header the size
wraps to 4. -/
theorem kmalloc_unsafe_hugeRequest :
    ¬ ∀ (img : KernelImage) (frames : List Nat),
      (∀ frame ∈ frames, UsableFrame img frame) → frames.Nodup →
      ∀ (k : Kernel) (live : List Block), SafeRun img frames k live →
        ∀ n < 4294967296, ∀ (p : Nat) (k' : Kernel),
          kmalloc img.pgdKern n k = .ok p k' →
            SafeBlock img.pgdKern k' ⟨p, n⟩ := by
  intro safe
  obtain ⟨k, returned, state⟩ := exists_firstBlock
  have run := (SafeRun.start sampleBoot_started).kmalloc
    (.inr (by rw [sampleBoot_state.heapEnd_eq]; decide)) returned
  have unserved :
      ¬ Servable [⟨heapStart, 16 + headerSize, true⟩] 0xFFFFFFF8 := by
    rintro (⟨chunk, member, free, _⟩ | room)
    · obtain rfl := List.mem_singleton.mp member
      cases free
    · exact absurd room (by decide)
  have fits := state.fits
  have aligned := state.paging.heapMax_aligned
  have endEq : endOf heapStart [(⟨heapStart, 16 + headerSize,
      true⟩ : Segment)] = heapStart + 28 := rfl
  rw [endEq] at fits
  obtain ⟨k', returned'⟩ := state.kmalloc_inPlace (n := 0xFFFFFFF8)
    (by
      intro chunk member fit
      obtain rfl := List.mem_singleton.mp member
      cases fit.1)
    (by
      rw [endEq]
      simp only [heapStart, headerSize, pageSize] at *
      omega)
    (by
      rw [endEq]
      simp only [heapStart, headerSize, pageSize, uint32] at *
      omega)
  exact state.unsafe_of_unserved unserved returned'
    (safe _ _ sampleFrames_usable sampleFrames_nodup _ _ run _ (by decide) _ _
      returned')

end MiniOS
