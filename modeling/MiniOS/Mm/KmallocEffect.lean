import MiniOS.Mm.HeapContract

/-!
# What `kmalloc` changes, and `kfree` takes back

`kmalloc` marks or cuts the first chunk that fits and leaves paging alone, or
appends one chunk.  Either way the chunks in use are the old ones and one more,
so that `kfree` of the result leaves the old ones: they force the old list.
-/

namespace MiniOS

open ByteMemory Tiling

namespace HeapState

variable {img : KernelImage} {frames : List Nat} {k k' : Kernel}
variable {chunks chunks' : List Segment} {n p : Nat}

theorem first_lowest {front back : List Segment} {chunk : Segment}
    (state : HeapState img frames k (front ++ chunk :: back))
    {fits : Segment → Prop} (none : ∀ other ∈ front, ¬fits other)
    {other : Segment} (member : other ∈ front ++ chunk :: back)
    (fit : fits other) : chunk.start ≤ other.start := by
  have ordered := state.canonical.tiles.ordered
  rw [List.pairwise_append, List.pairwise_cons] at ordered
  rcases List.mem_append.mp member with early | late
  · exact absurd fit (none other early)
  · rcases List.mem_cons.mp late with rfl | later
    · exact Nat.le_refl _
    · have before := ordered.2.1.1 other later
      unfold Segment.stop at before
      omega

theorem takeChunk_split (need : Nat) (chunk : Segment) :
    ∃ taken rest, takeChunk need chunk = taken :: rest ∧
      taken.start = chunk.start ∧ usedOf rest = [] := by
  unfold takeChunk
  split
  · exact ⟨_, _, rfl, rfl, rfl⟩
  · exact ⟨_, [], rfl, rfl, rfl⟩

theorem kmalloc_used (state : HeapState img frames k chunks)
    (request : Servable chunks n)
    (returned : kmalloc img.pgdKern n k = .ok p k') :
    ∃ front chunk back, p = chunk.start + headerSize ∧
      HeapState img frames k' (front ++ chunk :: back) ∧
      usedOf front ++ usedOf back = usedOf chunks ∧
      (k'.heapMax = k.heapMax ∨
        endOf heapStart chunks + (n + headerSize) ≤ k'.heapMax ∧
          k.heapMax ≤ k'.heapMax) := by
  rcases state.kmalloc_cases request with
    ⟨front, chunk, back, last, rfl, _, fits, returned', outcome⟩ |
    ⟨_, ⟨_, stopped, _⟩ | ⟨last, returned', grown⟩⟩
  · cases returned.symm.trans returned'
    obtain ⟨taken, rest, split, start, unused⟩ :=
      takeChunk_split (n + headerSize) chunk
    have state' := outcome.state
    rw [split] at state'
    refine ⟨front, taken, rest ++ back, start ▸ rfl, state', ?_,
      .inl outcome.same.heapMax⟩
    unfold usedOf at unused ⊢
    rw [List.filter_append, unused, List.nil_append, List.filter_append,
      List.filter_cons, if_neg (by simp [fits.1])]
  · cases returned.symm.trans stopped
  · cases returned.symm.trans returned'
    refine ⟨chunks, ⟨endOf heapStart chunks, n + headerSize, true⟩, [], rfl,
      grown.state, List.append_nil _, .inr ⟨?_, grown.heapMax_le⟩⟩
    have fits := grown.state.fits
    rw [endOf_concat] at fits
    exact fits

theorem kfree_kmalloc (state : HeapState img frames k chunks)
    (request : Servable chunks n)
    (returned : kmalloc img.pgdKern n k = .ok p k') :
    ∃ k'', kfree img.pgdKern p k' = .ok () k'' ∧
      HeapState img frames k'' chunks ∧
      (k''.heapMax = k.heapMax ∨ k''.heapMax = k.heapMax + pageSize ∧
        endOf heapStart chunks = k.heapMax ∧ k.heapMax < k'.heapMax) := by
  obtain ⟨front, chunk, back, rfl, state', used, grown⟩ :=
    state.kmalloc_used request returned
  obtain ⟨k'', chunks'', freed, undone, usedEq⟩ := state'.kfree_spec
  obtain rfl : chunks'' = chunks :=
    undone.state.canonical.unique (by decide) state.canonical
      (usedEq.trans used)
  refine ⟨k'', freed, undone.state, ?_⟩
  have fits := state.fits
  have tight := state.tight
  have aligned := state.paging.heapMax_aligned
  have last := undone.heapMax_eq
  rcases grown with same | ⟨room, le⟩
  · left
    rw [last, same]
    exact min_roundDown aligned tight
  · have bounds := roundDown_bounds (endOf heapStart chunks'')
    have floor := roundDown_mod (endOf heapStart chunks'') pageSize
    have aligned' := state'.paging.heapMax_aligned
    simp only [pageSize] at *
    omega

end HeapState

/-- `kmalloc` takes the lowest hole that is long enough, and only without one
appends a chunk. -/
theorem kmalloc_effect (img : KernelImage) (frames : List Nat)
    (usable : ∀ frame ∈ frames, UsableFrame img frame)
    (distinct : frames.Nodup) {k : Kernel} {live : List Block}
    (run : SafeRun img frames k live) {n : Nat}
    (request : SafeRequest img.pgdKern k n) :
    ∃ chunks, ListReads img.pgdKern k chunks ∧
      ((∃ chunk ∈ chunks, Fits (n + headerSize) chunk) →
        ∃ front chunk back k', chunks = front ++ chunk :: back ∧
          Fits (n + headerSize) chunk ∧
          (∀ other ∈ chunks, Fits (n + headerSize) other →
            chunk.start ≤ other.start) ∧
          kmalloc img.pgdKern n k = .ok (chunk.start + headerSize) k' ∧
          SamePaging img k k' ∧ k'.heapFirst = k.heapFirst ∧
          ListReads img.pgdKern k'
            (front ++ (takeChunk (n + headerSize) chunk ++ back))) ∧
      ((∀ chunk ∈ chunks, ¬Fits (n + headerSize) chunk) →
        ((∃ k', kmalloc img.pgdKern n k =
            .error (.panic "out of memory") k' ∧
          k.heapMax + (k.pmmStack.length - 1) / 2 * pageSize <
            endOf heapStart chunks + (n + headerSize)) ∨
          ∃ k', kmalloc img.pgdKern n k =
              .ok (endOf heapStart chunks + headerSize) k' ∧
            ListReads img.pgdKern k' (chunks ++
              [⟨endOf heapStart chunks, n + headerSize, true⟩]))) := by
  obtain ⟨chunks, state, _⟩ := run.invariant usable distinct
  refine ⟨chunks, state.readable.listReads, ?_⟩
  rcases state.kmalloc_cases (state.safeRequest_iff.mp request) with
    ⟨front, chunk, back, k', rfl, none, fits, returned, taken⟩ |
    ⟨none, outcome⟩
  · constructor
    · intro _
      exact ⟨front, chunk, back, k', rfl, fits,
        fun other member => state.first_lowest none member, returned,
        taken.same, taken.first, taken.state.readable.listReads⟩
    · intro without
      exact absurd fits (without chunk (by simp))
  · constructor
    · rintro ⟨chunk, member, fits⟩
      exact absurd fits (none chunk member)
    · intro _
      rcases outcome with stopped | ⟨k', returned, grown⟩
      · exact .inl stopped
      · exact .inr ⟨k', returned, grown.state.readable.listReads⟩

/-- A hole of 112 bytes is split. -/
theorem kmalloc_effect_hole :
    ∃ k k', SafeRun sampleImage sampleFrames k [⟨heapStart + 124, 16⟩] ∧
      kmalloc sampleImage.pgdKern 16 k = .ok (heapStart + headerSize) k' ∧
      ListReads sampleImage.pgdKern k' [⟨heapStart, 28, true⟩,
        ⟨heapStart + 28, 84, false⟩, ⟨heapStart + 112, 28, true⟩] := by
  obtain ⟨k, run, state⟩ := exists_hole
  have fits : ∃ chunk ∈ [(⟨heapStart, 112, false⟩ : Segment),
      ⟨heapStart + 112, 28, true⟩], Fits (16 + headerSize) chunk :=
    ⟨_, List.mem_cons_self, by simp [Fits, headerSize]⟩
  have request : SafeRequest sampleImage.pgdKern k 16 :=
    state.safeRequest_iff.mpr (.inl fits)
  obtain ⟨chunks, reads, takes, _⟩ :=
    kmalloc_effect sampleImage sampleFrames sampleFrames_usable
      sampleFrames_nodup run request
  obtain rfl := reads.unique state.chunkList_eq
  obtain ⟨front, chunk, back, k', split, fit, lowest, returned, _, _,
    after⟩ := takes fits
  -- the second chunk is in use
  obtain ⟨rfl, rfl, rfl⟩ : front = [] ∧
      chunk = ⟨heapStart, 112, false⟩ ∧ back = [⟨heapStart + 112, 28, true⟩] := by
    cases front with
    | nil => simpa [eq_comm] using split
    | cons first front =>
        have second : chunk ∈ [(⟨heapStart + 112, 28, true⟩ : Segment)] := by
          rw [(List.cons.inj split).2]
          simp
        obtain rfl := List.mem_singleton.mp second
        cases fit.1
  exact ⟨k, k', run, returned, after⟩

/-- `kfree` of what `kmalloc` has just returned leaves the list as it was. -/
theorem kfree_undoes_kmalloc (img : KernelImage) (frames : List Nat)
    (usable : ∀ frame ∈ frames, UsableFrame img frame)
    (distinct : frames.Nodup) {k : Kernel} {live : List Block}
    (run : SafeRun img frames k live) {n p : Nat} {k' : Kernel}
    (request : SafeRequest img.pgdKern k n)
    (returned : kmalloc img.pgdKern n k = .ok p k') :
    ∃ k'' chunks, kfree img.pgdKern p k' = .ok () k'' ∧
      ListReads img.pgdKern k chunks ∧ ListReads img.pgdKern k'' chunks ∧
      k''.heapFirst = k.heapFirst ∧
      (k''.heapMax = k.heapMax ∨ k''.heapMax = k.heapMax + pageSize ∧
        heapEnd img.pgdKern k = k.heapMax ∧ k.heapMax < k'.heapMax) := by
  obtain ⟨chunks, state, _⟩ := run.invariant usable distinct
  obtain ⟨k'', freed, undone, max⟩ :=
    state.kfree_kmalloc (state.safeRequest_iff.mp request) returned
  refine ⟨k'', chunks, freed, state.readable.listReads, undone.readable.listReads,
    undone.list.first_eq.trans state.list.first_eq.symm, ?_⟩
  rwa [state.heapEnd_eq]

/-- The hole that was split is whole again. -/
theorem kfree_undoes_hole :
    ∃ k p k' k'', SafeRun sampleImage sampleFrames k [⟨heapStart + 124, 16⟩] ∧
      kmalloc sampleImage.pgdKern 16 k = .ok p k' ∧
      kfree sampleImage.pgdKern p k' = .ok () k'' ∧
      ListReads sampleImage.pgdKern k'' [⟨heapStart, 112, false⟩,
        ⟨heapStart + 112, 28, true⟩] := by
  obtain ⟨k, run, state⟩ := exists_hole
  have request : SafeRequest sampleImage.pgdKern k 16 :=
    state.safeRequest_iff.mpr
      (.inl ⟨_, List.mem_cons_self, by simp [Fits, headerSize]⟩)
  obtain ⟨p, k', returned⟩ : ∃ p k',
      kmalloc sampleImage.pgdKern 16 k = .ok p k' := by
    rcases state.kmalloc_cases (state.safeRequest_iff.mp request) with
      ⟨_, _, _, k', _, _, _, returned, _⟩ | ⟨none, _⟩
    · exact ⟨_, k', returned⟩
    · exact absurd (by simp [Fits, headerSize]) (none _ List.mem_cons_self)
  obtain ⟨k'', chunks, freed, before, after, _⟩ :=
    kfree_undoes_kmalloc sampleImage sampleFrames sampleFrames_usable
      sampleFrames_nodup run request returned
  obtain rfl := before.unique state.chunkList_eq
  exact ⟨k, p, k', k'', run, returned, freed, after⟩

end MiniOS
