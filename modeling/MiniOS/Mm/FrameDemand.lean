import MiniOS.Mm.OutOfFrames

/-!
# The frames that a request takes

Without a chunk that fits `kmalloc` maps the pages that are missing below the
end of the new chunk, and adds a table where 4 MB begin that have none.  Both
can be counted before the call.
-/

namespace MiniOS

open ByteMemory Tiling

/-- The pages that are missing below `stop`. -/
def pagesTo (k : Kernel) (stop : Nat) : Nat :=
  (stop - k.heapMax + (pageSize - 1)) / pageSize

/-- The heap has grown up to `stop`, and the frames that took are gone. -/
structure GrownTo (img : KernelImage) (k k' : Kernel) (stop : Nat) :
    Prop where
  heapMax : k'.heapMax = pageBehind k (pagesTo k stop)
  taken : k.pmmStack.length =
    k'.pmmStack.length + framesFor img k (pagesTo k stop)

instance (need : Nat) : DecidablePred (Fits need) :=
  fun _ => inferInstanceAs (Decidable (_ ∧ _))

/-- The frames that `kmalloc(n)` takes off the page stack. -/
def framesDemanded (img : KernelImage) (k : Kernel) (n : Nat) : Nat :=
  match chunkList img.pgdKern k with
  | .ok chunks _ =>
      if ∃ chunk ∈ chunks, Fits (n + headerSize) chunk then 0
      else framesFor img k
        (pagesTo k (endOf heapStart chunks + (n + headerSize)))
  | .error _ _ => 0

/-! ## The growth loop -/

section Loop

variable {img : KernelImage} {frames : List Nat} {k k' : Kernel}
variable {stop : Nat}

theorem pagesTo_reached (reached : stop ≤ k.heapMax) : pagesTo k stop = 0 := by
  unfold pagesTo
  rw [Nat.sub_eq_zero_of_le reached]
  rfl

/-- A round brings the end a page nearer. -/
theorem pagesTo_grown (k' : Kernel) (short : k.heapMax < stop) :
    pagesTo k stop =
      pagesTo { k' with heapMax := k.heapMax + pageSize } stop + 1 := by
  simp only [pagesTo, pageSize]
  omega

theorem pageCost_le_framesFor (paging : HeapPaging img frames k)
    (pages : Nat) : pageCost img k ≤ framesFor img k (pages + 1) := by
  have here : pageBehind k 0 = k.heapMax := by simp [pageBehind]
  unfold framesFor
  rw [List.range_succ_eq_map, List.countP_cons, pageCost_eq paging, here]
  simp only [decide_eq_true_eq]
  split <;> omega

theorem GrownTo.reached (reached : stop ≤ k.heapMax) :
    GrownTo img k k stop := by
  constructor
  · rw [pagesTo_reached reached]
    exact (Nat.add_zero _).symm
  · rw [pagesTo_reached reached]
    rfl

theorem GrownTo.behind {k'' : Kernel} (paging : HeapPaging img frames k)
    (short : k.heapMax < stop) (grown : PageGrown img frames k k')
    (rest : GrownTo img { k' with heapMax := k.heapMax + pageSize } k'' stop) :
    GrownTo img k k'' stop := by
  have pages := pagesTo_grown k' short
  constructor
  · rw [rest.heapMax, pages]
    simp only [pageBehind, pageSize]
    omega
  · have taken := rest.taken
    have first := grown.taken
    rw [pages, framesFor_succ paging grown]
    simp only at taken
    omega

/-- The loop returns if there are frames for the missing pages and their
tables, and takes these. -/
theorem allocChunkLoop_demand (rounds : Nat) {start len : Nat}
    (paging : HeapPaging img frames k) (room : start + len < 4294967296)
    (enough : k.pmmStack.length < rounds) :
    (∃ k', allocChunkLoop img.pgdKern start len rounds k =
        .error (.panic "out of memory") k' ∧
      k.pmmStack.length < framesFor img k (pagesTo k (start + len))) ∨
      ∃ k', allocChunkLoop img.pgdKern start len rounds k = .ok () k' ∧
        GrownTo img k k' (start + len) := by
  induction rounds generalizing k with
  | zero => omega
  | succ rounds induction =>
      rw [allocChunkLoop, KernelM.get_bind, uint32_of_lt room]
      split
      case isFalse reached =>
        exact .inr ⟨k, rfl, .reached (Nat.le_of_not_lt reached)⟩
      rename_i short
      have pages := pagesTo_grown k short
      have first := pageCost_le_framesFor paging
        (pagesTo { k with heapMax := k.heapMax + pageSize } (start + len))
      have cost := pageCost_range img k
      rw [growPage_bind]
      rcases paging.growRound with
        ⟨none, returned⟩ | ⟨frame, one, missing, returned⟩ |
        ⟨k₁, returned, grown⟩
      · refine .inl ⟨k, Outcome.bind_of_error returned, ?_⟩
        rw [none, pages, List.length_nil]
        exact Nat.lt_of_lt_of_le cost.1 first
      · refine .inl ⟨_, Outcome.bind_of_error returned, ?_⟩
        have two : pageCost img k = 2 := if_pos missing
        rw [one, pages, List.length_singleton]
        exact Nat.lt_of_lt_of_le (by rw [two]; decide) first
      · have below := paging.heapMax_room
        have taken := grown.taken
        rw [Outcome.bind_of_ok returned, KernelM.modify_bind, grown.heapMax,
          uint32_of_lt (by simp only [pageSize] at *; omega)]
        rcases induction grown.paging (by simp only; omega) with
          ⟨last, stopped, few⟩ | ⟨last, looped, rest⟩
        · refine .inl ⟨last, stopped, ?_⟩
          rw [pagesTo_grown k₁ short, framesFor_succ paging grown]
          simp only at few
          omega
        · exact .inr ⟨last, looped, rest.behind paging short grown⟩

end Loop

/-! ## `kmalloc` -/

theorem HeapAccess.only_memory {α : Type} {pgdKern : Nat} {m : KernelM α}
    (access : HeapAccess pgdKern m) :
    ∀ k a k', m k = .ok a k' → k' = { k with mem := k'.mem } := by
  induction access with
  | pure a =>
      intro k _ k' returned
      cases returned
      rfl
  | read8 va =>
      intro k _ k' returned
      simp only [MiniOS.read8, KernelM.get_bind] at returned
      cases walk : mmuWalk k.mem (pgdKern - pageOffset) va <;>
        simp only [walk] at returned <;> cases returned
      rfl
  | write8 va byte =>
      intro k _ k' returned
      simp only [MiniOS.write8, KernelM.get_bind] at returned
      cases walk : mmuWalk k.mem (pgdKern - pageOffset) va <;>
        simp only [walk] at returned <;> cases returned
      rfl
  | bind _ _ keeps keepsNext =>
      intro k _ k' returned
      obtain ⟨a, k₁, step, rest⟩ := Outcome.bind_eq_ok returned
      rw [keepsNext a k₁ _ k' rest, keeps k a k₁ step]

namespace HeapState

variable {img : KernelImage} {frames : List Nat} {k k' : Kernel}
variable {chunks : List Segment} {n : Nat}

/-- When no chunk fits the growth loop runs, and then the new header is
written. -/
theorem kmalloc_grows (state : HeapState img frames k chunks)
    (small : n + headerSize < 4294967296)
    (none : ∀ chunk ∈ chunks, ¬Fits (n + headerSize) chunk) :
    ∃ header : KernelM Nat, HeapAccess img.pgdKern header ∧
      kmalloc img.pgdKern n k =
        (allocChunk img.pgdKern (endOf heapStart chunks) (n + headerSize) >>=
          fun _ => header) (beforeGrowth k chunks) := by
  refine ⟨_, .append img.pgdKern (n + headerSize)
    ((chunks.map Segment.start).getLastD 0) (endOf heapStart chunks), ?_⟩
  have walk := state.kmallocLoop_spec (n + headerSize) 4294967296 [] chunks
    rfl state.placed.length_lt
  rw [List.map_nil, List.getLastD_nil, ← state.list.first_eq] at walk
  unfold kmalloc
  simp only [KernelM.get_bind, uint32_of_lt small]
  rcases walk with ⟨_, walked⟩ | ⟨front, chunk, back, split, _, fit, _⟩
  · rw [Outcome.bind_of_ok walked]
    simp only [kmallocExtend]
    exact Outcome.bind_of_ok state.chunkStart_spec
  · refine absurd fit (none chunk ?_)
    rw [split]
    simp

/-- Without a chunk that fits the frames decide, and only those that are
needed are taken. -/
theorem kmalloc_demand (state : HeapState img frames k chunks)
    (none : ∀ chunk ∈ chunks, ¬Fits (n + headerSize) chunk)
    (room : endOf heapStart chunks + (n + headerSize) < 4294967296) :
    (∃ k', kmalloc img.pgdKern n k = .error (.panic "out of memory") k' ∧
      k.pmmStack.length < framesFor img k
        (pagesTo k (endOf heapStart chunks + (n + headerSize)))) ∨
      ∃ k', kmalloc img.pgdKern n k =
          .ok (endOf heapStart chunks + headerSize) k' ∧
        HeapState img frames k'
          (chunks ++ [⟨endOf heapStart chunks, n + headerSize, true⟩]) ∧
        GrownTo img k k' (endOf heapStart chunks + (n + headerSize)) := by
  obtain ⟨header, access, calls⟩ := state.kmalloc_grows (by omega) none
  have paging : HeapPaging img frames (beforeGrowth k chunks) :=
    beforeGrowth_paging state.paging
  have loop := allocChunkLoop_demand ((beforeGrowth k chunks).pmmStack.length
    + 1) paging room (Nat.lt_succ_self _)
  rcases loop with ⟨last, stopped, few⟩ | ⟨k₁, looped, grown⟩
  · left
    refine ⟨last, ?_, few⟩
    rw [calls]
    exact Outcome.bind_of_error stopped
  · right
    have behind : kmalloc img.pgdKern n k = header k₁ := by
      rw [calls]
      exact Outcome.bind_of_ok looped
    rcases state.kmalloc_cases (.inr (by omega)) with
      ⟨_, chunk, _, _, rfl, _, fits, _⟩ |
      ⟨_, ⟨last, stopped, _⟩ | ⟨k', returned, appended⟩⟩
    · exact absurd fits (none chunk (by simp))
    · rw [behind] at stopped
      obtain ⟨va, other⟩ := access.only_faults stopped
      cases other
    · have same := access.only_memory k₁ _ k' (behind ▸ returned)
      refine ⟨k', returned, appended.state, ?_⟩
      rw [same]
      exact ⟨grown.heapMax, grown.taken⟩

theorem kmalloc_reuses (state : HeapState img frames k chunks)
    (some : ∃ chunk ∈ chunks, Fits (n + headerSize) chunk) :
    ∃ p k', kmalloc img.pgdKern n k = .ok p k' ∧ SamePaging img k k' := by
  rcases state.kmalloc_cases (.inl some) with
    ⟨_, _, _, k', _, _, _, returned, taken⟩ | ⟨none, _⟩
  · exact ⟨_, k', returned, taken.same⟩
  · obtain ⟨chunk, member, fits⟩ := some
    exact absurd fits (none chunk member)

theorem framesDemanded_eq (state : HeapState img frames k chunks) (n : Nat) :
    framesDemanded img k n =
      if ∃ chunk ∈ chunks, Fits (n + headerSize) chunk then 0
      else framesFor img k
        (pagesTo k (endOf heapStart chunks + (n + headerSize))) := by
  unfold framesDemanded
  rw [state.chunkList_eq]

end HeapState

/-- In every run of safe requests the next one returns exactly if the page
stack has the frames it demands, and it takes these; else it panics. -/
theorem kmalloc_frames (img : KernelImage) (frames : List Nat)
    (usable : ∀ frame ∈ frames, UsableFrame img frame)
    (distinct : frames.Nodup) {k : Kernel} {live : List Block}
    (run : SafeRun img frames k live) {n : Nat}
    (request : SafeRequest img.pgdKern k n) :
    (framesDemanded img k n ≤ k.pmmStack.length →
      ∃ p k', kmalloc img.pgdKern n k = .ok p k' ∧
        k.pmmStack.length = k'.pmmStack.length + framesDemanded img k n) ∧
    (k.pmmStack.length < framesDemanded img k n →
      ∃ k', kmalloc img.pgdKern n k = .error (.panic "out of memory") k') := by
  obtain ⟨chunks, state, _⟩ := run.invariant usable distinct
  have servable := state.safeRequest_iff.mp request
  rw [state.framesDemanded_eq]
  split
  case isTrue fitting =>
    obtain ⟨p, k', returned, same⟩ := state.kmalloc_reuses fitting
    refine ⟨fun _ => ⟨p, k', returned, ?_⟩, fun few => by omega⟩
    rw [same.stack]
    rfl
  case isFalse none =>
    have room : endOf heapStart chunks + (n + headerSize) < 4294967296 := by
      rcases servable with fitting | room
      · exact absurd fitting none
      · omega
    have misfits : ∀ chunk ∈ chunks, ¬Fits (n + headerSize) chunk :=
      fun chunk member fits => none ⟨chunk, member, fits⟩
    rcases state.kmalloc_demand misfits room with
      ⟨k', stopped, few⟩ | ⟨k', returned, _, grown⟩
    · exact ⟨fun enough => by omega, fun _ => ⟨k', stopped⟩⟩
    · have taken := grown.taken
      exact ⟨fun _ => ⟨_, k', returned, taken⟩, fun few => by omega⟩

/-! ### The first pages -/

section First

variable {img : KernelImage} {frames : List Nat} {k : Kernel}

/-- Pages behind which no new 4 MB begin take a frame each. -/
theorem framesFor_inside (pages : Nat)
    (inside : ∀ i < pages, pageBehind k i % 4194304 ≠ 0) :
    framesFor img k pages = pages := by
  unfold framesFor
  rw [List.countP_eq_zero.mpr, Nat.add_zero]
  intro i member needs
  exact inside i (List.mem_range.mp member) (of_decide_eq_true needs).2.1

theorem framesFor_first (pages : Nat)
    (needs : NeedsTable img k k.heapMax)
    (inside : ∀ i < pages, pageBehind k (i + 1) % 4194304 ≠ 0) :
    framesFor img k (pages + 1) = pages + 2 := by
  have here : pageBehind k 0 = k.heapMax := by simp [pageBehind]
  have none : (List.range pages).countP ((fun i =>
      decide (NeedsTable img k (pageBehind k i))) ∘ Nat.succ) = 0 := by
    apply List.countP_eq_zero.mpr
    intro i member table
    exact inside i (List.mem_range.mp member) (of_decide_eq_true table).2.1
  unfold framesFor
  rw [List.range_succ_eq_map, List.countP_cons, List.countP_map, none, here,
    if_pos (decide_eq_true needs)]

theorem AfterBoot.needsTable (booted : AfterBoot img frames k) :
    k.heapMax = heapStart ∧ NeedsTable img k k.heapMax := by
  obtain ⟨mem, k₀, zero, memEq, _, maxEq, initialised⟩ := booted
  cases initialised
  have absent : pdeOf img.pgdKern k₀.mem 896 = 0 := by
    rw [memEq, KernelImage.pdeOf_initVmm zero 896 (by decide),
      KernelImage.kernelPde, if_neg (by decide)]
  refine ⟨maxEq, ?_⟩
  simp only [maxEq]
  exact ⟨by decide, by decide, tableOf_eq_zero_of_pdeOf absent⟩

end First

/-! ### Filling a heap -/

/-- All chunks are held, they take `size` bytes of the first 4 MB, and the
frames are those of their pages, one table and the page stack. -/
structure FullHeap (img : KernelImage) (frames : List Nat) (k : Kernel)
    (live : List Block) (size : Nat) : Prop where
  heap : ∃ chunks, HeapState img frames k chunks ∧ LiveBlocks chunks live ∧
    (∀ chunk ∈ chunks, chunk.used = true) ∧
    endOf heapStart chunks = heapStart + size
  heapMax : k.heapMax =
    heapStart + (size + (pageSize - 1)) / pageSize * pageSize
  stack : k.pmmStack.length + (size + (pageSize - 1)) / pageSize +
    (if size = 0 then 0 else 1) = frames.length
  table : size = 0 → NeedsTable img k k.heapMax

namespace FullHeap

variable {img : KernelImage} {frames : List Nat} {k : Kernel}
variable {live : List Block} {size : Nat}

theorem empty (state : HeapState img frames k [])
    (max : k.heapMax = heapStart) (stack : k.pmmStack = frames)
    (needs : NeedsTable img k k.heapMax) : FullHeap img frames k [] 0 := by
  have held : LiveBlocks [] [] := ⟨[], .nil, .nil, by simp⟩
  refine ⟨⟨[], state, held, by simp, rfl⟩, ?_, ?_, fun _ => needs⟩
  · rw [max]
    rfl
  · rw [stack]
    rfl

theorem pagesTo_eq (full : FullHeap img frames k live size) (need : Nat) :
    pagesTo k (heapStart + size + need) + (size + (pageSize - 1)) / pageSize =
      (size + need + (pageSize - 1)) / pageSize := by
  have max := full.heapMax
  unfold pagesTo
  rw [max]
  simp only [pageSize]
  omega

/-- What comes next takes its pages, and the first chunk a table too. -/
theorem framesFor_eq (full : FullHeap img frames k live size) {need : Nat}
    (positive : 0 < need) (low : size + need ≤ 4194304) :
    framesFor img k (pagesTo k (heapStart + size + need)) +
        (size + (pageSize - 1)) / pageSize + (if size = 0 then 0 else 1) =
      (size + need + (pageSize - 1)) / pageSize + 1 := by
  have pages := full.pagesTo_eq need
  have max := full.heapMax
  generalize pagesTo k (heapStart + size + need) = count at pages
  by_cases empty : size = 0
  · subst empty
    obtain ⟨others, rfl⟩ : ∃ others, count = others + 1 := by
      refine ⟨count - 1, ?_⟩
      simp only [pageSize] at pages
      omega
    rw [framesFor_first others (full.table rfl), if_pos rfl]
    · omega
    · intro i below
      simp only [pageBehind, max, heapStart, pageSize] at *
      omega
  · rw [framesFor_inside count, if_neg empty]
    · omega
    · intro i below
      simp only [pageBehind, max, heapStart, pageSize] at *
      omega

theorem kmalloc (full : FullHeap img frames k live size) {n : Nat}
    (low : size + (n + headerSize) ≤ 4194304) :
    (frames.length <
        (size + (n + headerSize) + (pageSize - 1)) / pageSize + 1 ∧
      ∃ k', MiniOS.kmalloc img.pgdKern n k =
        .error (.panic "out of memory") k') ∨
      ∃ k', MiniOS.kmalloc img.pgdKern n k =
          .ok (heapStart + size + headerSize) k' ∧
        FullHeap img frames k'
          (⟨heapStart + size + headerSize, n⟩ :: live)
          (size + (n + headerSize)) := by
  obtain ⟨chunks, state, held, used, stop⟩ := full.heap
  have positive : 0 < n + headerSize := Nat.lt_of_lt_of_le (by decide)
    (Nat.le_add_left headerSize n)
  have frames := full.framesFor_eq positive low
  have pages := full.pagesTo_eq (n + headerSize)
  have stack := full.stack
  have demand := state.kmalloc_demand (n := n)
    (fun chunk member fits => by
      have inUse := used chunk member
      rw [fits.1] at inUse
      cases inUse)
    (by simp only [stop, heapStart]; omega)
  rw [stop] at demand
  rcases demand with ⟨k', stopped, few⟩ | ⟨k', returned, state', grown⟩
  · exact .inl ⟨by omega, k', stopped⟩
  · right
    have taken := grown.taken
    have inside : Block.In ⟨heapStart + size + headerSize, n⟩
        ⟨heapStart + size, n + headerSize, true⟩ := ⟨rfl, Nat.le_refl _⟩
    refine ⟨k', returned, ⟨_, state', held.push inside ?_, ?_, ?_⟩, ?_, ?_,
      ?_⟩
    · unfold usedOf
      rw [List.filter_append]
      exact List.perm_append_singleton _ _
    · intro chunk member
      rcases List.mem_append.mp member with old | new
      · exact used chunk old
      · rw [List.mem_singleton.mp new]
    · rw [endOf_concat]
      exact Nat.add_assoc ..
    · rw [grown.heapMax, pageBehind, full.heapMax, ← pages]
      simp only [pageSize]
      omega
    · rw [if_neg (Nat.ne_of_gt (Nat.add_pos_right size positive))]
      omega
    · intro zero
      omega

end FullHeap

/-- The first request takes a page and a table. -/
theorem kmalloc_frames_firstBlock :
    ∃ p k', kmalloc sampleImage.pgdKern 16 sampleBoot = .ok p k' ∧
      k'.pmmStack.length = 3 := by
  have state := sampleBoot_state
  have needs := sampleBoot_started.needsTable.2
  have demanded : framesDemanded sampleImage sampleBoot 16 = 2 := by
    rw [state.framesDemanded_eq, if_neg (by simp)]
    exact framesFor_first 0 needs fun i below => by omega
  have request : SafeRequest sampleImage.pgdKern sampleBoot 16 :=
    .inr (by rw [state.heapEnd_eq]; decide)
  have enough : framesDemanded sampleImage sampleBoot 16 ≤
      sampleBoot.pmmStack.length := by
    rw [demanded]
    decide
  obtain ⟨p, k', returned, taken⟩ := (kmalloc_frames sampleImage sampleFrames
    sampleFrames_usable sampleFrames_nodup (.start sampleBoot_started)
    request).1 enough
  have five : sampleBoot.pmmStack.length = 5 := rfl
  exact ⟨p, k', returned, by omega⟩

end MiniOS
