import Mathlib.Data.List.Count
import MiniOS.Mm.HeapContract

/-!
# Running out of frames

`kmalloc` can find the page stack empty in any round of the growth loop: when
it asks for the frame of the next page, or in `map`, which asks for a table
while that frame is in no list any more.  An empty heap gets its `heap_first`
before the loop starts.
-/

namespace MiniOS

open ByteMemory Tiling

/-! ## What is asked for -/

/-- At the moment the assertion fails: the list is that of before the call, and
each frame popped since then is a page of the heap or a table. -/
structure HeapIntact (img : KernelImage) (k k' : Kernel) : Prop where
  first : k'.heapFirst = k.heapFirst
  list : ∃ chunks, ListReads img.pgdKern k chunks ∧
    ListReads img.pgdKern k' chunks
  popped : ∀ frame ∈ k.pmmStack, frame ∉ k'.pmmStack →
    frame ∈ heapFrames img k' ∨ frame ∈ heapTables img k'.mem

/-- The page at `va` is the first of 4 MB without a page table. -/
def NeedsTable (img : KernelImage) (k : Kernel) (va : Nat) : Prop :=
  va < 4294967296 ∧ va % 4194304 = 0 ∧
    tableOf img.pgdKern k.mem (pgdIndex va) = 0

instance (img : KernelImage) (k : Kernel) : DecidablePred (NeedsTable img k) :=
  fun _ => inferInstanceAs (Decidable (_ ∧ _ ∧ _))

/-- The page that growth reaches behind so many others. -/
def pageBehind (k : Kernel) (pages : Nat) : Nat :=
  k.heapMax + pages * pageSize

/-- The frames that so many pages take, with their tables. -/
def framesFor (img : KernelImage) (k : Kernel) (pages : Nat) : Nat :=
  pages + (List.range pages).countP fun i =>
    NeedsTable img k (pageBehind k i)

/-- The last frame is popped for a page whose table is missing. -/
def Strands (img : KernelImage) (k : Kernel) : Prop :=
  ∃ pages, NeedsTable img k (pageBehind k pages) ∧
    k.pmmStack.length = framesFor img k pages + 1

/-! ## A round of growth -/

section Round

variable {img : KernelImage} {frames : List Nat} {k k' : Kernel}

/-- A table serves all pages below `heap_max`, so that only the first page of
a region can miss its table. -/
theorem needsTable_heapMax (paging : HeapPaging img frames k) :
    NeedsTable img k k.heapMax ↔
      tableOf img.pgdKern k.mem (pgdIndex k.heapMax) = 0 := by
  refine ⟨fun needs => needs.2.2, ?_⟩
  intro missing
  refine ⟨paging.heapMax_lt, ?_, missing⟩
  by_contra inside
  have aligned := paging.heapMax_aligned
  have lower := paging.heapMax_lower
  have entry := paging.mapped (k.heapMax - pageSize)
    (by simp only [heapStart, pageSize] at *; omega)
    (by simp only [heapStart, pageSize] at *; omega)
  have same : pgdIndex (k.heapMax - pageSize) = pgdIndex k.heapMax := by
    rw [pgdIndex_eq, pgdIndex_eq]
    simp only [pageSize] at *
    omega
  rw [pteOf, same, if_pos missing] at entry
  omega

theorem pageCost_eq (paging : HeapPaging img frames k) :
    pageCost img k = if NeedsTable img k k.heapMax then 2 else 1 := by
  unfold pageCost
  simp only [needsTable_heapMax paging]

/-- A table added for the page at `heap_max` is none of a later region. -/
theorem needsTable_behind (grown : PageGrown img frames k k') (pages : Nat) :
    NeedsTable img { k' with heapMax := k.heapMax + pageSize }
        (pageBehind { k' with heapMax := k.heapMax + pageSize } pages) ↔
      NeedsTable img k (pageBehind k (pages + 1)) := by
  have place : pageBehind { k' with heapMax := k.heapMax + pageSize } pages =
      pageBehind k (pages + 1) := by
    simp only [pageBehind, pageSize]
    omega
  rw [place]
  unfold NeedsTable
  have bound := pgdIndex_lt (pageBehind k (pages + 1))
  constructor
  · rintro ⟨small, aligned, missing⟩
    exact ⟨small, aligned, ((grown.tables _ bound).mp missing).1⟩
  · rintro ⟨small, aligned, missing⟩
    refine ⟨small, aligned, (grown.tables _ bound).mpr ⟨missing, ?_⟩⟩
    rw [pgdIndex_eq, pgdIndex_eq]
    simp only [pageBehind, pageSize] at *
    omega

theorem framesFor_succ (paging : HeapPaging img frames k)
    (grown : PageGrown img frames k k') (pages : Nat) :
    framesFor img k (pages + 1) = pageCost img k +
      framesFor img { k' with heapMax := k.heapMax + pageSize } pages := by
  have here : pageBehind k 0 = k.heapMax := by simp [pageBehind]
  have later : (List.range pages).countP
      (fun i => decide (NeedsTable img k (pageBehind k (i + 1)))) =
        (List.range pages).countP (fun i => decide
          (NeedsTable img { k' with heapMax := k.heapMax + pageSize }
            (pageBehind { k' with heapMax := k.heapMax + pageSize } i))) := by
    apply List.countP_congr
    intro i _
    simp only [decide_eq_true_eq, needsTable_behind grown]
  unfold framesFor
  rw [List.range_succ_eq_map, List.countP_cons, List.countP_map,
    pageCost_eq paging, here, ← later]
  have same : (fun i => decide (NeedsTable img k (pageBehind k i))) ∘
      Nat.succ = fun i => decide (NeedsTable img k (pageBehind k (i + 1))) :=
    rfl
  rw [same]
  simp only [decide_eq_true_eq]
  split <;> omega

/-- Growth by a page keeps the frames from fitting or not. -/
theorem strands_grown (paging : HeapPaging img frames k)
    (grown : PageGrown img frames k k') :
    Strands img { k' with heapMax := k.heapMax + pageSize } ↔
      Strands img k := by
  have taken := grown.taken
  constructor
  · rintro ⟨pages, needs, length⟩
    refine ⟨pages + 1, (needsTable_behind grown pages).mp needs, ?_⟩
    rw [framesFor_succ paging grown, taken]
    simp only at length
    omega
  · rintro ⟨pages, needs, length⟩
    cases pages with
    | zero =>
        have here : pageBehind k 0 = k.heapMax := by simp [pageBehind]
        rw [here] at needs
        rw [pageCost_eq paging, if_pos needs] at taken
        simp only [framesFor, List.range_zero, List.countP_nil] at length
        omega
    | succ pages =>
        refine ⟨pages, (needsTable_behind grown pages).mpr needs, ?_⟩
        rw [framesFor_succ paging grown, taken] at length
        simp only
        omega

end Round

/-! ## The growth loop -/

/-- Growth has stopped with an empty page stack; the heap of `k` is as it was,
and one frame is lost exactly if the last one was stranded. -/
structure Exhausted (img : KernelImage) (frames : List Nat) (k k' : Kernel) :
    Prop where
  stack : k'.pmmStack = []
  grown : Extends img k k'
  account : (¬Strands img k ∧ HeapPaging img frames k') ∨
    Strands img k ∧ ∃ frame ∈ k.pmmStack,
      HeapPaging img (frames.erase frame) k'

section Exhausted

variable {img : KernelImage} {frames : List Nat} {k k' k'' : Kernel}

theorem Exhausted.behind (paging : HeapPaging img frames k)
    (grown : PageGrown img frames k k')
    (exhausted : Exhausted img frames
      { k' with heapMax := k.heapMax + pageSize } k'') :
    Exhausted img frames k k'' where
  stack := exhausted.stack
  grown := grown.grown.trans exhausted.grown
  account := by
    rcases exhausted.account with ⟨fits, paging'⟩ |
      ⟨strands, frame, member, paging'⟩
    · exact .inl ⟨mt (strands_grown paging grown).mpr fits, paging'⟩
    · exact .inr ⟨(strands_grown paging grown).mp strands, frame,
        grown.stack.subset member, paging'⟩

/-- The first round that finds too few frames. -/
theorem Exhausted.here (paging : HeapPaging img frames k)
    (none : k.pmmStack = []) : Exhausted img frames k k where
  stack := none
  grown := .refl img k
  account := by
    refine .inl ⟨?_, paging⟩
    rintro ⟨pages, _, length⟩
    simp [none] at length

theorem Exhausted.stranded (paging : HeapPaging img frames k) {frame : Nat}
    (one : k.pmmStack = [frame])
    (missing : tableOf img.pgdKern k.mem (pgdIndex k.heapMax) = 0) :
    Exhausted img frames k { k with pmmStack := [] } where
  stack := rfl
  grown := ⟨Nat.le_refl _, rfl, fun _ _ => rfl, fun _ _ => rfl⟩
  account := by
    refine .inr ⟨⟨0, ?_, ?_⟩, frame, by simp [one], paging.pop one⟩
    · simpa [pageBehind] using (needsTable_heapMax paging).mpr missing
    · simp [framesFor, one]

theorem allocChunkLoop_exhausted (rounds : Nat) {start len : Nat} {stop : Stop}
    (paging : HeapPaging img frames k) (enough : k.pmmStack.length < rounds)
    (stopped : allocChunkLoop img.pgdKern start len rounds k =
      .error stop k') : Exhausted img frames k k' := by
  induction rounds generalizing k with
  | zero => omega
  | succ rounds induction =>
      rw [allocChunkLoop, KernelM.get_bind] at stopped
      split at stopped
      case isFalse => cases stopped
      rw [growPage_bind] at stopped
      rcases paging.growRound with
        ⟨none, returned⟩ | ⟨frame, one, missing, returned⟩ |
        ⟨middle, returned, grown⟩
      · rw [Outcome.bind_of_error returned] at stopped
        cases stopped
        exact .here paging none
      · rw [Outcome.bind_of_error returned] at stopped
        cases stopped
        exact .stranded paging one missing
      · have room := paging.heapMax_room
        have taken := grown.taken
        have cost := pageCost_range img k
        rw [Outcome.bind_of_ok returned, KernelM.modify_bind, grown.heapMax,
          uint32_of_lt (by simp only [pageSize] at *; omega)] at stopped
        exact .behind paging grown
          (induction grown.paging (by simp only; omega) stopped)

end Exhausted

/-! ## The rest of `kmalloc` -/

/-- The growth loop starts with `heap_first` at the first chunk to be. -/
def beforeGrowth (k : Kernel) (chunks : List Segment) : Kernel :=
  { k with heapFirst := if chunks = [] then heapStart else k.heapFirst }

namespace HeapState

variable {img : KernelImage} {frames : List Nat} {k k' : Kernel}
variable {chunks : List Segment} {n : Nat}

theorem beforeGrowth_paging (paging : HeapPaging img frames k) :
    HeapPaging img frames (beforeGrowth k chunks) :=
  paging.transport ⟨rfl, rfl, fun _ _ => rfl, fun _ => rfl⟩

theorem kmallocExtend_exhausted (state : HeapState img frames k chunks)
    {need : Nat} {msg : String}
    (stopped : kmallocExtend img.pgdKern need
      ((chunks.map Segment.start).getLastD 0) k = .error (.panic msg) k') :
    Exhausted img frames (beforeGrowth k chunks) k' := by
  unfold kmallocExtend at stopped
  rw [Outcome.bind_of_ok state.chunkStart_spec] at stopped
  rcases Outcome.bind_eq_error stopped with early | ⟨_, grown, _, late⟩
  · rw [allocChunk, KernelM.get_bind] at early
    exact allocChunkLoop_exhausted _ (beforeGrowth_paging state.paging)
      (Nat.lt_succ_self _) early
  · obtain ⟨va, other⟩ := (HeapAccess.append ..).only_faults late
    cases other

/-- An assertion of `kmalloc` only fails in its growth loop. -/
theorem kmalloc_exhausted (state : HeapState img frames k chunks)
    {msg : String}
    (stopped : kmalloc img.pgdKern n k = .error (.panic msg) k') :
    Exhausted img frames (beforeGrowth k chunks) k' := by
  have walk := state.kmallocLoop_spec (uint32 (n + headerSize)) 4294967296 []
    chunks rfl state.placed.length_lt
  rw [List.map_nil, List.getLastD_nil, ← state.list.first_eq] at walk
  unfold kmalloc at stopped
  simp only [KernelM.get_bind] at stopped
  rcases walk with ⟨_, walked⟩ | ⟨_, chunk, _, _, _, _, walked⟩
  · rw [Outcome.bind_of_ok walked] at stopped
    exact state.kmallocExtend_exhausted stopped
  · rcases Outcome.bind_eq_error stopped with early | ⟨a, k₁, found, late⟩
    · rw [walked] at early
      obtain ⟨va, other⟩ := (HeapAccess.take ..).only_faults early
      cases other
    · rw [walked] at found
      obtain ⟨_, _, _, found⟩ := Outcome.bind_eq_ok found
      obtain ⟨_, _, _, found⟩ := Outcome.bind_eq_ok found
      cases found
      cases late

theorem heapFirst_eq_zero (state : HeapState img frames k chunks) :
    k.heapFirst = 0 ↔ chunks = [] := by
  rw [state.list.first_eq]
  cases chunks with
  | nil => simp
  | cons chunk chunks =>
      have nonzero := state.placed.proper.nonzero chunk List.mem_cons_self
      simpa using nonzero

theorem listReads_exhausted (state : HeapState img frames k chunks)
    (nonempty : chunks ≠ []) (paging : HeapPaging img frames k')
    (grown : Extends img (beforeGrowth k chunks) k') :
    ListReads img.pgdKern k' chunks := by
  have fits := state.fits
  have listed : ChunkList (fieldOf (heapView img k')) k.heapFirst chunks :=
    state.placed.list_of_view state.list fun va below =>
      grown.view va (Nat.lt_of_lt_of_le below fits)
  have first : k'.heapFirst = k.heapFirst :=
    grown.first.trans (if_neg nonempty)
  have placed : Placed k' chunks := ⟨state.canonical.tiles,
    state.canonical.large, fits.trans grown.heapMax_le, paging.heapMax_lt⟩
  exact ReadableList.listReads ⟨paging, first ▸ listed, placed⟩

theorem heapIntact_iff (state : HeapState img frames k chunks)
    (exhausted : Exhausted img frames (beforeGrowth k chunks) k') :
    HeapIntact img k k' ↔ k.heapFirst ≠ 0 ∧ ¬Strands img k := by
  have same : Strands img (beforeGrowth k chunks) ↔ Strands img k := Iff.rfl
  have account := exhausted.account
  rw [same] at account
  constructor
  · intro intact
    constructor
    · intro null
      have first := intact.first.symm.trans exhausted.grown.first
      rw [null, beforeGrowth, if_pos (state.heapFirst_eq_zero.mp null)] at first
      change 0 = heapStart at first
      exact absurd first (by decide)
    · intro strands
      rcases account with ⟨fits, _⟩ | ⟨_, frame, member, paging⟩
      · exact fits strands
      · have used := intact.popped frame member (by simp [exhausted.stack])
        have counted : frame ∈ frames.erase frame := by
          rw [← paging.account.mem_iff]
          simp only [List.mem_append]
          exact .inl used.symm
        exact state.paging.distinct.not_mem_erase counted
  · rintro ⟨nonnull, fits⟩
    have nonempty := mt state.heapFirst_eq_zero.mpr nonnull
    rcases account with ⟨_, paging⟩ | ⟨strands, _⟩
    case inr => exact absurd strands fits
    refine ⟨exhausted.grown.first.trans (if_neg nonempty), ⟨chunks,
      state.readable.listReads,
      state.listReads_exhausted nonempty paging exhausted.grown⟩, ?_⟩
    intro frame member _
    have counted : frame ∈ frames :=
      state.paging.account.mem_iff.mp (by simp [member])
    have placed := paging.account.mem_iff.mpr counted
    rw [exhausted.stack, List.append_nil, List.mem_append] at placed
    exact placed.symm

/-- The frames of the start bound the heap, and one of them is a table. -/
theorem heapMax_le_frames (paging : HeapPaging img frames k) :
    k.heapMax ≤ heapStart + (frames.length - 1) * pageSize := by
  by_cases empty : k.heapMax = heapStart
  · omega
  have table := paging.heapTables_pos empty
  have account := paging.account.length_eq
  have lower := paging.heapMax_lower
  have aligned := paging.heapMax_aligned
  simp only [List.length_append, heapFrames, List.length_map,
    List.length_range, heapPages, heapStart, pageSize] at *
  omega

theorem kmalloc_tooLarge (state : HeapState img frames k chunks)
    (none : ∀ chunk ∈ chunks, ¬Fits (n + headerSize) chunk)
    (room : endOf heapStart chunks + n + headerSize < 4294967296)
    (large : heapStart + (frames.length - 1) * pageSize <
      endOf heapStart chunks + (n + headerSize)) :
    ∃ k', kmalloc img.pgdKern n k = .error (.panic "out of memory") k' := by
  rcases state.kmalloc_cases (.inr room) with
    ⟨_, chunk, _, _, rfl, _, fits, _⟩ |
    ⟨_, ⟨k', stopped, _⟩ | ⟨k', _, grown⟩⟩
  · exact absurd fits (none chunk (by simp))
  · exact ⟨k', stopped⟩
  · have fits := grown.state.fits
    have few := heapMax_le_frames grown.state.paging
    rw [endOf_concat, Segment.stop] at fits
    simp only at fits
    omega

end HeapState

/-- Where `kmalloc` runs out of frames the heap is intact exactly when it had
a chunk and the last frame was not popped for a page without a table. -/
theorem outOfFrames_intact_iff (img : KernelImage) (frames : List Nat)
    (usable : ∀ frame ∈ frames, UsableFrame img frame)
    (distinct : frames.Nodup) {k : Kernel} {live : List Block}
    (run : SafeRun img frames k live) {n : Nat} {k' : Kernel}
    (stopped : kmalloc img.pgdKern n k =
      .error (.panic "out of memory") k') :
    HeapIntact img k k' ↔ k.heapFirst ≠ 0 ∧ ¬Strands img k := by
  obtain ⟨chunks, state, _⟩ := run.invariant usable distinct
  exact state.heapIntact_iff (state.kmalloc_exhausted stopped)

/-- With one chunk a request for more than all frames leaves the heap as it
was. -/
theorem outOfFrames_intact_firstBlock :
    ∃ k k', k.heapFirst = heapStart ∧
      kmalloc sampleImage.pgdKern 65536 k =
        .error (.panic "out of memory") k' ∧
      HeapIntact sampleImage k k' := by
  obtain ⟨k, returned, state⟩ := exists_firstBlock
  have run : SafeRun sampleImage sampleFrames k
      [⟨heapStart + headerSize, 16⟩] :=
    (SafeRun.start sampleBoot_started).kmalloc
      (.inr (by rw [sampleBoot_state.heapEnd_eq]; decide)) returned
  have endEq : endOf heapStart [(⟨heapStart, 16 + headerSize,
      true⟩ : Segment)] = heapStart + 28 := rfl
  have first : k.heapFirst = heapStart := state.list.first_eq
  obtain ⟨k', stopped⟩ := state.kmalloc_tooLarge (n := 65536)
    (by
      intro chunk member fits
      obtain rfl := List.mem_singleton.mp member
      cases fits.1)
    (by rw [endEq]; decide) (by rw [endEq]; decide)
  refine ⟨k, k', first, stopped, ?_⟩
  rw [outOfFrames_intact_iff sampleImage sampleFrames sampleFrames_usable
    sampleFrames_nodup run stopped]
  refine ⟨by rw [first]; decide, ?_⟩
  -- The next region without a table is 1023 pages away.
  rintro ⟨pages, ⟨_, boundary, _⟩, length⟩
  have fits := state.fits
  have tight := state.tight
  have aligned := state.paging.heapMax_aligned
  have account := state.paging.account.length_eq
  have five : sampleFrames.length = 5 := rfl
  rw [endEq] at fits tight
  simp only [framesFor, pageBehind, List.length_append, five, heapStart,
    pageSize] at *
  omega

def oneFrameBoot : Kernel := { sampleBoot with pmmStack := [0x200000] }

theorem oneFrameBoot_started :
    AfterBoot sampleImage [0x200000] oneFrameBoot :=
  ⟨fun _ => 0, oneFrameBoot, ⟨fun _ _ _ => rfl, fun _ _ _ => rfl⟩, rfl, rfl,
    rfl, rfl⟩

/-- Without a chunk `heap_first` is set before the loop stops.  A single frame
is popped for a page whose table is missing, and is then in no list. -/
theorem outOfFrames_lost :
    (∃ k', SafeRun sampleImage sampleFrames sampleBoot [] ∧
      kmalloc sampleImage.pgdKern 65536 sampleBoot =
        .error (.panic "out of memory") k' ∧
      ¬HeapIntact sampleImage sampleBoot k') ∧
    ∃ k', SafeRun sampleImage [0x200000] oneFrameBoot [] ∧
      kmalloc sampleImage.pgdKern 16 oneFrameBoot =
        .error (.panic "out of memory") k' ∧
      0x200000 ∈ oneFrameBoot.pmmStack ∧ 0x200000 ∉ k'.pmmStack ∧
      0x200000 ∉ heapFrames sampleImage k' ∧
      0x200000 ∉ heapTables sampleImage k'.mem := by
  constructor
  · obtain ⟨k', stopped⟩ := sampleBoot_state.kmalloc_tooLarge (n := 65536)
      (by simp) (by decide) (by decide)
    refine ⟨k', .start sampleBoot_started, stopped, ?_⟩
    rw [sampleBoot_state.heapIntact_iff
      (sampleBoot_state.kmalloc_exhausted stopped)]
    exact fun intact => intact.1 rfl
  · have state : HeapState sampleImage [0x200000] oneFrameBoot [] := by
      refine .boot ?_ (by decide) oneFrameBoot_started
      intro frame member
      obtain rfl := List.mem_singleton.mp member
      exact sampleFrames_usable _ (by decide)
    obtain ⟨k', stopped⟩ := state.kmalloc_tooLarge (n := 16) (by simp)
      (by decide) (by decide)
    have exhausted := state.kmalloc_exhausted stopped
    have missing : tableOf sampleImage.pgdKern oneFrameBoot.mem
        (pgdIndex heapStart) = 0 := by
      by_contra present
      have table := List.length_pos_of_mem (HeapPaging.table_mem
        (k := oneFrameBoot)
        (HeapPaging.heap_index (Nat.le_refl _) (by decide)) (pgdIndex_lt _)
        present)
      have account := state.paging.account.length_eq
      have stack : oneFrameBoot.pmmStack.length = 1 := rfl
      rw [List.length_append, List.length_append, stack] at account
      simp only [List.length_singleton] at account
      omega
    have strands : Strands sampleImage (beforeGrowth oneFrameBoot []) :=
      ⟨0, (needsTable_heapMax state.paging).mpr missing, rfl⟩
    rcases exhausted.account with ⟨fits, _⟩ | ⟨_, frame, member, paging⟩
    · exact absurd strands fits
    · obtain rfl := List.mem_singleton.mp member
      have none := paging.account.length_eq
      rw [List.erase_cons_head, List.length_nil, List.length_append,
        List.length_append] at none
      have noTables : heapTables sampleImage k'.mem = [] :=
        List.length_eq_zero_iff.mp (by omega)
      have noFrames : heapFrames sampleImage k' = [] :=
        List.length_eq_zero_iff.mp (by omega)
      refine ⟨k', .start oneFrameBoot_started, stopped, List.mem_singleton_self
        _, ?_, ?_, ?_⟩
      · simp [exhausted.stack]
      · simp [noFrames]
      · simp [noTables]

end MiniOS
