import MiniOS.Mm.HeapLoops

/-!
# The growth loop ends below 4 GB

The loop of `alloc_chunk` compares wrapped addresses and would never end once
`heap_max` were 0.  It does not come to that: the heap window has exactly as
many pages as there can be frames, and the page tables of the window take some
of the frames.
-/

namespace MiniOS

open ByteMemory

/-- The page tables of the heap window, by their index in the directory. -/
def windowTables (pgdNow : Nat) (mem : Mem) : List Nat :=
  (List.range' 896 128).filter fun i => tableOf pgdNow mem i ≠ 0

/-- `heap_max` is the end of the mapped pages, and the frames are those of the
pages, of the tables and of the page stack. -/
structure WindowAccount (pgdKern : Nat) (k : Kernel) : Prop where
  tables : PageTables pgdKern k.mem k.pmmStack
  heapMax_aligned : k.heapMax % pageSize = 0
  heapMax_lower : heapStart ≤ k.heapMax
  heapMax_small : k.heapMax < 4294967296
  mapped : ∀ va, heapStart ≤ va → va < 4294967296 →
    (pteOf pgdKern k.mem va ≠ 0 ↔ va < k.heapMax)
  frames : heapPages k + (windowTables pgdKern k.mem).length +
    k.pmmStack.length ≤ pageMaxSize

/-- A round of the loop of `alloc_chunk`, which calls `map` for the page at
`va`. -/
def growthRound (pgdKern va : Nat) : KernelM Unit := do
  let page ← pmmAllocPage
  map pgdKern va page (pagePresent ||| pageWrite)
  modify fun k => { k with heapMax := uint32 (k.heapMax + pageSize) }

/-- The paging of a heap that the kernel has run is such a state. -/
theorem HeapPaging.windowAccount {img : KernelImage} {frames : List Nat}
    {k : Kernel} (paging : HeapPaging img frames k) :
    WindowAccount img.pgdKern k where
  tables := paging.tables
  heapMax_aligned := paging.heapMax_aligned
  heapMax_lower := paging.heapMax_lower
  heapMax_small := by
    have upper := paging.heapMax_upper
    simp only [pageSize] at upper
    omega
  mapped := by
    intro va lower small
    by_cases below : va < k.heapMax
    · rw [paging.mapped va lower below]
      simp [below]
    · rw [paging.unmapped va (by omega) small]
      simp [below]
  frames := by
    have account := paging.account.length_eq
    have bound := paging.frames_length
    have listed : heapTables img k.mem =
        (windowTables img.pgdKern k.mem).map (tableOf img.pgdKern k.mem) :=
      List.filter_map
    simp only [listed, List.length_append, heapFrames, List.length_map,
      List.length_range] at account
    omega

theorem PageTables.pop {pgdNow : Nat} {mem : Mem} {frame : Nat}
    {rest : List Nat} (tables : PageTables pgdNow mem (frame :: rest)) :
    PageTables pgdNow mem rest :=
  { tables with
    stack_frame := fun other member =>
      tables.stack_frame other (List.mem_cons_of_mem frame member)
    stack_distinct := (List.nodup_cons.mp tables.stack_distinct).2
    table_stack := fun i bound present member =>
      tables.table_stack i bound present (List.mem_cons_of_mem frame member)
    directory_stack := fun other member =>
      tables.directory_stack other (List.mem_cons_of_mem frame member) }

theorem mem_windowTables {pgdNow : Nat} {mem : Mem} {i : Nat} :
    i ∈ windowTables pgdNow mem ↔
      896 ≤ i ∧ i < 1024 ∧ tableOf pgdNow mem i ≠ 0 := by
  simp only [windowTables, List.mem_filter, List.mem_range'_1,
    decide_eq_true_eq]
  omega

theorem windowTables_nodup (pgdNow : Nat) (mem : Mem) :
    (windowTables pgdNow mem).Nodup :=
  (List.nodup_range' ..).filter _

/-- A table that `map` adds to the window is one more. -/
theorem TableInPlace.windowTables_length {pgdNow va : Nat} {k k' : Kernel}
    (inPlace : TableInPlace pgdNow va k k') (lower : 896 ≤ pgdIndex va) :
    (windowTables pgdNow k'.mem).length = (windowTables pgdNow k.mem).length +
      if tableOf pgdNow k.mem (pgdIndex va) = 0 then 1 else 0 := by
  have upper : pgdIndex va < 1024 := pgdIndex_lt va
  have others : ∀ i < 1024, i ≠ pgdIndex va →
      tableOf pgdNow k'.mem i = tableOf pgdNow k.mem i := by
    intro i bound other
    apply tableOf_congr
    rw [inPlace.pde i bound, if_neg fun same => other same.1]
  split
  · rename_i missing
    have more : (windowTables pgdNow k'.mem).Perm
        (pgdIndex va :: windowTables pgdNow k.mem) := by
      apply (List.perm_ext_iff_of_nodup (windowTables_nodup _ _)
        (List.nodup_cons.mpr ⟨?_, windowTables_nodup _ _⟩)).mpr
      · intro i
        rw [List.mem_cons, mem_windowTables, mem_windowTables]
        by_cases same : i = pgdIndex va
        · simp [same, lower, upper, inPlace.present]
        · constructor
          · rintro ⟨above, below, present⟩
            rw [others i below same] at present
            exact .inr ⟨above, below, present⟩
          · rintro (equal | ⟨above, below, present⟩)
            · exact absurd equal same
            · rw [← others i below same] at present
              exact ⟨above, below, present⟩
      · rw [mem_windowTables]
        exact fun member => member.2.2 missing
    rw [more.length_eq, List.length_cons]
  · rename_i present
    have same : windowTables pgdNow k'.mem = windowTables pgdNow k.mem := by
      apply List.filter_congr
      intro i member
      have bound := (List.mem_range'_1.mp member).2
      by_cases here : i = pgdIndex va
      · simp [here, present, inPlace.present]
      · rw [others i bound here]
    rw [same, Nat.add_zero]

namespace WindowAccount

variable {pgdKern : Nat} {k k' : Kernel}

theorem windowTables_pos (account : WindowAccount pgdKern k)
    (nonempty : k.heapMax ≠ heapStart) :
    0 < (windowTables pgdKern k.mem).length := by
  have lower := account.heapMax_lower
  have entry := (account.mapped heapStart (Nat.le_refl _) (by decide)).mpr
    (by omega)
  apply List.length_pos_of_mem (a := pgdIndex heapStart)
  rw [mem_windowTables]
  refine ⟨by decide, by decide, ?_⟩
  intro missing
  rw [pteOf, if_pos missing] at entry
  exact entry rfl

theorem room (account : WindowAccount pgdKern k)
    (left : 0 < k.pmmStack.length) :
    k.heapMax + pageSize < 4294967296 := by
  have few := account.frames
  have aligned := account.heapMax_aligned
  have lower := account.heapMax_lower
  have small := account.heapMax_small
  by_cases empty : k.heapMax = heapStart
  · rw [empty]
    decide
  have table := account.windowTables_pos empty
  simp only [heapPages, heapStart, pageSize, pmmMaxSize, pmmPageSize,
    pageMaxSize] at *
  omega

/-- The page at `heap_max` is mapped to a frame from the stack, and its table
is in place. -/
theorem grown (account : WindowAccount pgdKern k) {frame value : Nat}
    {rest : List Nat} (stack : k.pmmStack = frame :: rest) (present : value ≠ 0)
    (written : EntryWritten pgdKern k.heapMax value
      { k with pmmStack := rest } k')
    (inPlace : TableInPlace pgdKern k.heapMax { k with pmmStack := rest } k') :
    WindowAccount pgdKern { k' with heapMax := k.heapMax + pageSize } where
  tables := written.tables
  heapMax_aligned := by
    have aligned := account.heapMax_aligned
    simp only [pageSize] at aligned ⊢
    omega
  heapMax_lower := by
    have lower := account.heapMax_lower
    simp only
    omega
  heapMax_small := account.room (by simp [stack])
  mapped := by
    intro va lower small
    have aligned := account.heapMax_aligned
    have before := account.mapped va lower small
    rw [written.pte va small]
    simp only [pageSize] at *
    split
    · simp only [ne_eq, present, not_false_eq_true, true_iff]
      omega
    · rw [before]
      omega
  frames := by
    have few := account.frames
    have taken := inPlace.stack
    have added := inPlace.windowTables_length
      (HeapPaging.heap_index account.heapMax_lower account.heapMax_small)
    have pages : heapPages { k' with heapMax := k.heapMax + pageSize } =
        heapPages k + 1 := by
      have lower := account.heapMax_lower
      simp only [heapPages, pageSize] at *
      omega
    rw [stack, List.length_cons] at few
    rw [pages, added]
    simp only at taken ⊢
    omega

/-- A round at `heap_max`: it ends for lack of a frame, or the account holds
one page further. -/
theorem round (account : WindowAccount pgdKern k) :
    (∃ k', growthRound pgdKern k.heapMax k =
        .error (.panic "out of memory") k' ∧ k'.heapMax = k.heapMax) ∨
    ∃ k', growthRound pgdKern k.heapMax k = .ok () k' ∧
      k'.heapMax = k.heapMax + pageSize ∧
      k'.pmmStack.length < k.pmmStack.length ∧ WindowAccount pgdKern k' := by
  unfold growthRound
  cases stack : k.pmmStack with
  | nil =>
      rw [Outcome.bind_of_error (pmmAllocPage_nil stack)]
      exact .inl ⟨k, rfl, rfl⟩
  | cons frame rest =>
      rw [Outcome.bind_of_ok (pmmAllocPage_cons stack)]
      have tables := account.tables
      rw [stack] at tables
      have popped : PageTables pgdKern k.mem rest := tables.pop
      have frameUpper := (tables.stack_frame frame (by simp)).upper
      have frameSmall : frame < 4294967296 := by
        simp only [pageSize, pmmMaxSize] at frameUpper
        omega
      have flagsSmall : pagePresent ||| pageWrite < pageSize := by decide
      rcases map_step (k := { k with pmmStack := rest }) popped
          account.heapMax_small frameSmall flagsSmall with
        ⟨stopped, _⟩ | ⟨k', ok, written⟩
      · rw [Outcome.bind_of_error stopped]
        exact .inl ⟨_, rfl, rfl⟩
      · have inPlace := map_tables (k := { k with pmmStack := rest }) popped ok
        have taken := inPlace.stack
        have max : k'.heapMax = k.heapMax := inPlace.heapMax
        have room := account.room (by simp [stack])
        have present :
            roundDown frame pageSize + (pagePresent ||| pageWrite) ≠ 0 :=
          Nat.succ_ne_zero _
        have next : { k' with heapMax := uint32 (k'.heapMax + pageSize) } =
            { k' with heapMax := k.heapMax + pageSize } := by
          rw [max, uint32_of_lt room]
        rw [Outcome.bind_of_ok ok]
        refine .inr ⟨{ k' with heapMax := k.heapMax + pageSize }, ?_, rfl, ?_,
          account.grown stack present written inPlace⟩
        · exact congrArg (EStateM.Result.ok ()) next
        · rw [List.length_cons]
          simp only at taken ⊢
          omega

end WindowAccount

/-! ## The loop -/

section Loop

variable {pgdKern : Nat} {k : Kernel}

theorem allocChunkLoop_succ (rounds start len : Nat) (k : Kernel) :
    allocChunkLoop pgdKern start len (rounds + 1) k =
      if k.heapMax < uint32 (start + len) then
        (do growthRound pgdKern k.heapMax
            allocChunkLoop pgdKern start len rounds) k
      else .ok () k := by
  rw [allocChunkLoop, KernelM.get_bind]
  split
  · simp only [growthRound, bind_assoc]
  · rfl

/-- The loop started: it runs its rounds for one page after another, and has
gone so many when it stops or returns. -/
theorem WindowAccount.allocChunkLoop (rounds : Nat) {start len : Nat}
    (account : WindowAccount pgdKern k) (enough : k.pmmStack.length < rounds) :
    ∃ count tried k',
      (MiniOS.allocChunkLoop pgdKern start len rounds k =
          .error (.panic "out of memory") k' ∧ tried = count + 1 ∨
        MiniOS.allocChunkLoop pgdKern start len rounds k = .ok () k' ∧
          uint32 (start + len) ≤ k'.heapMax ∧ tried = count) ∧
      k'.heapMax = k.heapMax + count * pageSize ∧
      k'.heapMax < 4294967296 ∧ count ≤ k.pmmStack.length ∧
      (List.range' k.heapMax tried pageSize).forM (growthRound pgdKern) k =
        MiniOS.allocChunkLoop pgdKern start len rounds k := by
  induction rounds generalizing k with
  | zero => omega
  | succ rounds induction =>
      rw [allocChunkLoop_succ]
      by_cases short : k.heapMax < uint32 (start + len)
      · rw [if_pos short]
        rcases account.round with
          ⟨k', stopped, max⟩ | ⟨k₁, ok, max, fewer, account'⟩
        · rw [Outcome.bind_of_error stopped]
          exact ⟨0, 1, k', .inl ⟨rfl, rfl⟩, by simp [max],
            max ▸ account.heapMax_small, Nat.zero_le _,
            Outcome.bind_of_error stopped⟩
        · rw [Outcome.bind_of_ok ok]
          obtain ⟨count, tried, k', ended, final, small, few, same⟩ :=
            induction account' (by omega)
          refine ⟨count + 1, tried + 1, k', ?_, ?_, small, by omega, ?_⟩
          · rcases ended with ⟨stopped, last⟩ | ⟨returned, room, last⟩
            · exact .inl ⟨stopped, by omega⟩
            · exact .inr ⟨returned, room, by omega⟩
          · rw [final, max]
            simp only [pageSize]
            omega
          · rw [max] at same
            rw [List.range'_succ]
            exact (Outcome.bind_of_ok ok).trans same
      · rw [if_neg short]
        exact ⟨0, 0, k, .inr ⟨rfl, by omega, rfl⟩, by simp,
          account.heapMax_small, Nat.zero_le _, rfl⟩

/-- `alloc_chunk` ends, by the assertion of `pmm_alloc_page` or with room for
the chunk; meanwhile `heap_max` only grows and stays below 4 GB, and what is
done is one round for each of some consecutive pages of the heap window. -/
theorem allocChunk_window (account : WindowAccount pgdKern k)
    (start len : Nat) :
    ∃ count tried k',
      (allocChunk pgdKern start len k = .error (.panic "out of memory") k' ∧
          tried = count + 1 ∨
        allocChunk pgdKern start len k = .ok () k' ∧
          uint32 (start + len) ≤ k'.heapMax ∧ tried = count) ∧
      k'.heapMax = k.heapMax + count * pageSize ∧
      k'.heapMax < 4294967296 ∧ count ≤ k.pmmStack.length ∧
      (List.range' k.heapMax tried pageSize).forM (growthRound pgdKern) k =
        allocChunk pgdKern start len k ∧
      ∀ va ∈ List.range' k.heapMax tried pageSize,
        heapStart ≤ va ∧ va < 4294967296 := by
  obtain ⟨count, tried, k', ended, final, small, few, same⟩ :=
    account.allocChunkLoop (k.pmmStack.length + 1) (Nat.lt_succ_self _)
  refine ⟨count, tried, k', ended, final, small, few, same, ?_⟩
  intro va member
  obtain ⟨i, below, rfl⟩ := List.mem_range'.mp member
  have lower := account.heapMax_lower
  have upto : tried ≤ count + 1 := by
    rcases ended with ⟨_, last⟩ | ⟨_, _, last⟩ <;> omega
  simp only [pageSize] at *
  omega

end Loop

theorem emptyDirectory_account : WindowAccount 0xC0100000 emptyDirectory := by
  have blank : ∀ va, pteOf 0xC0100000 emptyDirectory.mem va = 0 := by
    intro va
    rw [pteOf, if_pos (tableOf_eq_zero_of_pdeOf rfl)]
  have none : windowTables 0xC0100000 emptyDirectory.mem = [] := by
    apply List.filter_eq_nil_iff.mpr
    intro i _
    simp only [tableOf_eq_zero_of_pdeOf (show pdeOf 0xC0100000
      emptyDirectory.mem i = 0 from rfl)]
    decide
  refine ⟨emptyDirectory_tables, by decide, by decide, by decide, ?_, ?_⟩
  · intro va lower _
    rw [blank]
    simpa [emptyDirectory] using lower
  · rw [none]
    decide

/-- A heap without pages and two free frames, which the first page and its
table take. -/
theorem allocChunk_window_empty :
    ∃ k', allocChunk 0xC0100000 0xE0000000 0x20 emptyDirectory = .ok () k' ∧
      k'.heapMax = 0xE0001000 ∧
      growthRound 0xC0100000 0xE0000000 emptyDirectory = .ok () k' := by
  let heapMaxOf : EStateM.Result Stop Kernel Unit → Option Nat
    | .ok _ k => some k.heapMax
    | .error _ _ => none
  have max : heapMaxOf (allocChunk 0xC0100000 0xE0000000 0x20
      emptyDirectory) = some 0xE0001000 := by
    decide +kernel
  obtain ⟨count, tried, k', ended, final, _, _, rounds, _⟩ :=
    allocChunk_window emptyDirectory_account 0xE0000000 0x20
  rcases ended with ⟨stopped, _⟩ | ⟨returned, _, last⟩
  · rw [stopped] at max
    cases max
  · rw [returned] at max rounds
    have reached : k'.heapMax = 0xE0001000 := Option.some.inj max
    have one : tried = 1 := by
      have start : emptyDirectory.heapMax = 0xE0000000 := rfl
      rw [last]
      simp only [pageSize] at final
      omega
    refine ⟨k', returned, reached, ?_⟩
    rw [one] at rounds
    obtain ⟨_, middle, ok, rest⟩ := Outcome.bind_eq_ok rounds
    cases rest
    exact ok

end MiniOS
