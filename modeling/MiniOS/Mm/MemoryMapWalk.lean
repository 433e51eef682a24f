import MiniOS.Mm.BootSoundness
import MiniOS.Debug.Printk

/-!
# The walk over a memory map

A record of a memory map fills its own `size` bytes behind the size field.  The
loops of `init_pmm` and `show_memory_map` step by the size of `mmap_entry_t`
instead.  This module says for which maps they still visit the records.

The map is taken to be readable: `init_pmm` sees it below 4 MB, under the tables
of `kern_entry`, and `show_memory_map` in the 512 MB of the direct map.
-/

namespace MiniOS

open ByteMemory

/-- A run of records as `multiboot.h` lays them out, from one address to
another: the addresses at which they start. -/
inductive RecordRun (mem : Mem) : Nat → List Nat → Nat → Prop
  | done (stop : Nat) : RecordRun mem stop [] stop
  | record {start stop : Nat} {rest : List Nat}
      (size : 20 ≤ load32 mem start)
      (others : RecordRun mem (start + 4 + load32 mem start) rest stop) :
      RecordRun mem start (start :: rest) stop

/-- The records fill the buffer, which lies in the address space. -/
structure FormattedMap (mem : Mem) (glbMbootPtr : Multiboot)
    (records : List Nat) : Prop where
  run : RecordRun mem glbMbootPtr.mmapAddr records
    (glbMbootPtr.mmapAddr + glbMbootPtr.mmapLength)
  space : glbMbootPtr.mmapAddr + glbMbootPtr.mmapLength ≤ 4294967296

/-! ## What the loops visit -/

/-- The pointers that the loop from `mmap` on gives to its body; `none` when it
does not end. -/
def mmapPointers (limit : Nat) : Nat → Nat → Option (List Nat)
  | 0, _ => none
  | rounds + 1, mmap =>
      if mmap < limit then do
        let rest ← mmapPointers limit rounds (uint32 (mmap + mmapEntrySize))
        return mmap :: rest
      else some []

/-- The pointers of the loop of `show_memory_map`. -/
def showMemoryMapVisits (glbMbootPtr : Multiboot) : Option (List Nat) :=
  mmapPointers
    (uint32 (glbMbootPtr.mmapAddr + glbMbootPtr.mmapLength + pageOffset))
    4294967296 (uint32 (glbMbootPtr.mmapAddr + pageOffset))

def showMmapEntry (entry : MmapEntry) : PrintkCall where
  format := "base_addr = 0x%08X, length = 0x%08X, type = 0x%X\n".toList
  args := [entry.baseAddrLow, entry.lengthLow, entry.type]

/-- `void show_memory_map()`: the calls of `printk` -/
def showMemoryMap (mem : Mem) (glbMbootPtr : Multiboot) :
    Option (List PrintkCall) := do
  let pointers ← showMemoryMapVisits glbMbootPtr
  return ⟨"\nMemory map:\n".toList, []⟩ ::
    pointers.map fun mmap => showMmapEntry (readMmapEntry mem mmap)

/-- The pointers that the loop of `init_pmm` gives to its body, until it ends
or stops in the body. -/
def initPmmVisits (phyKernEnd limit : Nat) : Nat → Nat → Kernel → List Nat
  | 0, _, _ => []
  | rounds + 1, mmap, k =>
      if mmap < limit then
        match initPmmEntry phyKernEnd (readMmapEntry k.mem mmap) k with
        | .ok () k' =>
            mmap :: initPmmVisits phyKernEnd limit rounds
              (uint32 (mmap + mmapEntrySize)) k'
        | .error _ _ => [mmap]
      else []

def initPmmRecord (phyKernEnd mmap : Nat) : KernelM Unit := do
  let k ← get
  initPmmEntry phyKernEnd (readMmapEntry k.mem mmap)

section Visits

variable {phyKernEnd limit rounds mmap : Nat} {k : Kernel}

theorem initPmmVisits_ok {k' : Kernel} (more : mmap < limit)
    (entry : initPmmEntry phyKernEnd (readMmapEntry k.mem mmap) k =
      .ok () k') :
    initPmmVisits phyKernEnd limit (rounds + 1) mmap k =
      mmap :: initPmmVisits phyKernEnd limit rounds
        (uint32 (mmap + mmapEntrySize)) k' := by
  rw [initPmmVisits, if_pos more, entry]

theorem initPmmVisits_error {stop : Stop} {k' : Kernel} (more : mmap < limit)
    (entry : initPmmEntry phyKernEnd (readMmapEntry k.mem mmap) k =
      .error stop k') :
    initPmmVisits phyKernEnd limit (rounds + 1) mmap k = [mmap] := by
  rw [initPmmVisits, if_pos more, entry]

theorem initPmmVisits_done (done : ¬mmap < limit) :
    initPmmVisits phyKernEnd limit (rounds + 1) mmap k = [] := by
  rw [initPmmVisits, if_neg done]

/-- The loop runs its body at the pointers that it visits, and nothing else,
unless it has no end. -/
theorem initPmmLoop_visits {result : EStateM.Result Stop Kernel Unit}
    (run : initPmmLoop phyKernEnd limit rounds mmap k = result)
    (ends : ∀ k', result ≠ .error .spin k') :
    (initPmmVisits phyKernEnd limit rounds mmap k).forM
      (initPmmRecord phyKernEnd) k = result := by
  subst run
  induction rounds generalizing mmap k with
  | zero => exact absurd rfl (ends k)
  | succ rounds induction =>
      rw [initPmmLoop] at ends ⊢
      by_cases more : mmap < limit
      · rw [if_pos more, KernelM.get_bind] at ends ⊢
        cases entry : initPmmEntry phyKernEnd (readMmapEntry k.mem mmap) k with
        | ok value k' =>
            rw [Outcome.bind_of_ok entry] at ends ⊢
            rw [initPmmVisits_ok more entry]
            have body : initPmmRecord phyKernEnd mmap k = .ok value k' := entry
            exact (Outcome.bind_of_ok body).trans (induction ends)
        | error stop k' =>
            rw [Outcome.bind_of_error entry, initPmmVisits_error more entry]
            have body : initPmmRecord phyKernEnd mmap k = .error stop k' :=
              entry
            exact Outcome.bind_of_error body
      · rw [if_neg more, initPmmVisits_done more]
        rfl

end Visits

/-! ## Records of the size of `mmap_entry_t` -/

namespace RecordRun

variable {mem : Mem} {start stop : Nat} {records : List Nat}

theorem inside (run : RecordRun mem start records stop) :
    start ≤ stop ∧ ∀ record ∈ records,
      start ≤ record ∧ record + mmapEntrySize ≤ stop := by
  induction run with
  | done stop => exact ⟨Nat.le_refl _, by simp⟩
  | @record start stop rest size others induction =>
      obtain ⟨ordered, inside⟩ := induction
      refine ⟨by omega, ?_⟩
      intro record member
      simp only [mmapEntrySize] at inside ⊢
      rcases List.mem_cons.mp member with rfl | later
      · omega
      · have bounds := inside record later
        omega

theorem stop_of_nil (run : RecordRun mem start [] stop) : stop = start := by
  cases run
  rfl

theorem stride (run : RecordRun mem start records stop)
    (sizes : ∀ record ∈ records, load32 mem record = 20) :
    records = List.range' start records.length mmapEntrySize ∧
      stop = start + mmapEntrySize * records.length := by
  induction run with
  | done stop => exact ⟨rfl, rfl⟩
  | @record start stop rest size others induction =>
      have first : load32 mem start = 20 := sizes start List.mem_cons_self
      obtain ⟨addresses, ends⟩ := induction fun record member =>
        sizes record (List.mem_cons_of_mem _ member)
      rw [first] at addresses ends
      constructor
      · rw [List.length_cons, List.range'_succ]
        exact congrArg (start :: ·) addresses
      · rw [List.length_cons, ends, Nat.mul_succ]
        simp only [mmapEntrySize]
        omega

end RecordRun

theorem mmapPointers_room (count : Nat) {start rounds : Nat}
    (fits : start + mmapEntrySize * count < 4294967296)
    (enough : count < rounds) :
    mmapPointers (start + mmapEntrySize * count) rounds start =
      some (List.range' start count mmapEntrySize) := by
  induction count generalizing start rounds with
  | zero =>
      obtain ⟨rounds, rfl⟩ := Nat.exists_eq_succ_of_ne_zero
        (Nat.ne_of_gt enough)
      rw [mmapPointers, if_neg (by simp)]
      rfl
  | succ count induction =>
      obtain ⟨rounds, rfl⟩ := Nat.exists_eq_succ_of_ne_zero
        (Nat.ne_of_gt (Nat.lt_of_le_of_lt (Nat.zero_le _) enough))
      have more : start < start + mmapEntrySize * (count + 1) := by
        simp only [mmapEntrySize]
        omega
      have limit : start + mmapEntrySize * (count + 1) =
          start + mmapEntrySize + mmapEntrySize * count := by
        rw [Nat.mul_succ]
        omega
      have next : uint32 (start + mmapEntrySize) = start + mmapEntrySize :=
        uint32_of_lt (by simp only [mmapEntrySize] at *; omega)
      have rest := @induction (start + mmapEntrySize) rounds (limit ▸ fits)
        (by omega)
      rw [mmapPointers, if_pos more, next, limit, rest, List.range'_succ]
      rfl

section Inversion

variable {limit rounds mmap : Nat}

theorem mmapPointers_nil (ended : mmapPointers limit rounds mmap = some []) :
    ¬mmap < limit := by
  cases rounds with
  | zero => cases ended
  | succ rounds =>
      rw [mmapPointers] at ended
      split at ended
      case isTrue =>
        obtain ⟨_, _, same⟩ := Option.bind_eq_some_iff.mp ended
        cases same
      case isFalse done => exact done

theorem mmapPointers_cons {first : Nat} {rest : List Nat}
    (pointers : mmapPointers limit rounds mmap = some (first :: rest)) :
    mmap = first ∧ mmap < limit ∧ ∃ rounds',
      mmapPointers limit rounds' (uint32 (mmap + mmapEntrySize)) =
        some rest := by
  cases rounds with
  | zero => cases pointers
  | succ rounds =>
      rw [mmapPointers] at pointers
      split at pointers
      case isTrue more =>
        obtain ⟨_, later, same⟩ := Option.bind_eq_some_iff.mp pointers
        injection same with same
        injection same with head tail
        exact ⟨head, more, rounds, tail ▸ later⟩
      case isFalse => cases pointers

end Inversion

/-- The loop that gives its body all records at an offset steps from each to
the next: all have size 20, and the end does not wrap. -/
theorem mmapPointers_records {mem : Mem} {offset start stop : Nat}
    {records : List Nat} (offsetSmall : offset < 4294967296)
    (run : RecordRun mem start records stop) (space : stop ≤ 4294967296)
    (nonempty : records ≠ []) {rounds : Nat}
    (pointers : mmapPointers (uint32 (stop + offset)) rounds
      (uint32 (start + offset)) = some (records.map (· + offset))) :
    (∀ record ∈ records, load32 mem record = 20) ∧
      stop + offset < 4294967296 := by
  induction run generalizing rounds with
  | done stop => exact absurd rfl nonempty
  | @record start stop rest size others induction =>
      obtain ⟨here, more, rounds', later⟩ := mmapPointers_cons pointers
      have here : uint32 (start + offset) = start + offset := here
      have small : start + offset < 4294967296 := by
        rw [← here]
        exact uint32_lt _
      rw [here] at more later
      cases rest with
      | nil =>
          cases others
          have ended := mmapPointers_nil later
          simp only [uint32, mmapEntrySize] at more ended
          refine ⟨?_, by omega⟩
          intro record member
          obtain rfl := List.mem_singleton.mp member
          omega
      | cons second rest =>
          have behind : second = start + 4 + load32 mem start := by
            cases others
            rfl
          have next : uint32 (start + offset + mmapEntrySize) =
              second + offset := (mmapPointers_cons later).1
          have exact : load32 mem start = 20 := by
            simp only [uint32, mmapEntrySize] at next
            omega
          have arrived : uint32 (second + offset) = second + offset := by
            rw [← next]
            exact uint32_of_lt (uint32_lt _)
          rw [next, ← arrived] at later
          subst behind
          obtain ⟨sizes, fits⟩ := induction space (by simp) later
          refine ⟨?_, fits⟩
          intro record member
          rcases List.mem_cons.mp member with rfl | member
          · exact exact
          · exact sizes record member

section Frames

variable {phyKernEnd : Nat}

theorem namedFrames_succ (mem : Mem) (mmap count : Nat) :
    namedFrames phyKernEnd (mmapRecords mem mmap (count + 1)) =
      (readMmapEntry mem mmap).lowFrames phyKernEnd ++
        namedFrames phyKernEnd
          (mmapRecords mem (mmap + mmapEntrySize) count) := by
  simp [mmapRecords, namedFrames]

/-- The pages of the records before the last find room: the loop comes to the
last record, whatever becomes of its pages. -/
theorem initPmmVisits_room (count : Nat) {mmap rounds : Nat} {k : Kernel}
    (counted : Counted k)
    (fits : mmap + mmapEntrySize * (count + 1) < 4294967296)
    (enough : count + 1 < rounds)
    (room : k.pmmStack.length + (namedFrames phyKernEnd
      (mmapRecords k.mem mmap count)).length ≤ pageMaxSize) :
    initPmmVisits phyKernEnd (mmap + mmapEntrySize * (count + 1)) rounds mmap
      k = List.range' mmap (count + 1) mmapEntrySize := by
  induction count generalizing mmap rounds k with
  | zero =>
      obtain ⟨rounds, rfl⟩ : ∃ fewer, rounds = fewer + 2 :=
        ⟨rounds - 2, by omega⟩
      have more : mmap < mmap + mmapEntrySize * (0 + 1) := by
        simp only [mmapEntrySize]
        omega
      cases entry : initPmmEntry phyKernEnd (readMmapEntry k.mem mmap) k with
      | ok value k' =>
          have next : uint32 (mmap + mmapEntrySize) =
              mmap + mmapEntrySize * (0 + 1) := uint32_of_lt fits
          rw [initPmmVisits_ok more entry, next,
            initPmmVisits_done (Nat.lt_irrefl _)]
          rfl
      | error stop k' =>
          rw [initPmmVisits_error more entry]
          rfl
  | succ count induction =>
      obtain ⟨rounds, rfl⟩ : ∃ fewer, rounds = fewer + 1 :=
        ⟨rounds - 1, by omega⟩
      have more : mmap < mmap + mmapEntrySize * (count + 1 + 1) := by
        simp only [mmapEntrySize]
        omega
      have limit : mmap + mmapEntrySize * (count + 1 + 1) =
          mmap + mmapEntrySize + mmapEntrySize * (count + 1) := by
        rw [Nat.mul_succ _ (count + 1)]
        omega
      have next : uint32 (mmap + mmapEntrySize) = mmap + mmapEntrySize :=
        uint32_of_lt (by simp only [mmapEntrySize] at *; omega)
      rw [namedFrames_succ, List.length_append] at room
      have entryRoom : k.pmmStack.length + ((readMmapEntry k.mem
          mmap).lowFrames phyKernEnd).length ≤ pageMaxSize := by omega
      have entry := (initPmmEntry_spec phyKernEnd counted
        (readMmapEntry k.mem mmap)).1 entryRoom
      rw [initPmmVisits_ok more entry, next, limit]
      have rest := @induction (mmap + mmapEntrySize) rounds _
        (counted.pushed _ entryRoom) (limit ▸ fits) (by omega) (by
          simp only [Kernel.pushed, List.length_append, List.length_reverse]
          omega)
      rw [rest]
      rfl

/-- Too many pages before the last record: the loop stops earlier. -/
theorem initPmmVisits_full (count : Nat) {limit mmap rounds : Nat} {k : Kernel}
    (counted : Counted k)
    (fits : mmap + mmapEntrySize * (count + 1) < 4294967296)
    (full : pageMaxSize < k.pmmStack.length + (namedFrames phyKernEnd
      (mmapRecords k.mem mmap count)).length) :
    (initPmmVisits phyKernEnd limit rounds mmap k).length ≤ count := by
  induction count generalizing mmap rounds k with
  | zero =>
      have height := counted.height
      simp only [mmapRecords, namedFrames, List.flatMap_nil,
        List.length_nil] at full
      omega
  | succ count induction =>
      cases rounds with
      | zero => exact Nat.zero_le _
      | succ rounds =>
          by_cases more : mmap < limit
          · have next : uint32 (mmap + mmapEntrySize) =
                mmap + mmapEntrySize :=
              uint32_of_lt (by simp only [mmapEntrySize] at *; omega)
            rw [namedFrames_succ, List.length_append] at full
            obtain ⟨entryRoom, entryFull⟩ := initPmmEntry_spec phyKernEnd
              counted (readMmapEntry k.mem mmap)
            by_cases room : k.pmmStack.length + ((readMmapEntry k.mem
                mmap).lowFrames phyKernEnd).length ≤ pageMaxSize
            · rw [initPmmVisits_ok more (entryRoom room), next,
                List.length_cons]
              apply Nat.succ_le_succ
              apply induction (counted.pushed _ room)
              · simp only [mmapEntrySize] at *
                omega
              · simp only [Kernel.pushed, List.length_append,
                  List.length_reverse]
                omega
            · rw [initPmmVisits_error more (entryFull (by omega))]
              exact Nat.succ_le_succ (Nat.zero_le _)
          · rw [initPmmVisits_done more]
            exact Nat.zero_le _

end Frames

/-! ## Which maps are walked as formatted -/

/-- The fields that the loops read at `mmap` lie in the buffer. -/
def FieldsInside (start length mmap : Nat) : Prop :=
  ∀ field ∈ [4, 12, 20], start ≤ mmap + field ∧
    mmap + field + 4 ≤ start + length

/-- Both loops visit the records in order, `show_memory_map` through the direct
map, and read inside the buffer. -/
structure WalkFollows (phyKernEnd : Nat) (k : Kernel)
    (glbMbootPtr : Multiboot) (records : List Nat) : Prop where
  init_visits : initPmmVisits phyKernEnd
    (uint32 (glbMbootPtr.mmapAddr + glbMbootPtr.mmapLength)) 4294967296
    glbMbootPtr.mmapAddr k = records
  show_visits : showMemoryMapVisits glbMbootPtr =
    some (records.map (· + pageOffset))
  init_inside : ∀ mmap ∈ initPmmVisits phyKernEnd
      (uint32 (glbMbootPtr.mmapAddr + glbMbootPtr.mmapLength)) 4294967296
      glbMbootPtr.mmapAddr k,
    FieldsInside glbMbootPtr.mmapAddr glbMbootPtr.mmapLength mmap
  show_inside : ∀ mmap ∈ (showMemoryMapVisits glbMbootPtr).getD [],
    FieldsInside (glbMbootPtr.mmapAddr + pageOffset) glbMbootPtr.mmapLength
      mmap

/-- All records have the size of `mmap_entry_t`, the end of the map does not
wrap when `PAGE_OFFSET` is added, and the page stack holds the pages that the
records before the last name. -/
structure WalkFits (phyKernEnd : Nat) (mem : Mem) (glbMbootPtr : Multiboot)
    (records : List Nat) : Prop where
  sizes : ∀ record ∈ records, load32 mem record = 20
  space : glbMbootPtr.mmapAddr + glbMbootPtr.mmapLength + pageOffset <
    4294967296
  room : (namedFrames phyKernEnd (mmapRecords mem glbMbootPtr.mmapAddr
    (records.length - 1))).length ≤ pageMaxSize

theorem RecordRun.fieldsInside {mem : Mem} {start length : Nat}
    {records : List Nat} (run : RecordRun mem start records (start + length))
    (offset : Nat) {record : Nat} (member : record ∈ records) :
    FieldsInside (start + offset) length (record + offset) := by
  intro field among
  have bounds := run.inside.2 record member
  simp only [mmapEntrySize] at bounds
  simp only [List.mem_cons, List.not_mem_nil, or_false] at among
  omega

section Follows

variable {phyKernEnd : Nat} {k : Kernel} {mem : Mem} {glbMbootPtr : Multiboot}
variable {records : List Nat}

theorem FormattedMap.follows (map : FormattedMap k.mem glbMbootPtr records)
    (initVisits : initPmmVisits phyKernEnd
      (uint32 (glbMbootPtr.mmapAddr + glbMbootPtr.mmapLength)) 4294967296
      glbMbootPtr.mmapAddr k = records)
    (showVisits : showMemoryMapVisits glbMbootPtr =
      some (records.map (· + pageOffset))) :
    WalkFollows phyKernEnd k glbMbootPtr records where
  init_visits := initVisits
  show_visits := showVisits
  init_inside := by
    intro mmap member
    rw [initVisits] at member
    exact map.run.fieldsInside 0 member
  show_inside := by
    intro mmap member
    rw [showVisits] at member
    obtain ⟨record, inRecords, rfl⟩ := List.mem_map.mp member
    exact map.run.fieldsInside pageOffset inRecords

theorem counted_of_fresh (fresh : FreshStack k) : Counted k :=
  ⟨by rw [fresh.stack, fresh.count]; rfl, by rw [fresh.stack]; decide⟩

theorem FreshStack.length_eq_zero (fresh : FreshStack k) :
    k.pmmStack.length = 0 := by
  rw [fresh.stack]
  rfl

/-- No address that the two walks come to wraps. -/
theorem FormattedMap.bounds (map : FormattedMap mem glbMbootPtr records)
    (sizes : ∀ record ∈ records, load32 mem record = 20)
    (space : glbMbootPtr.mmapAddr + glbMbootPtr.mmapLength + pageOffset <
      4294967296) :
    glbMbootPtr.mmapAddr + pageOffset + mmapEntrySize * records.length <
        4294967296 ∧ records.length + 1 < 4294967296 := by
  obtain ⟨_, ends⟩ := map.run.stride sizes
  simp only [mmapEntrySize, pageOffset] at ends space ⊢
  omega

theorem FormattedMap.initPmm_follows (fresh : FreshStack k)
    (map : FormattedMap k.mem glbMbootPtr records) (nonempty : records ≠ [])
    (fits : WalkFits phyKernEnd k.mem glbMbootPtr records) :
    initPmmVisits phyKernEnd
      (uint32 (glbMbootPtr.mmapAddr + glbMbootPtr.mmapLength)) 4294967296
      glbMbootPtr.mmapAddr k = records := by
  obtain ⟨addresses, ends⟩ := map.run.stride fits.sizes
  obtain ⟨upper, few⟩ := map.bounds fits.sizes fits.space
  have count : records.length - 1 + 1 = records.length :=
    Nat.sub_add_cancel (List.length_pos_of_ne_nil nonempty)
  have small : glbMbootPtr.mmapAddr + mmapEntrySize * records.length <
      4294967296 := by omega
  have visits : initPmmVisits phyKernEnd (glbMbootPtr.mmapAddr +
      mmapEntrySize * (records.length - 1 + 1)) 4294967296
      glbMbootPtr.mmapAddr k = List.range' glbMbootPtr.mmapAddr
        (records.length - 1 + 1) mmapEntrySize :=
    initPmmVisits_room _ (counted_of_fresh fresh) (by rwa [count]) (by omega)
      (by rw [fresh.length_eq_zero, Nat.zero_add]; exact fits.room)
  rw [ends, uint32_of_lt small]
  rwa [count, ← addresses] at visits

theorem FormattedMap.showMemoryMap_follows
    (map : FormattedMap mem glbMbootPtr records)
    (sizes : ∀ record ∈ records, load32 mem record = 20)
    (space : glbMbootPtr.mmapAddr + glbMbootPtr.mmapLength + pageOffset <
      4294967296) :
    showMemoryMapVisits glbMbootPtr =
      some (records.map (· + pageOffset)) := by
  obtain ⟨addresses, ends⟩ := map.run.stride sizes
  obtain ⟨upper, few⟩ := map.bounds sizes space
  have start : uint32 (glbMbootPtr.mmapAddr + pageOffset) =
      glbMbootPtr.mmapAddr + pageOffset := uint32_of_lt (by omega)
  have stop : uint32 (glbMbootPtr.mmapAddr + glbMbootPtr.mmapLength +
      pageOffset) = glbMbootPtr.mmapAddr + pageOffset +
        mmapEntrySize * records.length := by
    rw [uint32_of_lt space]
    omega
  have shift : records.map (· + pageOffset) =
      List.range' (glbMbootPtr.mmapAddr + pageOffset) records.length
        mmapEntrySize := by
    have flipped : (fun record => record + pageOffset) = (pageOffset + ·) :=
      funext fun _ => Nat.add_comm _ _
    rw [flipped, Nat.add_comm glbMbootPtr.mmapAddr, ← List.map_add_range',
      ← addresses]
  unfold showMemoryMapVisits
  rw [start, stop, mmapPointers_room _ upper (by omega), shift]

theorem FormattedMap.follows_nil (map : FormattedMap k.mem glbMbootPtr []) :
    WalkFollows phyKernEnd k glbMbootPtr [] := by
  have empty : glbMbootPtr.mmapLength = 0 := by
    have stop := map.run.stop_of_nil
    omega
  apply map.follows
  · apply initPmmVisits_done
    rw [empty, Nat.add_zero]
    exact Nat.not_lt.mpr (Nat.mod_le _ _)
  · unfold showMemoryMapVisits
    rw [empty, Nat.add_zero, mmapPointers, if_neg (Nat.lt_irrefl _)]
    rfl

/-- A full page stack would have stopped `init_pmm` before the last record. -/
theorem FormattedMap.fits_of_follows (fresh : FreshStack k)
    (map : FormattedMap k.mem glbMbootPtr records) (nonempty : records ≠ [])
    (follows : WalkFollows phyKernEnd k glbMbootPtr records) :
    WalkFits phyKernEnd k.mem glbMbootPtr records := by
  have space := map.space
  obtain ⟨sizes, reached⟩ := mmapPointers_records (by decide) map.run space
    nonempty follows.show_visits
  refine ⟨sizes, reached, ?_⟩
  obtain ⟨_, ends⟩ := map.run.stride sizes
  have positive := List.length_pos_of_ne_nil nonempty
  have small : glbMbootPtr.mmapAddr + mmapEntrySize *
      (records.length - 1 + 1) < 4294967296 := by
    rw [Nat.sub_add_cancel positive, ← ends]
    omega
  have height := fresh.length_eq_zero
  by_contra many
  have short : (initPmmVisits phyKernEnd
      (uint32 (glbMbootPtr.mmapAddr + glbMbootPtr.mmapLength)) 4294967296
      glbMbootPtr.mmapAddr k).length ≤ records.length - 1 :=
    initPmmVisits_full _ (counted_of_fresh fresh) small (by omega)
  rw [follows.init_visits] at short
  omega

/-- The loops of `init_pmm` and `show_memory_map` visit exactly the records of
a map when it has none, or all have the size of `mmap_entry_t` and what they
name fits. -/
theorem walkFollows_iff (fresh : FreshStack k)
    (map : FormattedMap k.mem glbMbootPtr records) :
    WalkFollows phyKernEnd k glbMbootPtr records ↔
      records = [] ∨ WalkFits phyKernEnd k.mem glbMbootPtr records := by
  by_cases none : records = []
  · subst none
    exact iff_of_true map.follows_nil (.inl rfl)
  · constructor
    · intro follows
      exact .inr (map.fits_of_follows fresh none follows)
    · intro condition
      have fits := condition.resolve_left none
      exact map.follows (map.initPmm_follows fresh none fits)
        (map.showMemoryMap_follows fits.sizes fits.space)

end Follows

/-- A map of one record of size 20. -/
theorem walkFollows_lowEntry :
    WalkFollows 0x182000 (bootKernel lowEntry) ⟨24, 0x1000⟩ [0x1000] := by
  have size : load32 (bootKernel lowEntry).mem 0x1000 = 20 := by decide
  have map : FormattedMap (bootKernel lowEntry).mem ⟨24, 0x1000⟩
      [0x1000] := by
    refine ⟨.record (by rw [size]) ?_, by decide⟩
    rw [size]
    exact .done _
  refine (walkFollows_iff ⟨rfl, rfl⟩ map).mpr (.inr ⟨?_, by decide, ?_⟩)
  · intro record member
    obtain rfl := List.mem_singleton.mp member
    exact size
  · exact Nat.zero_le _

/-- The kernel before `init_pmm`, with a record of size 24 before one of
size 20. -/
def extendedKernel : Kernel where
  mem := storeMmapEntry
    (storeMmapEntry (fun _ => 0) 0x1000 ⟨24, 0x200000, 0, 0x1000, 0, 1⟩)
    0x101C ⟨20, 0x300000, 0, 0x1000, 0, 1⟩
  pmmStack := []
  phyPageCount := 0
  heapFirst := 0
  heapMax := heapStart

/-- The second and the third pointer are between the records, and the third
record read is not in the buffer. -/
theorem walk_extendedKernel :
    FreshStack extendedKernel ∧
      FormattedMap extendedKernel.mem ⟨52, 0x1000⟩ [0x1000, 0x101C] ∧
      showMemoryMapVisits ⟨52, 0x1000⟩ =
        some [0xC0001000, 0xC0001018, 0xC0001030] ∧
      ¬WalkFollows 0x182000 extendedKernel ⟨52, 0x1000⟩
        [0x1000, 0x101C] := by
  have first : load32 extendedKernel.mem 0x1000 = 24 := by decide
  have second : load32 extendedKernel.mem 0x101C = 20 := by decide
  have pointers : showMemoryMapVisits ⟨52, 0x1000⟩ =
      some [0xC0001000, 0xC0001018, 0xC0001030] := by
    decide
  have map : FormattedMap extendedKernel.mem ⟨52, 0x1000⟩
      [0x1000, 0x101C] := by
    refine ⟨.record (by rw [first]; decide) ?_, by decide⟩
    rw [first]
    refine .record (by rw [second]) ?_
    rw [second]
    exact .done _
  refine ⟨⟨rfl, rfl⟩, map, pointers, fun follows => ?_⟩
  have visits := follows.show_visits
  rw [pointers] at visits
  exact absurd visits (by decide)

end MiniOS
