import MiniOS.Mm.Pmm
import Mathlib.Data.List.Nodup
import Mathlib.Data.List.Perm.Subperm

/-!
# The boot memory map

`mmapRecords` reads the records of a map one behind the other.  A record names
the frames between its rounded ends, all by 32-bit arithmetic on the low
halves of base and length; `initPmm` pushes the frames of all records in order,
or stops when they are too many for the page stack.
-/

namespace MiniOS

open ByteMemory

/-- The `count` records from `mmap` on. -/
def mmapRecords (mem : Mem) : Nat → Nat → List MmapEntry
  | _, 0 => []
  | mmap, count + 1 =>
      readMmapEntry mem mmap :: mmapRecords mem (mmap + mmapEntrySize) count

namespace MmapEntry

/-- The record is of type 1 and its rounded end is not below the kernel's. -/
def Considered (phyKernEnd : Nat) (entry : MmapEntry) : Prop :=
  entry.type = 1 ∧ ¬frameEnd entry < phyKernEnd

instance (phyKernEnd : Nat) (entry : MmapEntry) :
    Decidable (entry.Considered phyKernEnd) :=
  inferInstanceAs (Decidable (_ ∧ _))

/-- The frames that a record names by its low halves. -/
def lowFrames (phyKernEnd : Nat) (entry : MmapEntry) : List Nat :=
  if entry.Considered phyKernEnd then
    List.range' (frameBegin phyKernEnd entry)
      ((frameEnd entry - frameBegin phyKernEnd entry) / pageSize) pageSize
  else []

end MmapEntry

/-- All frames that the records name, in the order of the walk. -/
def namedFrames (phyKernEnd : Nat) (records : List MmapEntry) : List Nat :=
  records.flatMap (MmapEntry.lowFrames phyKernEnd)

/-- The state after the frames were pushed in order. -/
def Kernel.pushed (k : Kernel) (frames : List Nat) : Kernel :=
  { k with
    pmmStack := frames.reverse ++ k.pmmStack
    phyPageCount := k.phyPageCount + frames.length }

@[simp] theorem Kernel.pushed_nil (k : Kernel) : k.pushed [] = k := rfl

@[simp] theorem Kernel.pushed_mem (k : Kernel) (frames : List Nat) :
    (k.pushed frames).mem = k.mem := rfl

theorem Kernel.pushed_append (k : Kernel) (front back : List Nat) :
    k.pushed (front ++ back) = (k.pushed front).pushed back := by
  simp [Kernel.pushed, Nat.add_assoc]

/-- The page count is the height of the stack, which has room. -/
structure Counted (k : Kernel) : Prop where
  count : k.phyPageCount = k.pmmStack.length
  height : k.pmmStack.length ≤ pageMaxSize

theorem Counted.pushed {k : Kernel} (counted : Counted k) (frames : List Nat)
    (room : k.pmmStack.length + frames.length ≤ pageMaxSize) :
    Counted (k.pushed frames) where
  count := by
    simp [Kernel.pushed, counted.count, Nat.add_comm]
  height := by
    simpa [Kernel.pushed, Nat.add_comm] using room

section Frames

variable {stop : Nat}

theorem freeFrames_succ (rounds : Nat) {start : Nat} {k : Kernel}
    (counted : Counted k) (more : start < stop)
    (next : start + pageSize < 4294967296)
    (room : k.pmmStack.length ≠ pageMaxSize) :
    freeFrames stop (rounds + 1) start k =
      freeFrames stop rounds (start + pageSize) (k.pushed [start]) := by
  have height := counted.height
  have countSmall : k.phyPageCount + 1 < 4294967296 := by
    rw [counted.count]
    simp only [pageMaxSize, pmmMaxSize, pmmPageSize] at height
    omega
  rw [freeFrames, if_pos more, Outcome.bind_of_ok (pmmFreePage_room _ room),
    KernelM.modify_bind, uint32_of_lt next]
  simp only [uint32_of_lt countSmall]
  rfl

theorem freeFrames_room (count : Nat) {start rounds : Nat} {k : Kernel}
    (counted : Counted k)
    (distance : stop - start = count * pageSize)
    (small : stop < 4294967296)
    (room : k.pmmStack.length + count ≤ pageMaxSize) (enough : count < rounds) :
    freeFrames stop rounds start k =
      .ok () (k.pushed (List.range' start count pageSize)) := by
  induction count generalizing start rounds k with
  | zero =>
      obtain ⟨rounds, rfl⟩ := Nat.exists_eq_succ_of_ne_zero
        (Nat.ne_of_gt enough)
      have done : ¬start < stop := by omega
      rw [freeFrames, if_neg done]
      rfl
  | succ count induction =>
      obtain ⟨rounds, rfl⟩ := Nat.exists_eq_succ_of_ne_zero
        (Nat.ne_of_gt (Nat.lt_of_le_of_lt (Nat.zero_le _) enough))
      have next : start + pageSize ≤ stop := by
        simp only [pageSize] at distance ⊢
        omega
      rw [freeFrames_succ rounds counted (by simp only [pageSize] at next; omega)
        (by omega) (by omega)]
      rw [induction (counted.pushed [start] (by simp; omega))
        (by simp only [pageSize] at distance ⊢; omega)
        (by simp [Kernel.pushed]; omega) (by omega)]
      rw [← Kernel.pushed_append]
      rfl

/-- Too many frames: those that fit are pushed before the panic. -/
theorem freeFrames_full (count : Nat) {start rounds : Nat} {k : Kernel}
    (counted : Counted k)
    (distance : stop - start = count * pageSize)
    (small : stop < 4294967296)
    (full : pageMaxSize < k.pmmStack.length + count)
    (enough : pageMaxSize < k.pmmStack.length + rounds) :
    freeFrames stop rounds start k =
      .error (.panic "out of pmm_stack stack")
        (k.pushed ((List.range' start count pageSize).take
          (pageMaxSize - k.pmmStack.length))) := by
  induction count generalizing start rounds k with
  | zero =>
      have height := counted.height
      omega
  | succ count induction =>
      have height := counted.height
      obtain ⟨rounds, rfl⟩ := Nat.exists_eq_succ_of_ne_zero
        (show rounds ≠ 0 by omega)
      have next : start + pageSize ≤ stop := by
        simp only [pageSize] at distance ⊢
        omega
      have more : start < stop := by
        simp only [pageSize] at next
        omega
      by_cases room : k.pmmStack.length = pageMaxSize
      · rw [freeFrames, if_pos more, room, Nat.sub_self, List.take_zero]
        exact Outcome.bind_of_error (pmmFreePage_full _ room)
      · have left : pageMaxSize - k.pmmStack.length =
            pageMaxSize - (k.pushed [start]).pmmStack.length + 1 := by
          simp only [Kernel.pushed, List.reverse_singleton,
            List.singleton_append, List.length_cons]
          omega
        have first : ∀ rest, k.pushed (start :: rest) =
            (k.pushed [start]).pushed rest := k.pushed_append [start]
        rw [freeFrames_succ rounds counted more (by omega) room,
          List.range'_succ, left, List.take_succ_cons, first (List.take _ _)]
        apply induction (counted.pushed [start] (by simp; omega))
        · simp only [pageSize] at distance ⊢
          omega
        · simp only [Kernel.pushed, List.reverse_singleton,
            List.singleton_append, List.length_cons]
          omega
        · simp only [Kernel.pushed, List.reverse_singleton,
            List.singleton_append, List.length_cons]
          omega

end Frames

theorem roundDown_lt {a : Nat} (small : a < 4294967296) (n : Nat) :
    roundDown a n < 4294967296 :=
  Nat.lt_of_le_of_lt (roundDown_le a n) small

section Records

variable {k : Kernel}

theorem frameEnd_lt (entry : MmapEntry) : frameEnd entry < 4294967296 :=
  roundDown_lt (uint32_lt _) _

theorem distance_eq (phyKernEnd : Nat) (entry : MmapEntry) :
    frameEnd entry - frameBegin phyKernEnd entry =
      (frameEnd entry - frameBegin phyKernEnd entry) / pageSize *
        pageSize := by
  have endAligned : frameEnd entry % pageSize = 0 := roundDown_mod _ _
  have beginAligned : frameBegin phyKernEnd entry % pageSize = 0 :=
    roundDown_mod _ _
  simp only [pageSize] at *
  omega

theorem initPmmEntry_spec (phyKernEnd : Nat) (counted : Counted k)
    (entry : MmapEntry) :
    (k.pmmStack.length + (entry.lowFrames phyKernEnd).length ≤ pageMaxSize →
      initPmmEntry phyKernEnd entry k =
        .ok () (k.pushed (entry.lowFrames phyKernEnd))) ∧
      (pageMaxSize < k.pmmStack.length + (entry.lowFrames phyKernEnd).length →
        initPmmEntry phyKernEnd entry k =
          .error (.panic "out of pmm_stack stack")
            (k.pushed ((entry.lowFrames phyKernEnd).take
              (pageMaxSize - k.pmmStack.length)))) := by
  unfold initPmmEntry MmapEntry.lowFrames MmapEntry.Considered
  have height := counted.height
  have distance := distance_eq phyKernEnd entry
  have small := frameEnd_lt entry
  by_cases available : entry.type = 1
  · by_cases below : frameEnd entry < phyKernEnd
    · simpa [available, below] using height
    · simp only [available, below, not_false_eq_true, and_self, if_true,
        if_false, List.length_range']
      constructor
      · intro room
        exact freeFrames_room _ counted distance small room (by omega)
      · intro full
        exact freeFrames_full _ counted distance small full (by omega)
  · simpa [available] using height

theorem initPmmLoop_spec (phyKernEnd count : Nat) {mmap rounds : Nat} {k : Kernel}
    (counted : Counted k)
    (fits : mmap + mmapEntrySize * count < 4294967296)
    (enough : count < rounds) :
    (k.pmmStack.length + (namedFrames phyKernEnd
        (mmapRecords k.mem mmap count)).length ≤ pageMaxSize →
      initPmmLoop phyKernEnd (mmap + mmapEntrySize * count) rounds mmap k =
        .ok () (k.pushed (namedFrames phyKernEnd
          (mmapRecords k.mem mmap count)))) ∧
      (pageMaxSize < k.pmmStack.length + (namedFrames phyKernEnd
          (mmapRecords k.mem mmap count)).length →
        initPmmLoop phyKernEnd (mmap + mmapEntrySize * count) rounds mmap k =
          .error (.panic "out of pmm_stack stack")
            (k.pushed ((namedFrames phyKernEnd
              (mmapRecords k.mem mmap count)).take
                (pageMaxSize - k.pmmStack.length)))) := by
  induction count generalizing mmap rounds k with
  | zero =>
      obtain ⟨rounds, rfl⟩ := Nat.exists_eq_succ_of_ne_zero
        (Nat.ne_of_gt enough)
      have height := counted.height
      rw [initPmmLoop, if_neg (by simp)]
      refine ⟨fun _ => rfl, fun full => ?_⟩
      simp only [mmapRecords, namedFrames, List.flatMap_nil,
        List.length_nil] at full
      omega
  | succ count induction =>
      obtain ⟨rounds, rfl⟩ := Nat.exists_eq_succ_of_ne_zero
        (Nat.ne_of_gt (Nat.lt_of_le_of_lt (Nat.zero_le _) enough))
      have more : mmap < mmap + mmapEntrySize * (count + 1) := by
        simp only [mmapEntrySize]
        omega
      have limit : mmap + mmapEntrySize * (count + 1) =
          mmap + mmapEntrySize + mmapEntrySize * count := by
        rw [Nat.mul_succ]
        omega
      have next : uint32 (mmap + mmapEntrySize) = mmap + mmapEntrySize :=
        uint32_of_lt (by simp only [mmapEntrySize] at *; omega)
      obtain ⟨entryRoom, entryFull⟩ := initPmmEntry_spec phyKernEnd counted
        (readMmapEntry k.mem mmap)
      have split : namedFrames phyKernEnd (mmapRecords k.mem mmap (count + 1)) =
          (readMmapEntry k.mem mmap).lowFrames phyKernEnd ++
            namedFrames phyKernEnd
              (mmapRecords k.mem (mmap + mmapEntrySize) count) := by
        simp [mmapRecords, namedFrames]
      rw [split, initPmmLoop, if_pos more, KernelM.get_bind, next, limit,
        List.length_append, Kernel.pushed_append, List.take_append]
      by_cases room : k.pmmStack.length +
          ((readMmapEntry k.mem mmap).lowFrames phyKernEnd).length ≤
            pageMaxSize
      · have rest := @induction (mmap + mmapEntrySize) rounds _
          (counted.pushed _ room) (limit ▸ fits) (by omega)
        have height : (k.pushed ((readMmapEntry k.mem mmap).lowFrames
            phyKernEnd)).pmmStack.length = k.pmmStack.length +
              ((readMmapEntry k.mem mmap).lowFrames phyKernEnd).length := by
          simp [Kernel.pushed, Nat.add_comm]
        rw [height, Kernel.pushed_mem, Nat.add_assoc, Nat.sub_add_eq] at rest
        rw [Outcome.bind_of_ok (entryRoom room), List.take_of_length_le
          (Nat.le_sub_of_add_le' room), Kernel.pushed_append]
        exact rest
      · refine ⟨fun whole => absurd whole (by omega), fun _ => ?_⟩
        have none : pageMaxSize - k.pmmStack.length -
            ((readMmapEntry k.mem mmap).lowFrames phyKernEnd).length = 0 := by
          omega
        rw [none, List.take_zero, List.append_nil]
        exact Outcome.bind_of_error (entryFull (by omega))

/-- The records that start in a map of `mmap_length` bytes, the last of them
perhaps cut. -/
def recordCount (mmapLength : Nat) : Nat :=
  (mmapLength + (mmapEntrySize - 1)) / mmapEntrySize

/-- The records that the walk of `init_pmm` reads. -/
def Multiboot.records (glbMbootPtr : Multiboot) (mem : Mem) : List MmapEntry :=
  mmapRecords mem glbMbootPtr.mmapAddr (recordCount glbMbootPtr.mmapLength)

/-- The records of the map lie in the 32-bit address space. -/
abbrev Multiboot.MapFits (glbMbootPtr : Multiboot) : Prop :=
  glbMbootPtr.mmapAddr +
    mmapEntrySize * recordCount glbMbootPtr.mmapLength < 4294967296

/-- The walk sees the end of the map at the starts of the records only. -/
theorem initPmmLoop_length (phyKernEnd : Nat) {mmap length : Nat}
    (fits : mmap + mmapEntrySize * recordCount length < 4294967296)
    (rounds i : Nat) :
    initPmmLoop phyKernEnd (mmap + length) rounds (mmap + mmapEntrySize * i) =
      initPmmLoop phyKernEnd (mmap + mmapEntrySize * recordCount length)
        rounds (mmap + mmapEntrySize * i) := by
  induction rounds generalizing i with
  | zero => rfl
  | succ rounds induction =>
      simp only [recordCount, mmapEntrySize] at fits induction ⊢
      rw [initPmmLoop, initPmmLoop]
      by_cases more : mmap + 24 * i < mmap + length
      · have next : uint32 (mmap + 24 * i + mmapEntrySize) =
            mmap + 24 * (i + 1) :=
          uint32_of_lt (by simp only [mmapEntrySize]; omega)
        rw [if_pos more, if_pos (by omega), next, induction]
      · rw [if_neg more, if_neg (by omega)]

theorem initPmm_length (kernEnd : Nat) {glbMbootPtr : Multiboot}
    (fits : glbMbootPtr.MapFits) :
    initPmm glbMbootPtr kernEnd =
      initPmm ⟨mmapEntrySize * recordCount glbMbootPtr.mmapLength,
        glbMbootPtr.mmapAddr⟩ kernEnd := by
  have whole : glbMbootPtr.mmapLength ≤
      mmapEntrySize * recordCount glbMbootPtr.mmapLength := by
    simp only [recordCount, mmapEntrySize]
    omega
  have short : glbMbootPtr.mmapAddr + glbMbootPtr.mmapLength < 4294967296 :=
    Nat.lt_of_le_of_lt (Nat.add_le_add_left whole _) fits
  unfold initPmm
  rw [uint32_of_lt fits, uint32_of_lt short]
  exact initPmmLoop_length _ fits _ 0

/-- At boot the page stack is empty. -/
structure FreshStack (k : Kernel) : Prop where
  stack : k.pmmStack = []
  count : k.phyPageCount = 0

theorem initPmm_spec (fresh : FreshStack k) (kernEnd : Nat) {mmap count : Nat}
    (fits : mmap + mmapEntrySize * count < 4294967296) :
    ((namedFrames (kernEnd - pageOffset)
        (mmapRecords k.mem mmap count)).length ≤ pageMaxSize →
      initPmm ⟨mmapEntrySize * count, mmap⟩ kernEnd k =
        .ok () (k.pushed (namedFrames (kernEnd - pageOffset)
          (mmapRecords k.mem mmap count)))) ∧
      (pageMaxSize < (namedFrames (kernEnd - pageOffset)
          (mmapRecords k.mem mmap count)).length →
        initPmm ⟨mmapEntrySize * count, mmap⟩ kernEnd k =
          .error (.panic "out of pmm_stack stack")
            (k.pushed ((namedFrames (kernEnd - pageOffset)
              (mmapRecords k.mem mmap count)).take pageMaxSize))) := by
  have counted : Counted k :=
    ⟨by rw [fresh.stack, fresh.count]; rfl, by rw [fresh.stack]; decide⟩
  have enough : count < 4294967296 := by
    simp only [mmapEntrySize] at fits
    omega
  have walk := initPmmLoop_spec (kernEnd - pageOffset) count counted fits
    enough
  rw [fresh.stack, List.length_nil, Nat.zero_add, Nat.sub_zero] at walk
  unfold initPmm
  rwa [uint32_of_lt fits]

end Records

namespace MmapEntry

variable {phyKernEnd frame : Nat} {entry : MmapEntry}

/-- The fields are 32-bit words. -/
structure Word32 (entry : MmapEntry) : Prop where
  baseLow : entry.baseAddrLow < 4294967296
  lengthLow : entry.lengthLow < 4294967296

theorem mem_lowFrames : frame ∈ entry.lowFrames phyKernEnd ↔
    entry.Considered phyKernEnd ∧ frame % pageSize = 0 ∧
      frameBegin phyKernEnd entry ≤ frame ∧ frame < frameEnd entry := by
  unfold lowFrames
  split
  case isTrue considered =>
    have distance := distance_eq phyKernEnd entry
    have aligned : frameBegin phyKernEnd entry % pageSize = 0 :=
      roundDown_mod _ _
    rw [List.mem_range']
    constructor
    · rintro ⟨i, inside, rfl⟩
      simp only [pageSize] at *
      exact ⟨considered, by omega, by omega, by omega⟩
    · rintro ⟨_, frameAligned, lower, upper⟩
      refine ⟨(frame - frameBegin phyKernEnd entry) / pageSize, ?_, ?_⟩ <;>
        simp only [pageSize] at * <;> omega
  case isFalse ignored => simp [ignored]

theorem nodup_lowFrames (phyKernEnd : Nat) (entry : MmapEntry) :
    (entry.lowFrames phyKernEnd).Nodup := by
  unfold lowFrames
  split
  · exact List.nodup_range' _ (by decide)
  · exact List.nodup_nil

theorem roundUp_le {a : Nat} (room : a ≤ 0xFFFFF000) :
    a ≤ roundUp a pmmPageSize := by
  unfold roundUp
  rw [uint32_of_lt (by simp only [pmmPageSize]; omega)]
  simp only [roundDown, pmmPageSize]
  omega

/-- When `ROUNDUP` does not wrap, the frames that a record names lie between
its low base and the sum of the low halves, which does not wrap either. -/
theorem lowFrames_bounds (word : entry.Word32)
    (kernel : phyKernEnd ≤ 0xFFFFF000) (low : entry.baseAddrLow ≤ 0xFFFFF000)
    (member : frame ∈ entry.lowFrames phyKernEnd) :
    phyKernEnd ≤ frame ∧ entry.baseAddrLow ≤ frame ∧
      frame + pageSize ≤ entry.baseAddrLow + entry.lengthLow := by
  obtain ⟨_, aligned, lower, upper⟩ := mem_lowFrames.mp member
  have baseLow := word.baseLow
  have lengthLow := word.lengthLow
  have clamp : phyKernEnd ≤ frameBegin phyKernEnd entry ∧
      entry.baseAddrLow ≤ frameBegin phyKernEnd entry := by
    unfold frameBegin
    split
    · have rounded := roundUp_le kernel
      omega
    · have rounded := roundUp_le low
      omega
  have endAligned : frameEnd entry % pageSize = 0 := roundDown_mod _ _
  have endLe : frameEnd entry ≤
      uint32 (entry.baseAddrLow + entry.lengthLow) := roundDown_le _ _
  simp only [uint32] at endLe
  simp only [pageSize] at *
  omega

/-- When it wraps, the first frame named is frame 0. -/
theorem zero_mem_lowFrames (word : entry.Word32)
    (kernel : phyKernEnd ≤ 0xFFFFF000) (high : 0xFFFFF000 < entry.baseAddrLow)
    (member : frame ∈ entry.lowFrames phyKernEnd) :
    0 ∈ entry.lowFrames phyKernEnd := by
  obtain ⟨considered, _, _, upper⟩ := mem_lowFrames.mp member
  have baseLow := word.baseLow
  have wrapped : frameBegin phyKernEnd entry = 0 := by
    unfold frameBegin
    rw [if_neg (by omega)]
    simp only [roundUp, roundDown, uint32, pmmPageSize]
    omega
  rw [mem_lowFrames]
  exact ⟨considered, rfl, Nat.le_of_eq wrapped,
    Nat.lt_of_le_of_lt (Nat.zero_le _) upper⟩

end MmapEntry

theorem mmapRecords_word {mem : Mem} {entry : MmapEntry} (count : Nat) :
    ∀ mmap, entry ∈ mmapRecords mem mmap count → entry.Word32 := by
  induction count with
  | zero => simp [mmapRecords]
  | succ count induction =>
      intro mmap member
      rcases List.mem_cons.mp member with rfl | later
      · exact ⟨load32_lt _ _, load32_lt _ _⟩
      · exact induction _ later

end MiniOS
