import MiniOS.Mm.BootSoundness
import Mathlib.Data.List.Sort

/-!
# The frames of a memory map

What `init_pmm` is for: the frames of available memory behind the kernel, each
once.  For regions below 4 GiB the page stack holds these frames in the order
of the map, and `pmm_alloc_page` gives them back in the reverse order.
-/

namespace MiniOS

open ByteMemory

namespace MmapEntry

instance (entry : MmapEntry) (frame : Nat) :
    Decidable (entry.CoversFrame frame) :=
  inferInstanceAs (Decidable (_ ∧ _))

/-- The frames of the 32-bit address space that lie wholly in an available
region and behind the kernel, ascending. -/
def usableFrames (phyKernEnd : Nat) (entry : MmapEntry) : List Nat :=
  if entry.type = 1 then
    ((List.range 1048576).map (· * pageSize)).filter fun frame =>
      phyKernEnd ≤ frame ∧ entry.CoversFrame frame
  else []

/-- The region has zero high halves and ends below the last page. -/
structure Low (entry : MmapEntry) : Prop where
  base_high : entry.baseAddrHigh = 0
  length_high : entry.lengthHigh = 0
  top : entry.baseAddrLow + entry.lengthLow < 0xFFFFF000

section Frames

variable {phyKernEnd frame : Nat} {entry : MmapEntry}

theorem mem_usableFrames (low : entry.Available → entry.Low) :
    frame ∈ entry.usableFrames phyKernEnd ↔
      entry.Available ∧ frame % pageSize = 0 ∧ phyKernEnd ≤ frame ∧
        entry.CoversFrame frame := by
  unfold usableFrames
  split
  case isTrue available =>
    have top := (low available).top
    have baseHigh := (low available).base_high
    have lengthHigh := (low available).length_high
    simp only [List.mem_filter, List.mem_map, List.mem_range,
      decide_eq_true_eq]
    constructor
    · rintro ⟨⟨index, _, rfl⟩, behind, covers⟩
      exact ⟨available, Nat.mul_mod_left _ _, behind, covers⟩
    · rintro ⟨_, aligned, behind, covers⟩
      refine ⟨⟨frame / pageSize, ?_, ?_⟩, behind, covers⟩
      · have upper := covers.2
        simp only [base, length, baseHigh, lengthHigh, pageSize] at upper ⊢
        omega
      · exact Nat.div_mul_cancel (Nat.dvd_of_mod_eq_zero aligned)
  case isFalse taken =>
    constructor
    · exact fun member => absurd member List.not_mem_nil
    · exact fun usable => absurd usable.1 taken

theorem pairwise_usableFrames (phyKernEnd : Nat) (entry : MmapEntry) :
    (entry.usableFrames phyKernEnd).Pairwise (· < ·) := by
  unfold usableFrames
  split
  · apply List.Pairwise.filter
    rw [List.pairwise_map]
    exact List.pairwise_lt_range.imp fun below =>
      Nat.mul_lt_mul_of_pos_right below (by decide)
  · exact List.Pairwise.nil

theorem pairwise_lowFrames (phyKernEnd : Nat) (entry : MmapEntry) :
    (entry.lowFrames phyKernEnd).Pairwise (· < ·) := by
  unfold lowFrames
  split
  · exact List.pairwise_lt_range' _ (by decide)
  · exact List.Pairwise.nil

/-- A frame in a low region is named: the rounded begin is at most the frame,
the rounded end behind it. -/
theorem mem_lowFrames_of_covers (low : entry.Low)
    (available : entry.Available) (kernel : phyKernEnd < 0xFFFFF000)
    (aligned : frame % pageSize = 0) (behind : phyKernEnd ≤ frame)
    (covers : entry.CoversFrame frame) :
    frame ∈ entry.lowFrames phyKernEnd := by
  have baseHigh := low.base_high
  have lengthHigh := low.length_high
  have top := low.top
  obtain ⟨lower, upper⟩ := covers
  simp only [base, length, baseHigh, lengthHigh, pageSize] at lower upper
  simp only [pageSize] at aligned
  have begins : frameBegin phyKernEnd entry ≤ frame := by
    simp only [frameBegin, roundUp, roundDown, uint32, pmmPageSize]
    split <;> omega
  have ends : frame < frameEnd entry := by
    simp only [frameEnd, roundDown, uint32, pmmPageSize]
    omega
  have considered : ¬frameEnd entry < phyKernEnd := by omega
  exact mem_lowFrames.mpr ⟨⟨available, considered⟩, aligned, begins, ends⟩

/-- Without wrapping, the clamp and the two roundings name exactly the usable
frames. -/
theorem lowFrames_eq_usableFrames (word : entry.Word32)
    (low : entry.Available → entry.Low) (kernel : phyKernEnd < 0xFFFFF000) :
    entry.lowFrames phyKernEnd = entry.usableFrames phyKernEnd := by
  apply List.Pairwise.eq_of_mem_iff (pairwise_lowFrames _ _)
    (pairwise_usableFrames _ _)
  intro frame
  rw [mem_usableFrames low]
  constructor
  · intro member
    have available := lowFrames_available member
    have top := (low available).top
    have rounds : entry.baseAddrLow ≤ 0xFFFFF000 := by omega
    have kernel' : phyKernEnd ≤ 0xFFFFF000 := Nat.le_of_lt kernel
    have bounds := lowFrames_bounds word kernel' rounds member
    exact ⟨available, (mem_lowFrames.mp member).2.1, bounds.1,
      lowFrames_coversFrame word kernel' rounds (low available).base_high
        member⟩
  · rintro ⟨available, aligned, behind, covers⟩
    exact mem_lowFrames_of_covers (low available) available kernel aligned
      behind covers

end Frames

end MmapEntry

/-- The usable frames of a map, in the order of its records. -/
def usableFrames (phyKernEnd : Nat) (records : List MmapEntry) : List Nat :=
  records.flatMap (MmapEntry.usableFrames phyKernEnd)

/-- The available regions are low and pairwise disjoint, and their frames find
room on the page stack. -/
structure UsableMap (phyKernEnd : Nat) (records : List MmapEntry) : Prop where
  disjoint : DisjointRegions records
  low : ∀ entry ∈ records, entry.Available → entry.Low
  kernel : phyKernEnd < 0xFFFFF000
  few : (usableFrames phyKernEnd records).length ≤ pageMaxSize

section Maps

variable {phyKernEnd : Nat} {records : List MmapEntry}

theorem namedFrames_eq_usableFrames (map : UsableMap phyKernEnd records)
    (words : ∀ entry ∈ records, entry.Word32) :
    namedFrames phyKernEnd records = usableFrames phyKernEnd records := by
  apply List.flatMap_congr
  intro entry member
  exact MmapEntry.lowFrames_eq_usableFrames (words entry member)
    (map.low entry member) map.kernel

theorem mem_usableFrames (map : UsableMap phyKernEnd records)
    {frame : Nat} :
    frame ∈ usableFrames phyKernEnd records ↔
      ∃ entry ∈ records, entry.Available ∧ frame % pageSize = 0 ∧
        phyKernEnd ≤ frame ∧ entry.CoversFrame frame := by
  rw [usableFrames, List.mem_flatMap]
  refine exists_congr fun entry => and_congr_right fun member => ?_
  exact MmapEntry.mem_usableFrames (map.low entry member)

theorem nodup_usableFrames (map : UsableMap phyKernEnd records) :
    (usableFrames phyKernEnd records).Nodup := by
  rw [usableFrames, List.nodup_flatMap]
  constructor
  · intro entry _
    exact (MmapEntry.pairwise_usableFrames _ _).imp Nat.ne_of_lt
  · refine map.disjoint.imp_of_mem ?_
    intro left right leftMember rightMember apart frame inLeft inRight
    obtain ⟨leftAvailable, _, _, leftLower, leftUpper⟩ :=
      (MmapEntry.mem_usableFrames (map.low left leftMember)).mp inLeft
    obtain ⟨rightAvailable, _, _, rightLower, rightUpper⟩ :=
      (MmapEntry.mem_usableFrames (map.low right rightMember)).mp inRight
    simp only [pageSize] at leftUpper rightUpper
    exact apart leftAvailable rightAvailable frame
      ⟨leftLower, by omega⟩ ⟨rightLower, by omega⟩

end Maps

/-- `count` calls of `pmm_alloc_page`, one after the other. -/
def allocPages : Nat → KernelM (List Nat)
  | 0 => return []
  | count + 1 => do
      let page ← pmmAllocPage
      let pages ← allocPages count
      return page :: pages

theorem allocPages_stack (pages : List Nat) {rest : List Nat} {k : Kernel}
    (stack : k.pmmStack = pages ++ rest) :
    allocPages pages.length k = .ok pages { k with pmmStack := rest } := by
  induction pages generalizing k with
  | nil =>
      obtain rfl : k.pmmStack = rest := stack
      rfl
  | cons page pages induction =>
      have taken : pmmAllocPage k =
          .ok page { k with pmmStack := pages ++ rest } :=
        pmmAllocPage_cons stack
      have others := @induction { k with pmmStack := pages ++ rest } rfl
      rw [List.length_cons, allocPages, Outcome.bind_of_ok taken,
        Outcome.bind_of_ok others]
      rfl

/-- `init_pmm` collects every usable frame once, in the order of the map, and
`pmm_alloc_page` returns them in the reverse order until the stack is empty. -/
theorem initPmm_collects {k : Kernel} (fresh : FreshStack k)
    {phyKernEnd mmap count : Nat}
    (fits : mmap + mmapEntrySize * count < 4294967296)
    (map : UsableMap phyKernEnd (mmapRecords k.mem mmap count)) :
    ∃ k', initPmm ⟨mmapEntrySize * count, mmap⟩ (phyKernEnd + pageOffset) k =
        .ok () k' ∧
      k'.pmmStack.reverse =
        usableFrames phyKernEnd (mmapRecords k.mem mmap count) ∧
      k'.pmmStack.Nodup ∧
      (∀ frame, frame ∈ k'.pmmStack ↔
        ∃ entry ∈ mmapRecords k.mem mmap count, entry.Available ∧
          frame % pageSize = 0 ∧ phyKernEnd ≤ frame ∧
          entry.CoversFrame frame) ∧
      k'.phyPageCount = k'.pmmStack.length ∧
      (∀ taken ≤ k'.pmmStack.length, allocPages taken k' =
        .ok ((usableFrames phyKernEnd
            (mmapRecords k.mem mmap count)).reverse.take taken)
          { k' with pmmStack := k'.pmmStack.drop taken }) ∧
      pmmAllocPage { k' with pmmStack := k'.pmmStack.drop k'.phyPageCount } =
        .error (.panic "out of memory") { k' with pmmStack := [] } := by
  have words : ∀ entry ∈ mmapRecords k.mem mmap count, entry.Word32 :=
    fun _ => mmapRecords_word count mmap
  have named := namedFrames_eq_usableFrames map words
  have room := (initPmm_spec fresh (phyKernEnd + pageOffset) fits).1
  rw [Nat.add_sub_cancel, named] at room
  refine ⟨_, room map.few, ?_⟩
  have stack := pushed_stack fresh
    (usableFrames phyKernEnd (mmapRecords k.mem mmap count))
  have counted : (k.pushed (usableFrames phyKernEnd
      (mmapRecords k.mem mmap count))).phyPageCount =
        (usableFrames phyKernEnd
          (mmapRecords k.mem mmap count)).length := by
    rw [Kernel.pushed, fresh.count, Nat.zero_add]
  generalize k.pushed (usableFrames phyKernEnd
    (mmapRecords k.mem mmap count)) = k' at stack counted ⊢
  have height : k'.phyPageCount = k'.pmmStack.length := by
    rw [stack, counted, List.length_reverse]
  refine ⟨?_, ?_, ?_, height, ?_, ?_⟩
  · rw [stack, List.reverse_reverse]
  · rw [stack]
    exact List.nodup_reverse.mpr (nodup_usableFrames map)
  · intro frame
    rw [stack, List.mem_reverse, mem_usableFrames map]
  · intro taken bound
    rw [← stack]
    have split : k'.pmmStack =
        k'.pmmStack.take taken ++ k'.pmmStack.drop taken :=
      (List.take_append_drop _ _).symm
    have calls := allocPages_stack (k'.pmmStack.take taken) split
    rwa [List.length_take, Nat.min_eq_left bound] at calls
  · rw [height, List.drop_length]
    exact pmmAllocPage_nil rfl

theorem initPmm_collects_lowEntry :
    ∃ k', initPmm ⟨mmapEntrySize * 1, 0x1000⟩
        (0x182000 + pageOffset) (bootKernel lowEntry) = .ok () k' ∧
      k'.pmmStack.reverse = [0x200000, 0x201000, 0x202000] := by
  have read : readMmapEntry (bootKernel lowEntry).mem 0x1000 = lowEntry := by
    decide
  have single := mmapRecords_bootKernel read
  have low : ∀ entry ∈ [lowEntry], entry.Available → entry.Low := by
    intro entry member _
    obtain rfl := List.mem_singleton.mp member
    exact ⟨rfl, rfl, by decide⟩
  have frames : usableFrames 0x182000 [lowEntry] =
      [0x200000, 0x201000, 0x202000] := by
    have named : lowEntry.lowFrames 0x182000 =
        [0x200000, 0x201000, 0x202000] := by decide
    rw [usableFrames, List.flatMap_singleton, ← named]
    exact (MmapEntry.lowFrames_eq_usableFrames ⟨by decide, by decide⟩
      (low lowEntry List.mem_cons_self) (by decide)).symm
  have map : UsableMap 0x182000
      (mmapRecords (bootKernel lowEntry).mem 0x1000 1) := by
    rw [single]
    refine ⟨List.pairwise_singleton _ _, low, by decide, ?_⟩
    rw [frames]
    decide
  have fresh : FreshStack (bootKernel lowEntry) := ⟨rfl, rfl⟩
  obtain ⟨k', returned, stack, _⟩ := initPmm_collects fresh (by decide) map
  rw [single, frames] at stack
  exact ⟨k', returned, stack⟩

end MiniOS
