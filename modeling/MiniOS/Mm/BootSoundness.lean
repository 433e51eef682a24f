import MiniOS.Mm.BootMemory

/-!
# Which memory maps boot well

`init_pmm` reads the low halves of base and length only, rounds up in 32 bits
and knows no upper limit.  This module says for which maps the frames on the
page stack are available memory, and for which all of them are in reach of the
direct map.
-/

namespace MiniOS

open ByteMemory

namespace MmapEntry

/-- The 64-bit numbers that a record holds. -/
def base (entry : MmapEntry) : Nat :=
  entry.baseAddrHigh * 4294967296 + entry.baseAddrLow

def length (entry : MmapEntry) : Nat :=
  entry.lengthHigh * 4294967296 + entry.lengthLow

def Available (entry : MmapEntry) : Prop := entry.type = 1

def Covers (entry : MmapEntry) (address : Nat) : Prop :=
  entry.base ≤ address ∧ address < entry.base + entry.length

def CoversFrame (entry : MmapEntry) (frame : Nat) : Prop :=
  entry.base ≤ frame ∧ frame + pageSize ≤ entry.base + entry.length

end MmapEntry

def DisjointRegions (records : List MmapEntry) : Prop :=
  records.Pairwise fun left right => left.Available → right.Available →
    ∀ address, left.Covers address → ¬right.Covers address

/-- `init_pmm` is about to read a map of `count` records at `mmap`. -/
structure BootMap (k : Kernel) (kernEnd mmap count : Nat) : Prop where
  fresh : FreshStack k
  fits : mmap + mmapEntrySize * count < 4294967296
  kernEnd_lower : pageOffset < kernEnd
  kernEnd_upper : kernEnd < 4294967296
  disjoint : DisjointRegions (mmapRecords k.mem mmap count)

/-- The frames on the stack are available memory behind the kernel, each on
the stack once. -/
structure SoundStack (phyKernEnd : Nat) (records : List MmapEntry)
    (stack : List Nat) : Prop where
  aligned : ∀ frame ∈ stack, frame % pageSize = 0
  behind_kernel : ∀ frame ∈ stack, phyKernEnd ≤ frame
  available : ∀ frame ∈ stack,
    ∃ entry ∈ records, entry.Available ∧ entry.CoversFrame frame
  once : stack.Nodup

/-- Where the low halves do not mislead: a record that names a frame does not
wrap in `ROUNDUP`, and lies below 4 GiB unless its frames happen to be
available memory that no other record names. -/
structure LowHalvesSuffice (phyKernEnd : Nat) (records : List MmapEntry) :
    Prop where
  rounds : ∀ entry ∈ records, entry.lowFrames phyKernEnd ≠ [] →
    entry.baseAddrLow ≤ 0xFFFFF000
  covered : ∀ entry ∈ records, entry.baseAddrHigh ≠ 0 →
    ∀ frame ∈ entry.lowFrames phyKernEnd,
      ∃ other ∈ records, other.Available ∧ other.CoversFrame frame
  apart : records.Pairwise fun left right =>
    left.baseAddrHigh ≠ 0 ∨ right.baseAddrHigh ≠ 0 →
      ∀ frame ∈ left.lowFrames phyKernEnd,
        frame ∉ right.lowFrames phyKernEnd

section Sound

variable {phyKernEnd : Nat} {records : List MmapEntry}

theorem lowFrames_available {entry : MmapEntry} {frame : Nat}
    (member : frame ∈ entry.lowFrames phyKernEnd) : entry.Available :=
  (MmapEntry.mem_lowFrames.mp member).1.1

theorem lowFrames_coversFrame {entry : MmapEntry} {frame : Nat}
    (word : entry.Word32) (kernel : phyKernEnd ≤ 0xFFFFF000)
    (rounds : entry.baseAddrLow ≤ 0xFFFFF000) (low : entry.baseAddrHigh = 0)
    (member : frame ∈ entry.lowFrames phyKernEnd) :
    entry.CoversFrame frame := by
  have bounds := MmapEntry.lowFrames_bounds word kernel rounds member
  unfold MmapEntry.CoversFrame MmapEntry.base MmapEntry.length
  rw [low]
  omega

/-- The frames named by all records make a sound stack exactly when the low
halves suffice. -/
theorem soundStack_iff (words : ∀ entry ∈ records, entry.Word32)
    (positive : 0 < phyKernEnd) (kernel : phyKernEnd ≤ 0xFFFFF000)
    (disjoint : DisjointRegions records) :
    SoundStack phyKernEnd records (namedFrames phyKernEnd records) ↔
      LowHalvesSuffice phyKernEnd records := by
  have named : ∀ entry ∈ records, ∀ frame ∈ entry.lowFrames phyKernEnd,
      frame ∈ namedFrames phyKernEnd records :=
    fun entry member frame inFrames =>
      List.mem_flatMap.mpr ⟨entry, member, inFrames⟩
  constructor
  · intro sound
    constructor
    · intro entry member nonempty
      by_contra high
      obtain ⟨frame, inFrames⟩ := List.exists_mem_of_ne_nil _ nonempty
      have zero := MmapEntry.zero_mem_lowFrames (words entry member) kernel
        (by omega) inFrames
      have behind := sound.behind_kernel 0 (named entry member 0 zero)
      omega
    · intro entry member _ frame inFrames
      exact sound.available frame (named entry member frame inFrames)
    · have apart := (List.nodup_flatMap.mp sound.once).2
      refine apart.imp ?_
      intro left right disjointFrames _ frame inLeft inRight
      exact disjointFrames inLeft inRight
  · intro suffice
    have rounds : ∀ entry ∈ records, ∀ frame ∈ entry.lowFrames phyKernEnd,
        entry.baseAddrLow ≤ 0xFFFFF000 :=
      fun entry member frame inFrames =>
        suffice.rounds entry member (List.ne_nil_of_mem inFrames)
    constructor
    · intro frame member
      obtain ⟨entry, _, inFrames⟩ := List.mem_flatMap.mp member
      exact (MmapEntry.mem_lowFrames.mp inFrames).2.1
    · intro frame member
      obtain ⟨entry, inRecords, inFrames⟩ := List.mem_flatMap.mp member
      exact (MmapEntry.lowFrames_bounds (words entry inRecords) kernel
        (rounds entry inRecords frame inFrames) inFrames).1
    · intro frame member
      obtain ⟨entry, inRecords, inFrames⟩ := List.mem_flatMap.mp member
      by_cases low : entry.baseAddrHigh = 0
      · exact ⟨entry, inRecords, lowFrames_available inFrames,
          lowFrames_coversFrame (words entry inRecords) kernel
            (rounds entry inRecords frame inFrames) low inFrames⟩
      · exact suffice.covered entry inRecords low frame inFrames
    · rw [namedFrames, List.nodup_flatMap]
      refine ⟨fun entry _ => MmapEntry.nodup_lowFrames phyKernEnd entry, ?_⟩
      refine (suffice.apart.and disjoint).imp_of_mem ?_
      rintro left right leftMember rightMember ⟨apart, regions⟩ frame
        inLeft inRight
      by_cases high : left.baseAddrHigh ≠ 0 ∨ right.baseAddrHigh ≠ 0
      · exact apart high frame inLeft inRight
      · -- Both regions contain the frame.
        have leftCovers := lowFrames_coversFrame (words left leftMember)
          kernel (rounds left leftMember frame inLeft) (by omega) inLeft
        have rightCovers := lowFrames_coversFrame (words right rightMember)
          kernel (rounds right rightMember frame inRight) (by omega) inRight
        unfold MmapEntry.CoversFrame at leftCovers rightCovers
        simp only [pageSize] at leftCovers rightCovers
        exact regions (lowFrames_available inLeft)
          (lowFrames_available inRight) frame
          ⟨leftCovers.1, by omega⟩ ⟨rightCovers.1, by omega⟩

theorem SoundStack.perm {stack others : List Nat}
    (sound : SoundStack phyKernEnd records stack)
    (same : stack.Perm others) : SoundStack phyKernEnd records others where
  aligned frame member := sound.aligned frame (same.mem_iff.mpr member)
  behind_kernel frame member :=
    sound.behind_kernel frame (same.mem_iff.mpr member)
  available frame member := sound.available frame (same.mem_iff.mpr member)
  once := same.nodup_iff.mp sound.once

end Sound

def storeMmapEntry (mem : Mem) (mmap : Nat) (entry : MmapEntry) : Mem :=
  let mem := store32 mem mmap entry.size
  let mem := store32 mem (mmap + 4) entry.baseAddrLow
  let mem := store32 mem (mmap + 8) entry.baseAddrHigh
  let mem := store32 mem (mmap + 12) entry.lengthLow
  let mem := store32 mem (mmap + 16) entry.lengthHigh
  store32 mem (mmap + 20) entry.type

/-- The kernel before `init_pmm`, with a map of one record at 0x1000. -/
def bootKernel (entry : MmapEntry) : Kernel where
  mem := storeMmapEntry (fun _ => 0) 0x1000 entry
  pmmStack := []
  phyPageCount := 0
  heapFirst := 0
  heapMax := heapStart

theorem mmapRecords_bootKernel {entry : MmapEntry}
    (read : readMmapEntry (bootKernel entry).mem 0x1000 = entry) :
    mmapRecords (bootKernel entry).mem 0x1000 1 = [entry] := by
  rw [mmapRecords, read]
  rfl

theorem bootMap_bootKernel {entry : MmapEntry}
    (read : readMmapEntry (bootKernel entry).mem 0x1000 = entry) :
    BootMap (bootKernel entry) 0xC0182000 0x1000 1 where
  fresh := ⟨rfl, rfl⟩
  fits := by decide
  kernEnd_lower := by decide
  kernEnd_upper := by decide
  disjoint := by
    rw [mmapRecords_bootKernel read]
    exact List.pairwise_singleton _ _

section Maps

variable {k : Kernel} {kernEnd mmap count : Nat}

theorem BootMap.kernel (map : BootMap k kernEnd mmap count) :
    0 < kernEnd - pageOffset ∧ kernEnd - pageOffset ≤ 0xFFFFF000 := by
  have lower := map.kernEnd_lower
  have upper := map.kernEnd_upper
  simp only [pageOffset] at *
  omega

theorem pushed_stack (fresh : FreshStack k) (frames : List Nat) :
    (k.pushed frames).pmmStack = frames.reverse := by
  simp [Kernel.pushed, fresh.stack]

/-- `init_pmm` does not return, or it leaves a sound stack, exactly when the
records name too many frames or the low halves suffice. -/
theorem initPmm_sound_iff (map : BootMap k kernEnd mmap count) :
    (∀ k', initPmm ⟨mmapEntrySize * count, mmap⟩ kernEnd k = .ok () k' →
      SoundStack (kernEnd - pageOffset) (mmapRecords k.mem mmap count)
        k'.pmmStack) ↔
      pageMaxSize < (namedFrames (kernEnd - pageOffset)
          (mmapRecords k.mem mmap count)).length ∨
        LowHalvesSuffice (kernEnd - pageOffset)
          (mmapRecords k.mem mmap count) := by
  obtain ⟨positive, kernel⟩ := map.kernel
  obtain ⟨room, full⟩ := initPmm_spec map.fresh kernEnd map.fits
  have sound := soundStack_iff (fun _ => mmapRecords_word count mmap)
    positive kernel map.disjoint
  by_cases few : (namedFrames (kernEnd - pageOffset)
      (mmapRecords k.mem mmap count)).length ≤ pageMaxSize
  · have returned := room few
    rw [← sound]
    constructor
    · intro holds
      have stack := holds _ returned
      rw [pushed_stack map.fresh] at stack
      exact .inr (stack.perm (List.reverse_perm _))
    · rintro (many | stack) k' returned'
      · omega
      · rw [returned] at returned'
        injection returned' with _ same
        rw [← same, pushed_stack map.fresh]
        exact stack.perm (List.reverse_perm _).symm
  · refine ⟨fun _ => .inl (by omega), fun _ k' returned => ?_⟩
    have stopped := full (by omega)
    rw [returned] at stopped
    cases stopped

/-- Three pages of memory behind the kernel. -/
def lowEntry : MmapEntry := ⟨20, 0x200000, 0, 0x3000, 0, 1⟩

theorem initPmm_sound_lowEntry :
    BootMap (bootKernel lowEntry) 0xC0182000 0x1000 1 ∧
      ∀ k', initPmm ⟨mmapEntrySize * 1, 0x1000⟩ 0xC0182000
          (bootKernel lowEntry) = .ok () k' →
        SoundStack (0xC0182000 - pageOffset)
          (mmapRecords (bootKernel lowEntry).mem 0x1000 1) k'.pmmStack := by
  have read : readMmapEntry (bootKernel lowEntry).mem 0x1000 = lowEntry := by
    decide
  have map := bootMap_bootKernel read
  refine ⟨map, (initPmm_sound_iff map).mpr (.inr ?_)⟩
  rw [mmapRecords_bootKernel read]
  refine ⟨?_, ?_, List.pairwise_singleton _ _⟩
  · intro entry member _
    obtain rfl := List.mem_singleton.mp member
    decide
  · intro entry member high
    obtain rfl := List.mem_singleton.mp member
    exact absurd rfl high

/-- One page of memory above 4 GiB. -/
def highEntry : MmapEntry := ⟨20, 0x200000, 1, 0x1000, 0, 1⟩

theorem initPmm_highEntry :
    BootMap (bootKernel highEntry) 0xC0182000 0x1000 1 ∧
      ¬∀ k', initPmm ⟨mmapEntrySize * 1, 0x1000⟩ 0xC0182000
          (bootKernel highEntry) = .ok () k' →
        SoundStack (0xC0182000 - pageOffset)
          (mmapRecords (bootKernel highEntry).mem 0x1000 1) k'.pmmStack := by
  have read : readMmapEntry (bootKernel highEntry).mem 0x1000 = highEntry := by
    decide
  have map := bootMap_bootKernel read
  refine ⟨map, fun holds => ?_⟩
  obtain ⟨room, _⟩ := initPmm_spec map.fresh 0xC0182000 map.fits
  rw [mmapRecords_bootKernel read] at room holds
  have sound := holds _ (room (by decide))
  obtain ⟨entry, member, _, covers⟩ :=
    sound.available 0x200000 (by decide)
  obtain rfl := List.mem_singleton.mp member
  exact absurd covers.1 (by decide)

/-- The direct map reaches the frame, and its address does not wrap. -/
structure DirectMapped (frame : Nat) : Prop where
  limit : frame < pmmMaxSize
  lower : pageOffset ≤ uint32 (frame + pageOffset)
  upper : uint32 (frame + pageOffset) < pageOffset + pmmMaxSize

theorem DirectMapped.of_lt {frame : Nat} (limit : frame < pmmMaxSize) :
    DirectMapped frame := by
  have small : uint32 (frame + pageOffset) = frame + pageOffset :=
    uint32_of_lt (by simp only [pmmMaxSize, pageOffset] at *; omega)
  refine ⟨limit, ?_, ?_⟩ <;> rw [small] <;> omega

/-- The available regions lie below 4 GiB. -/
def Below4G (records : List MmapEntry) : Prop :=
  ∀ entry ∈ records, entry.Available → entry.base + entry.length ≤ 4294967296

/-- A record names no frame, or its rounded end is at most the limit. -/
def WithinLimit (phyKernEnd : Nat) (records : List MmapEntry) : Prop :=
  ∀ entry ∈ records, entry.Available →
    frameEnd entry < phyKernEnd ∨
      frameEnd entry ≤ frameBegin phyKernEnd entry ∨
      frameEnd entry ≤ pmmMaxSize

section Limit

variable {phyKernEnd : Nat} {records : List MmapEntry}

theorem WithinLimit.frameEnd_le (within : WithinLimit phyKernEnd records)
    {entry : MmapEntry} (inRecords : entry ∈ records) {frame : Nat}
    (member : frame ∈ entry.lowFrames phyKernEnd) :
    frameEnd entry ≤ pmmMaxSize := by
  obtain ⟨⟨available, above⟩, _, lower, upper⟩ :=
    MmapEntry.mem_lowFrames.mp member
  rcases within entry inRecords available with below | empty | limit
  · exact absurd below above
  · omega
  · exact limit

theorem WithinLimit.suffice (within : WithinLimit phyKernEnd records)
    (words : ∀ entry ∈ records, entry.Word32) (below : Below4G records) :
    LowHalvesSuffice phyKernEnd records := by
  have low : ∀ entry ∈ records, ∀ frame ∈ entry.lowFrames phyKernEnd,
      entry.baseAddrHigh = 0 ∧ entry.baseAddrLow ≤ 0xFFFFF000 := by
    intro entry inRecords frame member
    have limit := within.frameEnd_le inRecords member
    obtain ⟨⟨available, _⟩, _, _, upper⟩ := MmapEntry.mem_lowFrames.mp member
    have top := below entry inRecords available
    have baseLow := (words entry inRecords).baseLow
    unfold MmapEntry.base MmapEntry.length at top
    simp only [frameEnd, roundDown, uint32, pmmPageSize, pmmMaxSize] at *
    omega
  constructor
  · intro entry inRecords nonempty
    obtain ⟨frame, member⟩ := List.exists_mem_of_ne_nil _ nonempty
    exact (low entry inRecords frame member).2
  · intro entry inRecords high frame member
    exact absurd (low entry inRecords frame member).1 high
  · apply List.pairwise_of_forall_mem_list
    intro left leftMember right rightMember high frame inLeft inRight
    have leftLow := (low left leftMember frame inLeft).1
    have rightLow := (low right rightMember frame inRight).1
    omega

/-- Different frames below the limit are not too many. -/
theorem frames_few {frames : List Nat} (distinct : frames.Nodup)
    (aligned : ∀ frame ∈ frames, frame % pageSize = 0)
    (limit : ∀ frame ∈ frames, frame < pmmMaxSize) :
    frames.length ≤ pageMaxSize := by
  have nodup : (frames.map (· / pageSize)).Nodup := by
    apply List.Nodup.map_on _ distinct
    intro left leftMember right rightMember same
    have leftAligned := aligned left leftMember
    have rightAligned := aligned right rightMember
    simp only [pageSize] at *
    omega
  have subset : frames.map (· / pageSize) ⊆ List.range pageMaxSize := by
    intro index member
    obtain ⟨frame, inFrames, rfl⟩ := List.mem_map.mp member
    have small := limit frame inFrames
    rw [List.mem_range]
    simp only [pageSize, pageMaxSize, pmmMaxSize, pmmPageSize] at *
    omega
  have bound := (List.subperm_of_subset nodup subset).length_le
  rwa [List.length_map, List.length_range] at bound

theorem lastFrame_mem {entry : MmapEntry} (available : entry.Available)
    (above : ¬frameEnd entry < phyKernEnd)
    (nonempty : frameBegin phyKernEnd entry < frameEnd entry) :
    frameEnd entry - pageSize ∈ entry.lowFrames phyKernEnd := by
  have endAligned : frameEnd entry % pageSize = 0 := roundDown_mod _ _
  have beginAligned : frameBegin phyKernEnd entry % pageSize = 0 :=
    roundDown_mod _ _
  rw [MmapEntry.mem_lowFrames]
  simp only [pageSize] at *
  exact ⟨⟨available, above⟩, by omega, by omega, by omega⟩

end Limit

/-- For available memory below 4 GiB `init_pmm` returns with frames in reach
of the direct map exactly when no record names a frame above the limit. -/
theorem initPmm_limit_iff (map : BootMap k kernEnd mmap count)
    (below : Below4G (mmapRecords k.mem mmap count)) :
    (∃ k', initPmm ⟨mmapEntrySize * count, mmap⟩ kernEnd k = .ok () k' ∧
      ∀ frame ∈ k'.pmmStack, DirectMapped frame) ↔
      WithinLimit (kernEnd - pageOffset) (mmapRecords k.mem mmap count) := by
  obtain ⟨positive, kernel⟩ := map.kernel
  obtain ⟨room, full⟩ := initPmm_spec map.fresh kernEnd map.fits
  have words : ∀ entry ∈ mmapRecords k.mem mmap count, entry.Word32 :=
    fun _ => mmapRecords_word count mmap
  constructor
  · rintro ⟨k', returned, reached⟩ entry inRecords available
    by_contra violated
    simp only [not_or, Nat.not_lt, Nat.not_le] at violated
    obtain ⟨above, nonempty, high⟩ := violated
    have last := lastFrame_mem available (by omega) nonempty
    have named : frameEnd entry - pageSize ∈
        namedFrames (kernEnd - pageOffset) (mmapRecords k.mem mmap count) :=
      List.mem_flatMap.mpr ⟨entry, inRecords, last⟩
    have few : (namedFrames (kernEnd - pageOffset)
        (mmapRecords k.mem mmap count)).length ≤ pageMaxSize := by
      by_contra many
      have stopped := full (by omega)
      rw [returned] at stopped
      cases stopped
    have returned' := room few
    rw [returned] at returned'
    injection returned' with _ same
    have onStack : frameEnd entry - pageSize ∈ k'.pmmStack := by
      rw [same, pushed_stack map.fresh]
      exact List.mem_reverse.mpr named
    have limit := (reached _ onStack).limit
    have endAligned : frameEnd entry % pageSize = 0 := roundDown_mod _ _
    simp only [pageSize, pmmMaxSize] at *
    omega
  · intro within
    have sound := (soundStack_iff words positive kernel map.disjoint).mpr
      (within.suffice words below)
    have limit : ∀ frame ∈ namedFrames (kernEnd - pageOffset)
        (mmapRecords k.mem mmap count), frame < pmmMaxSize := by
      intro frame member
      obtain ⟨entry, inRecords, inFrames⟩ := List.mem_flatMap.mp member
      exact Nat.lt_of_lt_of_le (MmapEntry.mem_lowFrames.mp inFrames).2.2.2
        (within.frameEnd_le inRecords inFrames)
    refine ⟨_, room (frames_few sound.once sound.aligned limit), ?_⟩
    intro frame member
    rw [pushed_stack map.fresh] at member
    exact .of_lt (limit frame (List.mem_reverse.mp member))

theorem initPmm_limit_lowEntry :
    ∃ k', initPmm ⟨mmapEntrySize * 1, 0x1000⟩ 0xC0182000
        (bootKernel lowEntry) = .ok () k' ∧
      ∀ frame ∈ k'.pmmStack, DirectMapped frame := by
  have read : readMmapEntry (bootKernel lowEntry).mem 0x1000 = lowEntry := by
    decide
  have map := bootMap_bootKernel read
  have single := mmapRecords_bootKernel read
  refine (initPmm_limit_iff map ?_).mpr ?_
  · rw [single]
    intro entry member _
    obtain rfl := List.mem_singleton.mp member
    decide
  · rw [single]
    intro entry member _
    obtain rfl := List.mem_singleton.mp member
    exact .inr (.inr (by decide))

/-- One page of memory at 512 MB. -/
def limitEntry : MmapEntry := ⟨20, 0x20000000, 0, 0x1000, 0, 1⟩

theorem initPmm_limitEntry :
    BootMap (bootKernel limitEntry) 0xC0182000 0x1000 1 ∧
      Below4G (mmapRecords (bootKernel limitEntry).mem 0x1000 1) ∧
      ¬∃ k', initPmm ⟨mmapEntrySize * 1, 0x1000⟩ 0xC0182000
          (bootKernel limitEntry) = .ok () k' ∧
        ∀ frame ∈ k'.pmmStack, DirectMapped frame := by
  have read : readMmapEntry (bootKernel limitEntry).mem 0x1000 =
      limitEntry := by decide
  have map := bootMap_bootKernel read
  obtain ⟨room, _⟩ := initPmm_spec map.fresh 0xC0182000 map.fits
  rw [mmapRecords_bootKernel read] at room ⊢
  refine ⟨map, ?_, ?_⟩
  · intro entry member _
    obtain rfl := List.mem_singleton.mp member
    decide
  · rintro ⟨k', returned, reached⟩
    rw [room (by decide)] at returned
    injection returned with _ same
    have reached' := (reached 0x20000000 (by rw [← same]; decide)).limit
    exact absurd reached' (by decide)

end Maps

end MiniOS
