import MiniOS.Mm.Kfree
import MiniOS.Mm.Kmalloc

/-!
# Runs of heap clients

Clients call `kmalloc` and `kfree` and store into the bytes they asked for.
`LiveBlocks` matches the blocks they hold with the chunks in use; together
with `HeapState` it holds in every state that a run reaches.
-/

namespace MiniOS

open ByteMemory Tiling

section Observers

variable (pgdKern : Nat)

/-- The chunks that `next` links from `header` on. -/
def chunksFrom : Nat → Nat → KernelM (List Segment)
  | 0, _ => throw .spin
  | rounds + 1, header => do
      if header = 0 then return []
      else
        let length ← getLength pgdKern header
        let allocated ← getAllocated pgdKern header
        let next ← getNext pgdKern header
        let rest ← chunksFrom rounds next
        return ⟨header, length, allocated == 1⟩ :: rest

def chunkList : KernelM (List Segment) := do
  let k ← get
  chunksFrom pgdKern 4294967296 k.heapFirst

def heapEnd (k : Kernel) : Nat :=
  match chunkList pgdKern k with
  | .ok chunks _ => endOf heapStart chunks
  | .error _ _ => heapStart

end Observers

/-- What a client holds after `kmalloc(size)` returned `ptr`. -/
structure Block where
  ptr : Nat
  size : Nat
  deriving DecidableEq

def Block.Covers (block : Block) (va : Nat) : Prop :=
  block.ptr ≤ va ∧ va < block.ptr + block.size

/-- The size arithmetic of `kmalloc(n)` does not wrap. -/
def NoWrap (pgdKern : Nat) (k : Kernel) (n : Nat) : Prop :=
  n + headerSize < 2147483648 ∧
    heapEnd pgdKern k + n + headerSize ≤ 4294967296 - pageSize

/-- The states after sequences of calls, with the blocks still held. -/
inductive HeapRun (img : KernelImage) (frames : List Nat) :
    Kernel → List Block → Prop
  | start {k : Kernel} (started : AfterBoot img frames k) :
      HeapRun img frames k []
  | kmalloc {k k' : Kernel} {live : List Block} {n p : Nat}
      (run : HeapRun img frames k live) (noWrap : NoWrap img.pgdKern k n)
      (returned : kmalloc img.pgdKern n k = .ok p k') :
      HeapRun img frames k' (⟨p, n⟩ :: live)
  | kfree {k k' : Kernel} {live : List Block} {block : Block}
      (run : HeapRun img frames k live) (member : block ∈ live)
      (returned : kfree img.pgdKern block.ptr k = .ok () k') :
      HeapRun img frames k' (live.erase block)
  | store {k k' : Kernel} {live : List Block} {block : Block} {va : Nat}
      {byte : UInt8} (run : HeapRun img frames k live)
      (member : block ∈ live) (covers : block.Covers va)
      (returned : write8 img.pgdKern va byte k = .ok () k') :
      HeapRun img frames k' live

/-- A free chunk of the list is long enough for `kmalloc(n)`, or the end of
the heap, `n` and a header together stay below 4 GB. -/
def SafeRequest (pgdKern : Nat) (k : Kernel) (n : Nat) : Prop :=
  (∃ chunks, chunkList pgdKern k = .ok chunks k ∧
    ∃ chunk ∈ chunks, Fits (n + headerSize) chunk) ∨
    heapEnd pgdKern k + n + headerSize < 4294967296

/-- Runs in which every `kmalloc` is a safe request. -/
inductive SafeRun (img : KernelImage) (frames : List Nat) :
    Kernel → List Block → Prop
  | start {k : Kernel} (started : AfterBoot img frames k) :
      SafeRun img frames k []
  | kmalloc {k k' : Kernel} {live : List Block} {n p : Nat}
      (run : SafeRun img frames k live)
      (request : SafeRequest img.pgdKern k n)
      (returned : kmalloc img.pgdKern n k = .ok p k') :
      SafeRun img frames k' (⟨p, n⟩ :: live)
  | kfree {k k' : Kernel} {live : List Block} {block : Block}
      (run : SafeRun img frames k live) (member : block ∈ live)
      (returned : kfree img.pgdKern block.ptr k = .ok () k') :
      SafeRun img frames k' (live.erase block)
  | store {k k' : Kernel} {live : List Block} {block : Block} {va : Nat}
      {byte : UInt8} (run : SafeRun img frames k live)
      (member : block ∈ live) (covers : block.Covers va)
      (returned : write8 img.pgdKern va byte k = .ok () k') :
      SafeRun img frames k' live

theorem NoWrap.safe {pgdKern : Nat} {k : Kernel} {n : Nat}
    (noWrap : NoWrap pgdKern k n) : SafeRequest pgdKern k n :=
  .inr (Nat.lt_of_le_of_lt noWrap.2 (by decide))

theorem HeapRun.safe {img : KernelImage} {frames : List Nat} {k : Kernel}
    {live : List Block} (run : HeapRun img frames k live) :
    SafeRun img frames k live := by
  induction run with
  | start started => exact .start started
  | kmalloc run noWrap returned induction =>
      exact induction.kmalloc noWrap.safe returned
  | kfree run member returned induction =>
      exact induction.kfree member returned
  | store run member covers returned induction =>
      exact induction.store member covers returned

/-- A block lies in the payload of a chunk and starts with it. -/
def Block.In (block : Block) (chunk : Segment) : Prop :=
  block.ptr = chunk.start + headerSize ∧ block.size + headerSize ≤ chunk.len

/-- The blocks held are in the chunks in use, one in each. -/
def LiveBlocks (chunks : List Segment) (live : List Block) : Prop :=
  ∃ holds : List (Segment × Block),
    (holds.map Prod.fst).Perm (usedOf chunks) ∧
    (holds.map Prod.snd).Perm live ∧ ∀ hold ∈ holds, hold.2.In hold.1

namespace LiveBlocks

variable {chunks chunks' : List Segment} {live others : List Block}
variable {block : Block}

theorem perm (held : LiveBlocks chunks live) (same : live.Perm others) :
    LiveBlocks chunks others := by
  obtain ⟨holds, used, blocks, inside⟩ := held
  exact ⟨holds, used, blocks.trans same, inside⟩

theorem chunk_of (held : LiveBlocks chunks live) (member : block ∈ live) :
    ∃ chunk ∈ chunks, chunk.used = true ∧ block.In chunk := by
  obtain ⟨holds, used, blocks, inside⟩ := held
  obtain ⟨⟨chunk, _⟩, inHolds, rfl⟩ :=
    List.mem_map.mp (blocks.mem_iff.mpr member)
  have inUsed : chunk ∈ usedOf chunks :=
    used.mem_iff.mp (List.mem_map.mpr ⟨_, inHolds, rfl⟩)
  obtain ⟨inChunks, mark⟩ := List.mem_filter.mp inUsed
  exact ⟨chunk, inChunks, mark, inside _ inHolds⟩

theorem push {chunk : Segment} (held : LiveBlocks chunks live)
    (inside : block.In chunk)
    (used : (usedOf chunks').Perm (chunk :: usedOf chunks)) :
    LiveBlocks chunks' (block :: live) := by
  obtain ⟨holds, oldUsed, blocks, oldInside⟩ := held
  refine ⟨(chunk, block) :: holds, ?_, ?_, ?_⟩
  · exact (oldUsed.cons chunk).trans used.symm
  · exact blocks.cons block
  · intro hold member
    rcases List.mem_cons.mp member with rfl | old
    · exact inside
    · exact oldInside hold old

/-- The chunk of a block, and what is left without it. -/
theorem pop (held : LiveBlocks chunks (block :: live)) :
    ∃ front chunk back, chunks = front ++ chunk :: back ∧
      block.In chunk ∧
      ∀ chunks', usedOf chunks' = usedOf front ++ usedOf back →
        LiveBlocks chunks' live := by
  obtain ⟨holds, used, blocks, inside⟩ := held
  obtain ⟨⟨chunk, other⟩, inHolds, blockEq⟩ :=
    List.mem_map.mp (blocks.mem_iff.mpr (List.mem_cons_self ..))
  simp only at blockEq
  subst blockEq
  have chunkUsed : chunk ∈ usedOf chunks :=
    used.mem_iff.mp (List.mem_map.mpr ⟨_, inHolds, rfl⟩)
  obtain ⟨inChunks, mark⟩ := List.mem_filter.mp chunkUsed
  obtain ⟨front, back, rfl⟩ := List.append_of_mem inChunks
  obtain ⟨before, behind, rfl⟩ := List.append_of_mem inHolds
  have splitUsed : usedOf (front ++ chunk :: back) =
      usedOf front ++ chunk :: usedOf back := by
    simp [usedOf, mark]
  refine ⟨front, chunk, back, rfl, inside _ inHolds, ?_⟩
  intro chunks' usedEq
  refine ⟨before ++ behind, ?_, ?_, ?_⟩
  · rw [splitUsed, List.map_append, List.map_cons] at used
    rw [usedEq, List.map_append]
    exact List.perm_cons chunk |>.mp
      (List.perm_middle.symm.trans (used.trans List.perm_middle))
  · rw [List.map_append, List.map_cons] at blocks
    rw [List.map_append]
    exact List.perm_cons other |>.mp (List.perm_middle.symm.trans blocks)
  · intro hold member
    apply inside
    rcases List.mem_append.mp member with left | right
    · simp [left]
    · simp [right]

end LiveBlocks

theorem Block.In.payload {block : Block} {chunk : Segment} {va : Nat}
    (inside : block.In chunk) (covers : block.Covers va) :
    InPayload chunk va := by
  obtain ⟨ptr, size⟩ := inside
  obtain ⟨lower, upper⟩ := covers
  unfold InPayload Segment.stop
  omega

namespace ReadableList

variable {img : KernelImage} {frames : List Nat} {k : Kernel}
variable {chunks : List Segment}

theorem chunksFrom_eq (readable : ReadableList img frames k chunks) (rounds : Nat) :
    ∀ front back, chunks = front ++ back → back.length < rounds →
      chunksFrom img.pgdKern rounds ((back.map Segment.start).headD 0) k =
        .ok back k := by
  have placed := readable.placed
  have holds := readable.paging.holdsHeaders (chunks.map Segment.start)
  induction rounds with
  | zero => intro front back _ enough; omega
  | succ rounds induction =>
      intro front back split enough
      cases back with
      | nil => rfl
      | cons chunk back =>
          have member : chunk ∈ chunks := by simp [split]
          have node : chunk.start ∈ chunks.map Segment.start :=
            List.mem_map.mpr ⟨chunk, member, rfl⟩
          have nonzero := placed.proper.nonzero chunk member
          have length := holds.getLength placed.nodes node
          have allocated := holds.getAllocated placed.nodes node
          rw [readable.list.length_eq chunk member] at length
          rw [readable.list.allocated_eq chunk member] at allocated
          have rest := induction (front ++ [chunk]) back (by simp [split])
            (by simpa using enough)
          have nextEq := (split ▸ readable.list).next_eq
          simp only [List.map_cons, List.headD_cons]
          rw [chunksFrom, if_neg nonzero, Outcome.bind_of_ok length,
            Outcome.bind_of_ok allocated, Outcome.bind_of_ok
              (holds.getNext placed.nodes node),
            nextEq, Outcome.bind_of_ok rest]
          have mark : (chunk.used.toNat == 1) = chunk.used := by
            cases chunk.used <;> rfl
          rw [mark]
          rfl

/-- The list in memory reads as the list of the invariant. -/
theorem chunkList_eq (readable : ReadableList img frames k chunks) :
    chunkList img.pgdKern k = .ok chunks k := by
  unfold chunkList
  rw [KernelM.get_bind, readable.list.first_eq]
  exact readable.chunksFrom_eq 4294967296 [] chunks rfl
    readable.placed.length_lt

end ReadableList

namespace HeapState

variable {img : KernelImage} {frames : List Nat} {k k' : Kernel}
variable {chunks : List Segment} {live : List Block} {block : Block}

theorem chunkList_eq (state : HeapState img frames k chunks) :
    chunkList img.pgdKern k = .ok chunks k :=
  state.readable.chunkList_eq

theorem heapEnd_eq (state : HeapState img frames k chunks) :
    heapEnd img.pgdKern k = endOf heapStart chunks := by
  simp only [heapEnd, state.chunkList_eq]

theorem safeRequest_iff (state : HeapState img frames k chunks) {n : Nat} :
    SafeRequest img.pgdKern k n ↔ Servable chunks n := by
  unfold SafeRequest Servable
  rw [state.heapEnd_eq, state.chunkList_eq]
  constructor
  · rintro (⟨listed, same, found⟩ | room)
    · cases same
      exact .inl found
    · exact .inr room
  · rintro (found | room)
    · exact .inl ⟨chunks, rfl, found⟩
    · exact .inr room

/-- A store to a payload changes no header. -/
theorem store_spec (state : HeapState img frames k chunks)
    {chunk : Segment} (member : chunk ∈ chunks) {va : Nat}
    (inside : InPayload chunk va) {byte : UInt8}
    (returned : write8 img.pgdKern va byte k = .ok () k') :
    HeapState img frames k' chunks := by
  have placed := state.placed
  have bounds := placed.bounds chunk member
  have outside := placed.payload_outside member inside
  obtain ⟨lower, upper⟩ := inside
  obtain ⟨k₁, returned₁, wrote⟩ := state.paging.write8_ok va byte
    (by omega) (by omega)
  obtain rfl : k₁ = k' := by
    rw [returned] at returned₁
    injection returned₁ with _ same
    exact same.symm
  refine ⟨wrote.paging, ?_, state.canonical, ?_, ?_⟩
  · rw [wrote.first, wrote.view_eq]
    apply state.list.congr
    intro field other otherMember
    have away := outside other.start
      (List.mem_map.mpr ⟨other, otherMember, rfl⟩)
    apply load32_congr
    intro x xLower xUpper
    apply store8_other
    simp only [headerSize] at away
    cases field <;> simp only [HeaderField.offset] at xLower xUpper <;> omega
  · rw [wrote.same.heapMax]
    exact state.fits
  · rw [wrote.same.heapMax]
    exact state.tight

theorem kfree_block (state : HeapState img frames k chunks)
    (held : LiveBlocks chunks (block :: live)) :
    ∃ k' chunks', kfree img.pgdKern block.ptr k = .ok () k' ∧
      Freed img frames (chunks.map Segment.start) (endOf heapStart chunks)
        k k' chunks' ∧
      usedOf chunks' = (usedOf chunks).filter
        (fun chunk => chunk.start + headerSize ≠ block.ptr) ∧
      LiveBlocks chunks' live := by
  obtain ⟨front, chunk, back, rfl, inside, rest⟩ := held.pop
  obtain ⟨k', chunks', returned, freed, used⟩ := state.kfree_spec
  refine ⟨k', chunks', inside.1 ▸ returned, freed, ?_, rest chunks' used⟩
  have distinct := state.placed.proper.distinct
  simp only [List.map_append, List.map_cons, List.nodup_append,
    List.nodup_cons, List.mem_cons, List.mem_map] at distinct
  have frontKept : (usedOf front).filter
      (fun other => other.start + headerSize ≠ block.ptr) = usedOf front := by
    apply List.filter_eq_self.mpr
    intro other member
    have inFront := (List.mem_filter.mp member).1
    have different := distinct.2.2 _ ⟨other, inFront, rfl⟩ _ (.inl rfl)
    have ptr := inside.1
    simp only [decide_eq_true_eq]
    omega
  have backKept : (usedOf back).filter
      (fun other => other.start + headerSize ≠ block.ptr) = usedOf back := by
    apply List.filter_eq_self.mpr
    intro other member
    have inBack := (List.mem_filter.mp member).1
    have ptr := inside.1
    have different : other.start ≠ chunk.start :=
      fun same => distinct.2.1.1 ⟨other, inBack, same⟩
    simp only [decide_eq_true_eq]
    omega
  have chunkGone : (usedOf [chunk]).filter
      (fun other => other.start + headerSize ≠ block.ptr) = [] := by
    apply List.filter_eq_nil_iff.mpr
    intro other member
    obtain rfl := List.mem_singleton.mp (List.mem_filter.mp member).1
    simp [inside.1]
  have split : usedOf (front ++ chunk :: back) =
      usedOf front ++ (usedOf [chunk] ++ usedOf back) := by
    unfold usedOf
    rw [← List.filter_append, ← List.filter_append]
    rfl
  rw [used, split, List.filter_append, List.filter_append, frontKept,
    chunkGone, backKept, List.nil_append]

end HeapState

theorem SafeRun.invariant {img : KernelImage} {frames : List Nat}
    (usable : ∀ frame ∈ frames, UsableFrame img frame)
    (distinct : frames.Nodup) {k : Kernel} {live : List Block}
    (run : SafeRun img frames k live) :
    ∃ chunks, HeapState img frames k chunks ∧ LiveBlocks chunks live := by
  induction run with
  | start started =>
      exact ⟨[], .boot usable distinct started, [], .nil, .nil, by simp⟩
  | kmalloc run request returned induction =>
      obtain ⟨chunks, state, held⟩ := induction
      rcases state.kmalloc_spec (state.safeRequest_iff.mp request) with
        ⟨k', stopped, _⟩ | ⟨k', chunk, chunks', returned', allocated⟩
      · rw [returned] at stopped
        cases stopped
      · rw [returned] at returned'
        injection returned' with ptr same
        subst same
        exact ⟨chunks', allocated.state,
          held.push ⟨ptr, allocated.enough⟩ allocated.used⟩
  | kfree run member returned induction =>
      obtain ⟨chunks, state, held⟩ := induction
      obtain ⟨k', chunks', returned', freed, _, held'⟩ :=
        state.kfree_block (held.perm (List.perm_cons_erase member))
      rw [returned] at returned'
      injection returned' with _ same
      subst same
      exact ⟨chunks', freed.state, held'⟩
  | store run member covers returned induction =>
      obtain ⟨chunks, state, held⟩ := induction
      obtain ⟨chunk, inChunks, _, inside⟩ := held.chunk_of member
      exact ⟨chunks, state.store_spec inChunks (inside.payload covers)
        returned, held⟩

theorem HeapRun.invariant {img : KernelImage} {frames : List Nat}
    (usable : ∀ frame ∈ frames, UsableFrame img frame)
    (distinct : frames.Nodup) {k : Kernel} {live : List Block}
    (run : HeapRun img frames k live) :
    ∃ chunks, HeapState img frames k chunks ∧ LiveBlocks chunks live :=
  run.safe.invariant usable distinct

/-! ## A run with two blocks -/

def sampleImage : KernelImage where
  pgdKern := 0xC0101000
  pteKern := 0xC0102000
  kernEnd := 0xC0182000
  pgd_aligned := rfl
  pte_aligned := rfl
  pgd_lower := by decide
  pte_lower := by decide
  pgd_upper := by decide
  pte_upper := by decide
  pgd_pte := by decide
  kernEnd_upper := by decide

def sampleFrames : List Nat :=
  [0x204000, 0x203000, 0x202000, 0x201000, 0x200000]

theorem sampleFrames_usable :
    ∀ frame ∈ sampleFrames, UsableFrame sampleImage frame := by
  intro frame member
  have bounds : frame % pageSize = 0 ∧
      sampleImage.kernEnd - pageOffset ≤ frame ∧ frame < pmmMaxSize := by
    revert frame
    decide
  exact .of_kernEnd bounds.1 bounds.2.1 bounds.2.2

theorem sampleFrames_nodup : sampleFrames.Nodup := by decide

def sampleBoot : Kernel where
  mem := initVmm sampleImage.pgdKern sampleImage.pteKern fun _ => 0
  pmmStack := sampleFrames
  phyPageCount := 5
  heapFirst := 0
  heapMax := heapStart

theorem sampleBoot_started : AfterBoot sampleImage sampleFrames sampleBoot :=
  ⟨fun _ => 0, sampleBoot, ⟨fun _ _ _ => rfl, fun _ _ _ => rfl⟩, rfl, rfl,
    rfl, rfl⟩

theorem sampleBoot_state : HeapState sampleImage sampleFrames sampleBoot [] :=
  .boot sampleFrames_usable sampleFrames_nodup sampleBoot_started

/-- Where no chunk fits and the frames suffice, `kmalloc` appends one. -/
theorem HeapState.kmalloc_appends {img : KernelImage} {frames : List Nat}
    {k : Kernel} {chunks : List Segment} {n : Nat}
    (state : HeapState img frames k chunks)
    (none : ∀ chunk ∈ chunks, ¬Fits (n + headerSize) chunk)
    (small : endOf heapStart chunks + n + headerSize < 4294967296)
    (room : endOf heapStart chunks + (n + headerSize) ≤
      k.heapMax + (k.pmmStack.length - 1) / 2 * pageSize) :
    ∃ k', kmalloc img.pgdKern n k =
        .ok (endOf heapStart chunks + headerSize) k' ∧
      HeapState img frames k'
        (chunks ++ [⟨endOf heapStart chunks, n + headerSize, true⟩]) := by
  rcases state.kmalloc_cases (.inr small) with
    ⟨front, chunk, back, _, rfl, _, fits, _⟩ |
    ⟨_, ⟨_, _, few⟩ | ⟨k', returned, grown⟩⟩
  · exact absurd fits (none chunk (by simp))
  · omega
  · exact ⟨k', returned, grown.state⟩

theorem exists_firstBlock :
    ∃ k, kmalloc sampleImage.pgdKern 16 sampleBoot =
        .ok (heapStart + headerSize) k ∧
      HeapState sampleImage sampleFrames k
        [⟨heapStart, 16 + headerSize, true⟩] :=
  sampleBoot_state.kmalloc_appends (by simp) (by decide) (by decide)

theorem exists_twoBlocks {n : Nat} (short : n ≤ 2000) :
    ∃ k, HeapRun sampleImage sampleFrames k
        [⟨heapStart + n + 24, 16⟩, ⟨heapStart + 12, n⟩] ∧
      HeapState sampleImage sampleFrames k
        [⟨heapStart, n + 12, true⟩, ⟨heapStart + n + 12, 28, true⟩] := by
  have bounds : sampleBoot.heapMax = heapStart ∧
      (sampleBoot.pmmStack.length - 1) / 2 = 2 := ⟨rfl, rfl⟩
  obtain ⟨k, returned, state⟩ := sampleBoot_state.kmalloc_appends (n := n)
    (by simp) (by simp only [endOf_nil, heapStart, headerSize]; omega)
    (by
      rw [bounds.1, bounds.2]
      simp only [endOf_nil, headerSize, pageSize]
      omega)
  have endEq : endOf heapStart ([] ++ [(⟨heapStart, n + headerSize,
      true⟩ : Segment)]) = heapStart + n + 12 := by
    rw [endOf_concat, Segment.stop, headerSize, Nat.add_assoc]
  have fits := state.fits
  have tight := state.tight
  have aligned := state.paging.heapMax_aligned
  rw [endOf_nil] at returned state fits tight
  rw [endEq] at fits tight
  simp only [heapStart, pageSize] at fits tight aligned
  obtain ⟨k', returned', state'⟩ := state.kmalloc_appends (n := 16)
    (by simp [Fits])
    (by rw [endEq]; simp only [heapStart, headerSize]; omega)
    (by rw [endEq]; simp only [heapStart, headerSize, pageSize]; omega)
  rw [endEq] at returned' state'
  have noWrap : NoWrap sampleImage.pgdKern sampleBoot n :=
    ⟨by simp only [headerSize]; omega, by
      rw [sampleBoot_state.heapEnd_eq, endOf_nil]
      simp only [heapStart, headerSize, pageSize]
      omega⟩
  refine ⟨k', ((HeapRun.start sampleBoot_started).kmalloc noWrap
    returned).kmalloc ⟨by decide, ?_⟩ returned', state'⟩
  rw [state.heapEnd_eq, endEq]
  simp only [heapStart, headerSize, pageSize]
  omega

theorem exists_sampleRun :
    ∃ k p q, p ≠ q ∧ HeapRun sampleImage sampleFrames k [⟨q, 16⟩, ⟨p, 16⟩] := by
  obtain ⟨k, run, _⟩ := exists_twoBlocks (n := 16) (by decide)
  exact ⟨k, _, _, by decide, run⟩

theorem exists_hole :
    ∃ k, SafeRun sampleImage sampleFrames k [⟨heapStart + 124, 16⟩] ∧
      HeapState sampleImage sampleFrames k
        [⟨heapStart, 112, false⟩, ⟨heapStart + 112, 28, true⟩] := by
  obtain ⟨k, run, state⟩ := exists_twoBlocks (n := 100) (by decide)
  have split : HeapState sampleImage sampleFrames k ([] ++
      ⟨heapStart, 112, true⟩ :: [⟨heapStart + 112, 28, true⟩]) := state
  have member : (⟨heapStart + 12, 100⟩ : Block) ∈
      [⟨heapStart + 124, 16⟩, ⟨heapStart + 12, 100⟩] := by simp
  obtain ⟨k', chunks, freed, left, used⟩ := split.kfree_spec
  have hole : Canonical headerSize heapStart [⟨heapStart, 112, false⟩,
      ⟨heapStart + 112, 28, true⟩] :=
    ⟨by simp [Tiles, Segment.stop], by simp [headerSize],
      by simp [Coalesced], by simp⟩
  obtain rfl := left.state.canonical.unique (by decide) hole used
  exact ⟨k', run.safe.kfree member freed, left.state⟩

end MiniOS
