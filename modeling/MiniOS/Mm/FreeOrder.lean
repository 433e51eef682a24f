import MiniOS.Mm.HeapContract

/-!
# The order of frees

A sequence of frees leaves the chunks in use that it was not given.  They
determine the canonical cut, the cut determines `heap_max`, and with the pages
above it the page stack is determined too.
-/

namespace MiniOS

open ByteMemory Tiling

/-- Calls of `kfree`, one for each block. -/
def freeAll (pgdKern : Nat) : List Block → KernelM Unit
  | [] => return ()
  | block :: blocks => do
      kfree pgdKern block.ptr
      freeAll pgdKern blocks

/-- What is left of the heap of `k` when `chunks'` is left of its list. -/
structure Trimmed (img : KernelImage) (frames : List Nat) (k k' : Kernel)
    (chunks' : List Segment) : Prop where
  state : HeapState img frames k' chunks'
  releases : Releases img k k'
  heapMax_eq : k'.heapMax =
    min k.heapMax (roundDown (endOf heapStart chunks') pageSize + pageSize)

namespace HeapState

variable {img : KernelImage} {frames : List Nat} {k : Kernel}
variable {chunks : List Segment} {order rest : List Block}

theorem freeAll_spec (state : HeapState img frames k chunks)
    (held : LiveBlocks chunks (order ++ rest)) :
    ∃ k' chunks', freeAll img.pgdKern order k = .ok () k' ∧
      Trimmed img frames k k' chunks' ∧
      endOf heapStart chunks' ≤ endOf heapStart chunks ∧
      usedOf chunks' = (usedOf chunks).filter
        (fun chunk => chunk.start + headerSize ∉ order.map Block.ptr) ∧
      LiveBlocks chunks' rest := by
  induction order generalizing k chunks with
  | nil =>
      refine ⟨k, chunks, rfl, ⟨state, ?_, ?_⟩, Nat.le_refl _, ?_, held⟩
      · exact (SamePaging.refl img k).releases state.paging
      · exact (min_roundDown state.paging.heapMax_aligned state.tight).symm
      · simp
  | cons block order induction =>
      obtain ⟨k₁, chunks₁, returned₁, freed, used₁, held₁⟩ :=
        state.kfree_block held
      obtain ⟨k₂, chunks₂, returned₂, trimmed, endLe, used₂, held₂⟩ :=
        induction freed.state held₁
      have endLe₁ := freed.endOf_le
      refine ⟨k₂, chunks₂, ?_, ⟨trimmed.state,
        freed.releases.trans trimmed.releases, ?_⟩, endLe.trans endLe₁, ?_,
        held₂⟩
      · unfold freeAll
        rw [Outcome.bind_of_ok returned₁, returned₂]
      · have floor : roundDown (endOf heapStart chunks₂) pageSize ≤
            roundDown (endOf heapStart chunks₁) pageSize := by
          simp only [roundDown, pageSize]
          omega
        rw [trimmed.heapMax_eq, freed.heapMax_eq, Nat.min_assoc,
          Nat.min_eq_right (Nat.add_le_add_right floor _)]
      · rw [used₂, used₁, List.filter_filter]
        congr 1
        funext chunk
        simp [Bool.and_comm]

end HeapState

section Equal

variable {img : KernelImage} {frames : List Nat} {k k₁ k₂ : Kernel}
variable {chunks : List Segment}

theorem Releases.heapFrames_eq (one : Releases img k k₁)
    (two : Releases img k k₂) (max : k₁.heapMax = k₂.heapMax)
    (upper : k₁.heapMax < 4294967296) :
    heapFrames img k₁ = heapFrames img k₂ := by
  unfold heapFrames heapPages
  rw [max]
  apply List.map_congr_left
  intro i member
  have small : heapStart + i * pageSize < 4294967296 := by
    have bound := List.mem_range.mp member
    simp only [heapStart, pageSize] at *
    omega
  rw [frameAt, frameAt, one.pte _ small, two.pte _ small, max]

/-- The list that is left determines the rest. -/
theorem Trimmed.unique (one : Trimmed img frames k k₁ chunks)
    (two : Trimmed img frames k k₂ chunks) :
    k₁.heapMax = k₂.heapMax ∧ k₁.pmmStack = k₂.pmmStack ∧
      ∀ va < 4294967296, pteOf img.pgdKern k₁.mem va =
        pteOf img.pgdKern k₂.mem va := by
  have max : k₁.heapMax = k₂.heapMax :=
    one.heapMax_eq.trans two.heapMax_eq.symm
  refine ⟨max, ?_, ?_⟩
  · have frames₁ := one.releases.frames
    have frames₂ := two.releases.frames
    rw [← frames₂, one.releases.heapFrames_eq two.releases max
      one.state.paging.heapMax_lt] at frames₁
    exact List.append_cancel_left frames₁
  · intro va small
    rw [one.releases.pte va small, two.releases.pte va small, max]

end Equal

/-- Two orders of freeing the same blocks end in the same heap; when no block
is left, so is no chunk, and at most one page. -/
theorem free_order_irrelevant (img : KernelImage) (frames : List Nat)
    (usable : ∀ frame ∈ frames, UsableFrame img frame)
    (distinct : frames.Nodup) {k : Kernel} {live : List Block}
    (run : HeapRun img frames k live) {order order' : List Block}
    (nodup : order.Nodup) (subset : order ⊆ live)
    (permuted : order.Perm order') :
    ∃ k₁ k₂ chunks, freeAll img.pgdKern order k = .ok () k₁ ∧
      freeAll img.pgdKern order' k = .ok () k₂ ∧
      chunkList img.pgdKern k₁ = .ok chunks k₁ ∧
      chunkList img.pgdKern k₂ = .ok chunks k₂ ∧
      k₁.heapFirst = k₂.heapFirst ∧
      k₁.heapMax = k₂.heapMax ∧
      (∀ va < 4294967296,
        pteOf img.pgdKern k₁.mem va = pteOf img.pgdKern k₂.mem va) ∧
      k₁.pmmStack = k₂.pmmStack ∧
      (live ⊆ order → k₁.heapFirst = 0 ∧
        k₁.heapMax ≤ heapStart + pageSize ∧ heapPages k₁ ≤ 1 ∧
        heapFrames img k₁ ++ k₁.pmmStack =
          heapFrames img k ++ k.pmmStack) := by
  obtain ⟨chunks, state, held⟩ := run.invariant usable distinct
  obtain ⟨sub, subPerm, sublist⟩ := List.subperm_of_subset nodup subset
  obtain ⟨rest, whole⟩ := sublist.exists_perm_append
  have split : live.Perm (order ++ rest) :=
    whole.trans (subPerm.append_right rest)
  have split' : live.Perm (order' ++ rest) :=
    split.trans (permuted.append_right rest)
  obtain ⟨k₁, chunks₁, freed₁, trimmed₁, _, used₁, held₁⟩ :=
    state.freeAll_spec (held.perm split)
  obtain ⟨k₂, chunks₂, freed₂, trimmed₂, _, used₂, held₂⟩ :=
    state.freeAll_spec (held.perm split')
  have usedEq : usedOf chunks₁ = usedOf chunks₂ := by
    rw [used₁, used₂]
    congr 1
    funext chunk
    simp only [(permuted.map Block.ptr).mem_iff]
  obtain rfl : chunks₁ = chunks₂ :=
    trimmed₁.state.canonical.unique (by decide) trimmed₂.state.canonical usedEq
  obtain ⟨max, stack, ptes⟩ := trimmed₁.unique trimmed₂
  have first : k₁.heapFirst = k₂.heapFirst :=
    trimmed₁.state.list.first_eq.trans trimmed₂.state.list.first_eq.symm
  refine ⟨k₁, k₂, chunks₁, freed₁, freed₂, trimmed₁.state.chunkList_eq,
    trimmed₂.state.chunkList_eq, first, max, ptes, stack, ?_⟩
  intro all
  have none : usedOf chunks₁ = [] := by
    rw [used₁, List.filter_eq_nil_iff]
    intro chunk member
    have starts := HeapState.live_starts held
    obtain ⟨block, inLive, ptr⟩ := List.mem_map.mp
      (starts.mem_iff.mp (List.mem_map.mpr ⟨chunk, member, rfl⟩))
    simp only [decide_eq_true_eq, not_not]
    exact List.mem_map.mpr ⟨block, all inLive, ptr⟩
  obtain rfl := trimmed₁.state.canonical.eq_nil none
  have tight : k₁.heapMax ≤ heapStart + pageSize := trimmed₁.state.tight
  refine ⟨trimmed₁.state.list.first_eq, tight, ?_, trimmed₁.releases.frames⟩
  unfold heapPages
  have gap : k₁.heapMax - heapStart ≤ pageSize :=
    Nat.sub_le_iff_le_add'.mpr tight
  calc (k₁.heapMax - heapStart) / pageSize
      ≤ pageSize / pageSize := Nat.div_le_div_right gap
    _ = 1 := Nat.div_self (by decide)

theorem free_order_irrelevant_sampleRun :
    ∃ k k' left right, left ≠ right ∧
      HeapRun sampleImage sampleFrames k [left, right] ∧
      freeAll sampleImage.pgdKern [left, right] k = .ok () k' ∧
      k'.heapFirst = 0 := by
  obtain ⟨k, p, q, different, run⟩ := exists_sampleRun
  have apart : (⟨q, 16⟩ : Block) ≠ ⟨p, 16⟩ := by
    simp [different.symm]
  obtain ⟨k₁, _, _, freed, _, _, _, _, _, _, _, all⟩ :=
    free_order_irrelevant sampleImage sampleFrames sampleFrames_usable
      sampleFrames_nodup run (by simpa using apart) (fun _ member => member)
      (List.Perm.swap _ _ _)
  exact ⟨k, k₁, _, _, apart, run, freed, (all fun _ member => member).1⟩

end MiniOS
