import MiniOS.Mm.ChunkList

/-!
# Splitting and merging on the heap

`splitChunk`, `absorb` and the parts of `glueChunk` and `freeChunk` run
without a fault when the headers they reach are on mapped pages, and make the
edits of `Headers`.
-/

namespace MiniOS

open ByteMemory

namespace HoldsHeaders

variable {img : KernelImage} {frames nodes : List Nat} {k₀ k : Kernel}
variable {headers : Headers} {header node value len : Nat}

theorem node_lt (holds : HoldsHeaders img frames k₀ nodes k headers)
    (place : HeaderNodes k₀ nodes) (member : header ∈ nodes) :
    header < 4294967296 := by
  have upper := (place.inside header member).2
  have top := holds.wrote.paging.heapMax_upper
  have max := holds.wrote.same.heapMax
  simp only [headerSize] at upper
  simp only [pageSize] at top
  omega

theorem setPrevOf (holds : HoldsHeaders img frames k₀ nodes k headers)
    (place : HeaderNodes k₀ nodes) (member : node ≠ 0 → node ∈ nodes)
    (small : value < 4294967296) :
    ∃ k', setPrevOf img.pgdKern node value k = .ok () k' ∧
      HoldsHeaders img frames k₀ nodes k' (headers.setPrevOf node value) := by
  unfold MiniOS.setPrevOf Headers.setPrevOf
  by_cases present : node ≠ 0
  · rw [if_pos present, if_pos present]
    exact holds.setPrev place (member present) small
  · rw [if_neg present, if_neg present]
    exact ⟨k, rfl, holds⟩

theorem setNextOf (holds : HoldsHeaders img frames k₀ nodes k headers)
    (place : HeaderNodes k₀ nodes) (member : node ≠ 0 → node ∈ nodes)
    (small : value < 4294967296) :
    ∃ k', setNextOf img.pgdKern node value k = .ok () k' ∧
      HoldsHeaders img frames k₀ nodes k'
        (if node ≠ 0 then headers.set .next node value else headers) := by
  unfold MiniOS.setNextOf
  by_cases present : node ≠ 0
  · rw [if_pos present, if_pos present]
    exact holds.setNext place (member present) small
  · rw [if_neg present, if_neg present]
    exact ⟨k, rfl, holds⟩

/-- The tail of `kmalloc`, where the header of a new last chunk is written. -/
theorem append_spec (holds : HoldsHeaders img frames k₀ nodes k headers)
    (place : HeaderNodes k₀ nodes) {last start : Nat}
    (startMember : start ∈ nodes) (lastMember : last ≠ 0 → last ∈ nodes) :
    ∃ k', (do
        MiniOS.setAllocated img.pgdKern start 1
        MiniOS.setLength img.pgdKern start len
        MiniOS.setNextOf img.pgdKern last start
        MiniOS.setPrev img.pgdKern start last
        MiniOS.setNext img.pgdKern start 0
        return uint32 (start + headerSize)) k =
          .ok (uint32 (start + headerSize)) k' ∧
      HoldsHeaders img frames k₀ nodes k' (headers.append last start len) := by
  have startSmall := holds.node_lt place startMember
  have lastSmall : last < 4294967296 := by
    by_cases null : last = 0
    · omega
    · exact holds.node_lt place (lastMember null)
  obtain ⟨k₁, returned₁, holds₁⟩ := holds.setAllocated place startMember 1
  obtain ⟨k₂, returned₂, holds₂⟩ := holds₁.setLength place startMember len
  obtain ⟨k₃, returned₃, holds₃⟩ :=
    holds₂.setNextOf place lastMember startSmall
  obtain ⟨k₄, returned₄, holds₄⟩ := holds₃.setPrev place startMember lastSmall
  obtain ⟨k₅, returned₅, holds₅⟩ :=
    holds₄.setNext place startMember (show 0 < 4294967296 by decide)
  refine ⟨k₅, ?_, holds₅⟩
  rw [Outcome.bind_of_ok returned₁, Outcome.bind_of_ok returned₂,
    Outcome.bind_of_ok returned₃, Outcome.bind_of_ok returned₄,
    Outcome.bind_of_ok returned₅]
  rfl

theorem absorb_spec (holds : HoldsHeaders img frames k₀ nodes k headers)
    (place : HeaderNodes k₀ nodes) {left right : Nat}
    (leftMember : left ∈ nodes) (rightMember : right ∈ nodes)
    (nextMember : headers .next right ≠ 0 → headers .next right ∈ nodes) :
    ∃ k', absorb img.pgdKern left right k = .ok () k' ∧
      HoldsHeaders img frames k₀ nodes k' (headers.absorb left right) := by
  have nextSmall := holds.field_lt rightMember .next
  have leftSmall := holds.node_lt place leftMember
  obtain ⟨k₁, returned₁, holds₁⟩ := holds.setLength place leftMember
    (headers .bits left / 2 + headers .bits right / 2)
  have next₁ := holds₁.getNext place rightMember
  obtain ⟨k₂, returned₂, holds₂⟩ :=
    holds₁.setNext place leftMember nextSmall
  obtain ⟨k₃, returned₃, holds₃⟩ :=
    holds₂.setPrevOf place nextMember leftSmall
  refine ⟨k₃, ?_, holds₃⟩
  unfold absorb
  rw [Outcome.bind_of_ok (holds.getLength place leftMember),
    Outcome.bind_of_ok (holds.getLength place rightMember),
    Outcome.bind_of_ok returned₁, Outcome.bind_of_ok next₁]
  simp only [Headers.set_apply, reduceCtorEq, false_and, if_false]
  rw [Outcome.bind_of_ok returned₂, returned₃]

theorem isFree_spec (holds : HoldsHeaders img frames k₀ nodes k headers)
    (place : HeaderNodes k₀ nodes) (member : node ≠ 0 → node ∈ nodes) :
    isFree img.pgdKern node k =
      .ok (node ≠ 0 && headers .bits node % 2 == 0) k := by
  unfold isFree
  by_cases null : node = 0
  · simp [null]
  · rw [if_neg null, Outcome.bind_of_ok (holds.getAllocated place
      (member null))]
    simp [null]

theorem splitChunk_spec (holds : HoldsHeaders img frames k₀ nodes k headers)
    (place : HeaderNodes k₀ nodes) (member : header ∈ nodes)
    (positive : 0 < len) (le : len ≤ headers .bits header / 2)
    (newMember : headerSize < headers .bits header / 2 - len →
      header + len ∈ nodes)
    (nextMember : headers .next header ≠ 0 → headers .next header ∈ nodes) :
    ∃ k', splitChunk img.pgdKern header len k = .ok () k' ∧
      HoldsHeaders img frames k₀ nodes k'
        (if headerSize < headers .bits header / 2 - len then
          headers.cut header len
        else headers) := by
  have bitsSmall := holds.field_lt member .bits
  have restEq : sub32 (headers .bits header / 2) len =
      headers .bits header / 2 - len := by
    simp only [sub32, uint32]
    omega
  unfold splitChunk
  rw [Outcome.bind_of_ok (holds.getLength place member), restEq]
  by_cases room : headerSize < headers .bits header / 2 - len
  · rw [if_pos room, if_pos room]
    have inNodes := newMember room
    have newSmall := holds.node_lt place inNodes
    have nextSmall := holds.field_lt member .next
    have headerSmall := holds.node_lt place member
    simp only [uint32_of_lt newSmall]
    obtain ⟨k₁, returned₁, holds₁⟩ :=
      holds.setPrev place inNodes headerSmall
    have next₁ := holds₁.getNext place member
    obtain ⟨k₂, returned₂, holds₂⟩ := holds₁.setNext place inNodes nextSmall
    have next₂ := holds₂.getNext place member
    obtain ⟨k₃, returned₃, holds₃⟩ :=
      holds₂.setPrevOf place nextMember newSmall
    obtain ⟨k₄, returned₄, holds₄⟩ := holds₃.setNext place member newSmall
    obtain ⟨k₅, returned₅, holds₅⟩ := holds₄.setAllocated place inNodes 0
    have length₅ := holds₅.getLength place member
    obtain ⟨k₆, returned₆, holds₆⟩ := holds₅.setLength place inNodes
      (sub32 (headers .bits header / 2) len)
    obtain ⟨k₇, returned₇, holds₇⟩ := holds₆.setLength place member len
    refine ⟨k₇, ?_, holds₇⟩
    have other : header ≠ header + len := by omega
    simp only [Headers.set_apply, Headers.setPrevOf_apply, other,
      reduceCtorEq, false_and, and_false, if_false] at next₁ next₂ length₅
    rw [Outcome.bind_of_ok returned₁, Outcome.bind_of_ok next₁,
      Outcome.bind_of_ok returned₂, Outcome.bind_of_ok next₂,
      Outcome.bind_of_ok returned₃, Outcome.bind_of_ok returned₄,
      Outcome.bind_of_ok returned₅, Outcome.bind_of_ok length₅,
      Outcome.bind_of_ok returned₆, returned₇]
  · rw [if_neg room, if_neg room]
    exact ⟨k, rfl, holds⟩

end HoldsHeaders

/-- A routine made of reads and writes through the page walk. -/
inductive HeapAccess (pgdKern : Nat) : {α : Type} → KernelM α → Prop
  | pure {α : Type} (a : α) : HeapAccess pgdKern (pure a)
  | read8 (va : Nat) : HeapAccess pgdKern (read8 pgdKern va)
  | write8 (va : Nat) (byte : UInt8) :
      HeapAccess pgdKern (write8 pgdKern va byte)
  | bind {α β : Type} {first : KernelM α} {next : α → KernelM β}
      (before : HeapAccess pgdKern first)
      (behind : ∀ a, HeapAccess pgdKern (next a)) :
      HeapAccess pgdKern (first >>= next)

namespace HeapAccess

variable (pgdKern va value : Nat)

theorem read32 : HeapAccess pgdKern (read32 pgdKern va) :=
  (read8 _).bind fun _ => (read8 _).bind fun _ => (read8 _).bind fun _ =>
    (read8 _).bind fun _ => pure _

theorem write32 : HeapAccess pgdKern (write32 pgdKern va value) :=
  (write8 _ _).bind fun _ => (write8 _ _).bind fun _ =>
    (write8 _ _).bind fun _ => write8 _ _

theorem getLength : HeapAccess pgdKern (getLength pgdKern va) :=
  (read32 _ _).bind fun _ => pure _

theorem setAllocated : HeapAccess pgdKern (setAllocated pgdKern va value) :=
  (read32 _ _).bind fun _ => write32 _ _ _

theorem setLength : HeapAccess pgdKern (setLength pgdKern va value) :=
  (read32 _ _).bind fun _ => write32 _ _ _

theorem setPrevOf : HeapAccess pgdKern (setPrevOf pgdKern va value) := by
  unfold MiniOS.setPrevOf
  split
  · exact write32 _ _ _
  · exact pure _

theorem setNextOf : HeapAccess pgdKern (setNextOf pgdKern va value) := by
  unfold MiniOS.setNextOf
  split
  · exact write32 _ _ _
  · exact pure _

theorem splitChunk (chunk len : Nat) :
    HeapAccess pgdKern (splitChunk pgdKern chunk len) := by
  apply (getLength _ _).bind
  intro length
  split
  · exact (write32 _ _ _).bind fun _ => (read32 _ _).bind fun _ =>
      (write32 _ _ _).bind fun _ => (read32 _ _).bind fun _ =>
      (setPrevOf _ _ _).bind fun _ => (write32 _ _ _).bind fun _ =>
      (setAllocated _ _ _).bind fun _ => (getLength _ _).bind fun _ =>
      (setLength _ _ _).bind fun _ => setLength _ _ _
  · exact pure _

/-- What `kmalloc` does at a chunk that fits. -/
theorem take (chunk len : Nat) : HeapAccess pgdKern (do
    MiniOS.splitChunk pgdKern chunk len
    MiniOS.setAllocated pgdKern chunk 1
    return (Sum.inl (uint32 (chunk + headerSize)) : Nat ⊕ Nat)) :=
  (splitChunk _ _ _).bind fun _ => (setAllocated _ _ _).bind fun _ => pure _

theorem append (len last start : Nat) : HeapAccess pgdKern (do
    MiniOS.setAllocated pgdKern start 1
    MiniOS.setLength pgdKern start len
    MiniOS.setNextOf pgdKern last start
    setPrev pgdKern start last
    setNext pgdKern start 0
    return uint32 (start + headerSize)) :=
  (setAllocated _ _ _).bind fun _ => (setLength _ _ _).bind fun _ =>
    (setNextOf _ _ _).bind fun _ => (write32 _ _ _).bind fun _ =>
    (write32 _ _ _).bind fun _ => pure _

theorem only_faults {pgdKern : Nat} {α : Type} {m : KernelM α}
    {k k' : Kernel} {stop : Stop} (access : HeapAccess pgdKern m)
    (stopped : m k = .error stop k') : ∃ va, stop = .pageFault va := by
  induction access generalizing k k' with
  | pure b => cases stopped
  | read8 va =>
      simp only [MiniOS.read8, KernelM.get_bind] at stopped
      cases walk : mmuWalk k.mem (pgdKern - pageOffset) va <;>
        simp only [walk] at stopped <;> cases stopped
      exact ⟨va, rfl⟩
  | write8 va byte =>
      simp only [MiniOS.write8, KernelM.get_bind] at stopped
      cases walk : mmuWalk k.mem (pgdKern - pageOffset) va <;>
        simp only [walk] at stopped <;> cases stopped
      exact ⟨va, rfl⟩
  | bind _ _ before behind =>
      rcases Outcome.bind_eq_error stopped with early | ⟨b, middle, _, late⟩
      · exact before early
      · exact behind b late

end HeapAccess

end MiniOS
