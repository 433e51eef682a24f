import MiniOS.Mm.ChunkHeader
import MiniOS.Lib.LinkedChain
import MiniOS.Lib.Tiling

/-!
# The chunk list

`ChunkList` says that the headers hold a given list of chunks.  The edits that
the heap code makes are functions on `Headers`; each of them changes the list
in one place.
-/

namespace MiniOS

open ByteMemory LinkedChain Tiling

/-- The third word of a header. -/
def headerBits (chunk : Segment) : Nat := 2 * chunk.len + chunk.used.toNat

structure ChunkList (headers : Headers) (first : Nat)
    (chunks : List Segment) : Prop where
  first_eq : first = (chunks.map Segment.start).headD 0
  links : Chain (headers .next) (headers .prev) 0
    (chunks.map Segment.start) 0
  bits : ∀ chunk ∈ chunks, headers .bits chunk.start = headerBits chunk

/-- Chunks of different addresses, none of them null, with lengths that fit
the bit-field. -/
structure ProperNodes (chunks : List Segment) : Prop where
  distinct : (chunks.map Segment.start).Nodup
  nonzero : ∀ chunk ∈ chunks, chunk.start ≠ 0
  small : ∀ chunk ∈ chunks, chunk.len < 2147483648

theorem ProperNodes.mark {front back : List Segment} {chunk : Segment}
    (proper : ProperNodes (front ++ chunk :: back)) (used : Bool) :
    ProperNodes (front ++ { chunk with used := used } :: back) := by
  refine ⟨by simpa using proper.distinct, ?_, ?_⟩
  · intro other member
    rcases List.mem_append.mp member with inFront | inRest
    · exact proper.nonzero other (by simp [inFront])
    · rcases List.mem_cons.mp inRest with rfl | inBack
      · exact proper.nonzero chunk (by simp)
      · exact proper.nonzero other (by simp [inBack])
  · intro other member
    rcases List.mem_append.mp member with inFront | inRest
    · exact proper.small other (by simp [inFront])
    · rcases List.mem_cons.mp inRest with rfl | inBack
      · exact proper.small chunk (by simp)
      · exact proper.small other (by simp [inBack])

namespace Headers

variable (headers : Headers)

@[simp] theorem set_apply (field other : HeaderField)
    (header node value : Nat) :
    headers.set field header value other node =
      if other = field ∧ node = header then value
      else headers other node := rfl

def setAllocated (header value : Nat) : Headers :=
  headers.set .bits header (headers .bits header / 2 * 2 + value % 2)

def setLength (header value : Nat) : Headers :=
  headers.set .bits header
    (value % 2147483648 * 2 + headers .bits header % 2)

/-- `if (node) node->prev = value` -/
def setPrevOf (node value : Nat) : Headers :=
  if node ≠ 0 then headers.set .prev node value else headers

@[simp] theorem setPrevOf_apply (node value : Nat) (field : HeaderField)
    (other : Nat) :
    headers.setPrevOf node value field other =
      if node ≠ 0 ∧ field = .prev ∧ other = node then value
      else headers field other := by
  unfold setPrevOf
  split <;> simp_all

/-- The chunk `right` becomes part of `left`. -/
def absorb (left right : Nat) : Headers :=
  let next := headers .next right
  ((headers.setLength left
    (headers .bits left / 2 + headers .bits right / 2)).set .next left
      next).setPrevOf next left

theorem absorb_next (left right node : Nat) :
    headers.absorb left right .next node =
      if node = left then headers .next right else headers .next node := by
  simp [absorb, setLength]

theorem absorb_prev (left right node : Nat) :
    headers.absorb left right .prev node =
      if headers .next right ≠ 0 ∧ node = headers .next right then left
      else headers .prev node := by
  simp [absorb, setLength]

theorem absorb_bits (left right node : Nat) :
    headers.absorb left right .bits node =
      if node = left then
        (headers .bits left / 2 + headers .bits right / 2) %
          2147483648 * 2 + headers .bits left % 2
      else headers .bits node := by
  simp [absorb, setLength]

/-- The free chunk behind `len` bytes of `chunk` is linked in. -/
def cut (chunk len : Nat) : Headers :=
  let newChunk := chunk + len
  let next := headers .next chunk
  let rest := sub32 (headers .bits chunk / 2) len
  let linked := ((headers.set .prev newChunk chunk).set .next newChunk
    next).setPrevOf next newChunk |>.set .next chunk newChunk
  ((linked.setAllocated newChunk 0).setLength newChunk rest).setLength
    chunk len

def append (last chunk len : Nat) : Headers :=
  let headers := (headers.setAllocated chunk 1).setLength chunk len
  let headers := if last ≠ 0 then headers.set .next last chunk else headers
  (headers.set .prev chunk last).set .next chunk 0

theorem cut_next (chunk len node : Nat) :
    headers.cut chunk len .next node =
      if node = chunk then chunk + len
      else if node = chunk + len then headers .next chunk
      else headers .next node := by
  simp [cut, setLength, setAllocated]

theorem cut_prev (chunk len node : Nat) :
    headers.cut chunk len .prev node =
      if headers .next chunk ≠ 0 ∧ node = headers .next chunk then
        chunk + len
      else if node = chunk + len then chunk
      else headers .prev node := by
  simp [cut, setLength, setAllocated]

theorem cut_bits {chunk len : Nat} (positive : len ≠ 0) (node : Nat) :
    headers.cut chunk len .bits node =
      if node = chunk then
        len % 2147483648 * 2 + headers .bits chunk % 2
      else if node = chunk + len then
        sub32 (headers .bits chunk / 2) len % 2147483648 * 2
      else headers .bits node := by
  simp only [cut, setLength, setAllocated, set_apply, setPrevOf_apply]
  simp [positive]
  split_ifs <;> rfl

theorem append_next (last chunk len node : Nat) :
    headers.append last chunk len .next node =
      if node = chunk then 0
      else if last ≠ 0 ∧ node = last then chunk
      else headers .next node := by
  unfold append
  by_cases first : last = 0 <;> simp [first, setLength, setAllocated]

theorem append_prev (last chunk len node : Nat) :
    headers.append last chunk len .prev node =
      if node = chunk then last else headers .prev node := by
  unfold append
  by_cases first : last = 0 <;> simp [first, setLength, setAllocated]

theorem append_bits (last chunk len node : Nat) :
    headers.append last chunk len .bits node =
      if node = chunk then len % 2147483648 * 2 + 1
      else headers .bits node := by
  unfold append
  by_cases first : last = 0 <;>
    simp [first, setLength, setAllocated, Nat.add_mod] <;>
    split_ifs <;> rfl

/-- `last` becomes the last chunk. -/
def drop (last : Nat) : Headers :=
  if last = 0 then headers else headers.set .next last 0

end Headers

namespace ChunkList

variable {headers : Headers} {first : Nat} {front back : List Segment}

theorem congr {others : Headers} {chunks : List Segment}
    (list : ChunkList headers first chunks)
    (same : ∀ field, ∀ chunk ∈ chunks,
      others field chunk.start = headers field chunk.start) :
    ChunkList others first chunks where
  first_eq := list.first_eq
  links := by
    apply list.links.congr
    intro node member
    obtain ⟨chunk, inChunks, rfl⟩ := List.mem_map.mp member
    exact ⟨same .next chunk inChunks, same .prev chunk inChunks⟩
  bits chunk member := (same .bits chunk member).trans (list.bits chunk member)

theorem next_eq {chunk : Segment}
    (list : ChunkList headers first (front ++ chunk :: back)) :
    headers .next chunk.start = (back.map Segment.start).headD 0 := by
  have links := list.links
  simp only [List.map_append, List.map_cons, chain_append, chain_cons]
    at links
  exact links.2.2.1

theorem prev_eq {chunk : Segment}
    (list : ChunkList headers first (front ++ chunk :: back)) :
    headers .prev chunk.start = (front.map Segment.start).getLastD 0 := by
  have links := list.links
  simp only [List.map_append, List.map_cons, chain_append, chain_cons]
    at links
  exact links.2.1

theorem length_eq {chunks : List Segment}
    (list : ChunkList headers first chunks) (chunk : Segment)
    (member : chunk ∈ chunks) :
    headers .bits chunk.start / 2 = chunk.len := by
  have bound := chunk.used.toNat_lt
  rw [list.bits chunk member, headerBits]
  omega

theorem allocated_eq {chunks : List Segment}
    (list : ChunkList headers first chunks) (chunk : Segment)
    (member : chunk ∈ chunks) :
    headers .bits chunk.start % 2 = chunk.used.toNat := by
  have bound := chunk.used.toNat_lt
  rw [list.bits chunk member, headerBits]
  omega

theorem mark {chunk : Segment} (used : Bool)
    (list : ChunkList headers first (front ++ chunk :: back))
    (proper : ProperNodes (front ++ chunk :: back)) :
    ChunkList (headers.setAllocated chunk.start used.toNat) first
      (front ++ { chunk with used := used } :: back) := by
  have distinct := proper.distinct
  simp only [List.map_append, List.map_cons, List.nodup_append,
    List.nodup_cons, List.mem_cons, List.mem_map] at distinct
  constructor
  · rw [list.first_eq]
    cases front <;> simp
  · have links := list.links
    simp only [List.map_append, List.map_cons] at links ⊢
    exact links.congr fun node _ => by simp [Headers.setAllocated]
  · intro other member
    have length := list.length_eq chunk (by simp)
    rw [Headers.setAllocated, Headers.set_apply]
    rcases List.mem_append.mp member with inFront | inRest
    · rw [if_neg (by grind)]
      exact list.bits other (by simp [inFront])
    · rcases List.mem_cons.mp inRest with rfl | inBack
      · rw [if_pos ⟨rfl, rfl⟩, length, headerBits]
        have bound := used.toNat_lt
        simp only
        omega
      · rw [if_neg (by grind)]
        exact list.bits other (by simp [inBack])

theorem absorb {left right : Segment}
    (list : ChunkList headers first (front ++ left :: right :: back))
    (proper : ProperNodes (front ++ left :: right :: back))
    (small : left.len + right.len < 2147483648) :
    ChunkList (headers.absorb left.start right.start) first
      (front ++ { left with len := left.len + right.len } :: back) := by
  have distinct := proper.distinct
  have nonzero := proper.nonzero
  have leftBits := list.bits left (by simp)
  have rightBits := list.bits right (by simp)
  have links := list.links
  have rightNext : headers .next right.start =
      (back.map Segment.start).headD 0 :=
    next_eq (show ChunkList headers first
      ((front ++ [left]) ++ right :: back) by simpa using list)
  simp only [List.map_append, List.map_cons, List.nodup_append,
    List.nodup_cons, List.mem_cons, List.mem_map] at distinct
  constructor
  · rw [list.first_eq]
    cases front <;> simp
  · simp only [List.map_append, List.map_cons] at links ⊢
    apply links.remove
    · simp [Headers.absorb_next, rightNext]
    · cases back <;> grind [Headers.absorb_prev]
    · cases back <;> grind [Headers.absorb_prev]
    · cases back <;> grind [Headers.absorb_prev, Headers.absorb_next]
    · cases back <;> grind [Headers.absorb_prev, Headers.absorb_next]
    · cases back <;> grind [Headers.absorb_prev, Headers.absorb_next]
  · intro chunk member
    have leftSame : { left with len := left.len + right.len }.start =
      left.start := rfl
    rw [Headers.absorb_bits]
    rcases List.mem_append.mp member with inFront | inRest
    · rw [if_neg (by grind)]
      exact list.bits chunk (by simp [inFront])
    · rcases List.mem_cons.mp inRest with rfl | inBack
      · rw [if_pos rfl, leftBits, rightBits]
        simp only [headerBits]
        cases left.used <;> cases right.used <;> simp <;> omega
      · rw [if_neg (by grind)]
        exact list.bits chunk (by simp [inBack])

theorem cut {chunk : Segment} {len : Nat}
    (list : ChunkList headers first (front ++ chunk :: back))
    (proper : ProperNodes (front ++ { chunk with len := len } ::
      ⟨chunk.start + len, chunk.len - len, false⟩ :: back))
    (positive : 0 < len) (le : len ≤ chunk.len) :
    ChunkList (headers.cut chunk.start len) first
      (front ++ { chunk with len := len } ::
        ⟨chunk.start + len, chunk.len - len, false⟩ :: back) := by
  have distinct := proper.distinct
  have nonzero := proper.nonzero
  have small := proper.small { chunk with len := len } (by simp)
  have restSmall := proper.small
    ⟨chunk.start + len, chunk.len - len, false⟩ (by simp)
  have chunkBits := list.bits chunk (by simp)
  have links := list.links
  have chunkNext := list.next_eq
  simp only [List.map_append, List.map_cons, List.nodup_append,
    List.nodup_cons, List.mem_cons, List.mem_map] at distinct
  constructor
  · rw [list.first_eq]
    cases front <;> simp
  · simp only [List.map_append, List.map_cons] at links ⊢
    apply links.insert
    · simp [Headers.cut_next]
    · cases back <;> grind [Headers.cut_prev]
    · cases back <;> grind [Headers.cut_prev]
    · cases back <;> grind [Headers.cut_next]
    · cases back <;> grind [Headers.cut_prev]
    · cases back <;> grind [Headers.cut_prev, Headers.cut_next]
    · cases back <;> grind [Headers.cut_prev, Headers.cut_next]
    · cases back <;> grind [Headers.cut_prev, Headers.cut_next]
  · intro other member
    rw [Headers.cut_bits _ (by omega)]
    rcases List.mem_append.mp member with inFront | inRest
    · rw [if_neg (by grind), if_neg (by grind)]
      exact list.bits other (by simp [inFront])
    · rcases List.mem_cons.mp inRest with rfl | inRest
      · rw [if_pos rfl, chunkBits]
        simp only [headerBits] at small ⊢
        cases chunk.used <;> simp <;> omega
      · rcases List.mem_cons.mp inRest with rfl | inBack
        · rw [if_neg (by simp only; omega), if_pos rfl, chunkBits]
          simp only [headerBits, sub32, uint32] at small restSmall ⊢
          cases chunk.used <;> simp <;> omega
        · rw [if_neg (by grind), if_neg (by grind)]
          exact list.bits other (by simp [inBack])

theorem append {chunks : List Segment} {start len : Nat}
    (list : ChunkList headers first chunks)
    (proper : ProperNodes (chunks ++ [⟨start, len, true⟩])) :
    ChunkList (headers.append ((chunks.map Segment.start).getLastD 0)
        start len)
      (if chunks = [] then start else first)
      (chunks ++ [⟨start, len, true⟩]) := by
  have small := proper.small ⟨start, len, true⟩ (by simp)
  have distinct := proper.distinct
  simp only [List.map_append, List.map_cons, List.map_nil,
    List.nodup_append, List.mem_singleton, List.mem_map] at distinct
  have fresh : ∀ chunk ∈ chunks, chunk.start ≠ start :=
    fun chunk member => distinct.2.2 _ ⟨chunk, member, rfl⟩ _ rfl
  constructor
  · rw [list.first_eq]
    cases chunks <;> simp
  · rcases chunks.eq_nil_or_concat with rfl | ⟨front, last, rfl⟩
    · simp [chain_cons, Headers.append_next, Headers.append_prev]
    · have links := list.links
      have nonzero := proper.nonzero last (by simp)
      rw [List.concat_eq_append] at *
      have lastFresh := fresh last (by simp)
      have frontNodup := distinct.1
      simp only [List.map_append, List.map_cons, List.map_nil,
        List.nodup_append, List.mem_singleton, List.mem_map] at frontNodup
      have otherLast : ∀ chunk ∈ front, chunk.start ≠ last.start :=
        fun chunk member => frontNodup.2.2 _ ⟨chunk, member, rfl⟩ _ rfl
      simp only [List.map_append, List.map_cons, List.map_nil,
        List.getLastD_concat] at links ⊢
      rw [chain_append, List.getLastD_concat]
      refine ⟨links.relink_behind ?_ ?_ ?_, ?_⟩
      · simp [Headers.append_next, lastFresh, nonzero]
      · simp [Headers.append_prev, lastFresh]
      · intro node member
        obtain ⟨chunk, inFront, rfl⟩ := List.mem_map.mp member
        have chunkFresh := fresh chunk (by simp [inFront])
        have chunkOther := otherLast chunk inFront
        simp [Headers.append_next, Headers.append_prev, chunkFresh,
          chunkOther]
      · simp [chain_cons, Headers.append_next, Headers.append_prev]
  · intro other member
    rw [Headers.append_bits]
    rcases List.mem_append.mp member with old | new
    · rw [if_neg (fresh other old)]
      exact list.bits other old
    · obtain rfl := List.mem_singleton.mp new
      rw [if_pos rfl, Nat.mod_eq_of_lt small]
      simp [headerBits]
      omega

theorem drop {chunk : Segment}
    (list : ChunkList headers first (front ++ [chunk]))
    (proper : ProperNodes (front ++ [chunk])) :
    ChunkList (headers.drop ((front.map Segment.start).getLastD 0))
      (if front = [] then 0 else first) front := by
  rcases front.eq_nil_or_concat with rfl | ⟨front, last, rfl⟩
  · exact ⟨by simp, by simp, by simp⟩
  · rw [List.concat_eq_append] at *
    have nonzero := proper.nonzero last (by simp)
    have links := list.links
    have distinct := proper.distinct
    simp only [List.map_append, List.map_cons, List.map_nil,
      List.nodup_append, List.mem_singleton, List.mem_map] at distinct
    have otherLast : ∀ chunk ∈ front, chunk.start ≠ last.start :=
      fun chunk member => distinct.1.2.2 _ ⟨chunk, member, rfl⟩ _ rfl
    rw [Headers.drop, List.map_append, List.map_cons, List.map_nil,
      List.getLastD_concat, if_neg nonzero]
    constructor
    · rw [list.first_eq]
      cases front <;> simp
    · simp only [List.map_append, List.map_cons, List.map_nil] at links ⊢
      rw [chain_append] at links
      refine links.1.relink_behind ?_ ?_ ?_
      · simp
      · simp
      · intro node member
        obtain ⟨chunk, inFront, rfl⟩ := List.mem_map.mp member
        simp [otherLast chunk inFront]
    · intro other member
      simpa using list.bits other (List.mem_append_left _ member)

end ChunkList

end MiniOS
