import Mathlib.Data.List.Chain

/-!
# Tilings of an interval by marked segments

An allocator cuts the interval from `base` on into consecutive segments, each
in use or free.  A cut is canonical when no two free segments touch and the
last segment is in use.  The free segments of a canonical cut are forced by
the used ones: `Canonical.unique` turns questions about the order of frees
into questions about the set of blocks in use.  A segment is put in use by
`Canonical.take`, `Canonical.take_front` and `Canonical.append`; it is given
back through a `Hole`, which is merged with its free neighbours.
-/

namespace Tiling

/-- `len` cells from `start` on, in use or free. -/
structure Segment where
  start : Nat
  len : Nat
  used : Bool
  deriving DecidableEq, Repr

/-- The first cell behind a segment. -/
def Segment.stop (segment : Segment) : Nat := segment.start + segment.len

/-- The segments follow each other without gap from `base` to `stop`. -/
def Tiles : Nat → List Segment → Nat → Prop
  | base, [], stop => base = stop
  | base, segment :: rest, stop =>
      segment.start = base ∧ Tiles segment.stop rest stop

/-- The end of the last segment, `base` when there is none. -/
def endOf (base : Nat) (segments : List Segment) : Nat :=
  match segments.getLast? with
  | some segment => segment.stop
  | none => base

/-- Of two touching segments one is in use. -/
def Coalesced (segments : List Segment) : Prop :=
  segments.IsChain fun left right => left.used ∨ right.used

/-- A gapless cut into segments of `least` cells or more, without superfluous
free segments. -/
structure Canonical (least base : Nat) (segments : List Segment) : Prop where
  tiles : Tiles base segments (endOf base segments)
  large : ∀ segment ∈ segments, least ≤ segment.len
  coalesced : Coalesced segments
  last_used : ∀ segment ∈ segments.getLast?, segment.used

/-- The segments in use, in order. -/
def usedOf (segments : List Segment) : List Segment :=
  segments.filter Segment.used

@[simp] theorem endOf_nil (base : Nat) : endOf base [] = base := rfl

@[simp] theorem endOf_concat (base : Nat) (segments : List Segment)
    (segment : Segment) :
    endOf base (segments ++ [segment]) = segment.stop := by
  simp [endOf]

@[simp] theorem endOf_cons (base : Nat) (segment : Segment)
    (segments : List Segment) :
    endOf base (segment :: segments) = endOf segment.stop segments := by
  unfold endOf
  rw [List.getLast?_cons]
  cases segments.getLast? <;> rfl

theorem endOf_append_cons (base : Nat) (front : List Segment)
    (segment : Segment) (back : List Segment) :
    endOf base (front ++ segment :: back) = endOf segment.stop back := by
  induction front generalizing base with
  | nil => simp
  | cons first front induction => simp [induction]

theorem tiles_append {base stop : Nat} {front back : List Segment} :
    Tiles base (front ++ back) stop ↔
      ∃ middle, Tiles base front middle ∧ Tiles middle back stop := by
  induction front generalizing base with
  | nil => simp [Tiles]
  | cons segment front induction =>
      simp only [List.cons_append, Tiles, induction]
      constructor
      · rintro ⟨first, middle, left, right⟩
        exact ⟨middle, ⟨first, left⟩, right⟩
      · rintro ⟨middle, ⟨first, left⟩, right⟩
        exact ⟨first, middle, left, right⟩

theorem Tiles.endOf_eq {base stop : Nat} {segments : List Segment}
    (tiles : Tiles base segments stop) : endOf base segments = stop := by
  induction segments generalizing base with
  | nil => exact tiles
  | cons segment segments induction =>
      rw [endOf_cons]
      exact induction tiles.2

theorem Tiles.base_le {base stop : Nat} {segments : List Segment}
    (tiles : Tiles base segments stop) : base ≤ stop := by
  induction segments generalizing base with
  | nil => exact Nat.le_of_eq tiles
  | cons segment segments induction =>
      have first := tiles.1
      have rest := induction tiles.2
      unfold Segment.stop at rest
      omega

theorem Tiles.length_le {least base stop : Nat} {segments : List Segment}
    (tiles : Tiles base segments stop)
    (large : ∀ segment ∈ segments, least ≤ segment.len) :
    base + least * segments.length ≤ stop := by
  induction segments generalizing base with
  | nil => exact Nat.le_of_eq tiles
  | cons segment segments induction =>
      have first := tiles.1
      have head := large segment (by simp)
      have rest := induction tiles.2 fun other member =>
        large other (by simp [member])
      unfold Segment.stop at rest
      rw [List.length_cons, Nat.mul_succ]
      omega

theorem Tiles.bounds {base stop : Nat} {segments : List Segment}
    (tiles : Tiles base segments stop) {segment : Segment}
    (member : segment ∈ segments) :
    base ≤ segment.start ∧ segment.stop ≤ stop := by
  induction segments generalizing base with
  | nil => simp at member
  | cons head segments induction =>
      have first := tiles.1
      rcases List.mem_cons.mp member with rfl | later
      · exact ⟨Nat.le_of_eq first.symm, tiles.2.base_le⟩
      · have rest := induction tiles.2 later
        unfold Segment.stop at rest ⊢
        omega

theorem Tiles.ordered {base stop : Nat} {segments : List Segment}
    (tiles : Tiles base segments stop) :
    segments.Pairwise fun left right => left.stop ≤ right.start := by
  induction segments generalizing base with
  | nil => exact .nil
  | cons segment segments induction =>
      exact .cons (fun later member => (tiles.2.bounds member).1)
        (induction tiles.2)

theorem Tiles.disjoint {base stop : Nat} {segments : List Segment}
    (tiles : Tiles base segments stop) {left right : Segment}
    (leftMember : left ∈ segments) (rightMember : right ∈ segments) :
    left = right ∨ left.stop ≤ right.start ∨ right.stop ≤ left.start := by
  induction segments generalizing base with
  | nil => simp at leftMember
  | cons segment segments induction =>
      rcases List.mem_cons.mp leftMember with rfl | leftLater
      · rcases List.mem_cons.mp rightMember with rfl | rightLater
        · exact .inl rfl
        · exact .inr (.inl (tiles.2.bounds rightLater).1)
      · rcases List.mem_cons.mp rightMember with rfl | rightLater
        · exact .inr (.inr (tiles.2.bounds leftLater).1)
        · exact induction tiles.2 leftLater rightLater

theorem Coalesced.tail {segment : Segment} {segments : List Segment}
    (coalesced : Coalesced (segment :: segments)) : Coalesced segments :=
  List.IsChain.tail coalesced

namespace Canonical

variable {least base : Nat} {segments others : List Segment}

theorem tail {segment : Segment}
    (canonical : Canonical least base (segment :: segments)) :
    Canonical least segment.stop segments where
  tiles := by simpa using canonical.tiles.2
  large := fun other member => canonical.large other (by simp [member])
  coalesced := canonical.coalesced.tail
  last_used := by
    intro last isLast
    apply canonical.last_used
    rw [List.getLast?_cons, isLast]
    simp

/-- A free segment is followed by a used one that starts where it ends. -/
theorem free_head {segment : Segment}
    (canonical : Canonical least base (segment :: segments))
    (free : segment.used = false) :
    ∃ next rest, segments = next :: rest ∧ next.used = true ∧
      next.start = segment.stop := by
  cases segments with
  | nil =>
      have used := canonical.last_used segment (by simp)
      simp [free] at used
  | cons next rest =>
      have touching := List.IsChain.rel canonical.coalesced
      refine ⟨next, rest, rfl, ?_, canonical.tiles.2.1⟩
      simpa [free] using touching

/-- In a canonical cut the first used segment tells whether the cut begins
with a free one. -/
theorem first_used {segment : Segment}
    (canonical : Canonical least base (segment :: segments)) :
    ∃ first rest, usedOf (segment :: segments) = first :: rest ∧
      (segment.used = true → first = segment) ∧
      (segment.used = false → first.start = segment.stop) := by
  cases mark : segment.used with
  | true =>
      refine ⟨segment, usedOf segments, ?_, fun _ => rfl, by simp⟩
      simp [usedOf, mark]
  | false =>
      obtain ⟨next, rest, rfl, used, start⟩ := canonical.free_head mark
      refine ⟨next, usedOf rest, ?_, by simp, fun _ => start⟩
      simp [usedOf, mark, used]

theorem eq_nil (canonical : Canonical least base segments)
    (none : usedOf segments = []) : segments = [] := by
  cases segments with
  | nil => rfl
  | cons segment segments =>
      obtain ⟨first, rest, used, _⟩ := canonical.first_used
      rw [used] at none
      cases none

theorem head_eq (positive : 0 < least) {left right : Segment}
    (leftCanonical : Canonical least base (left :: segments))
    (rightCanonical : Canonical least base (right :: others))
    (same : usedOf (left :: segments) = usedOf (right :: others)) :
    left = right := by
  obtain ⟨leftFirst, leftRest, leftUsed, leftMark, leftFree⟩ :=
    leftCanonical.first_used
  obtain ⟨rightFirst, rightRest, rightUsed, rightMark, rightFree⟩ :=
    rightCanonical.first_used
  have firstEq : leftFirst = rightFirst := by
    rw [leftUsed, rightUsed] at same
    exact (List.cons.inj same).1
  have leftStart := leftCanonical.tiles.1
  have rightStart := rightCanonical.tiles.1
  have leftLarge := leftCanonical.large left (by simp)
  have rightLarge := rightCanonical.large right (by simp)
  unfold Segment.stop at leftFree rightFree
  cases leftUse : left.used <;> cases rightUse : right.used
  · have leftEnd := leftFree leftUse
    have rightEnd := rightFree rightUse
    rw [firstEq] at leftEnd
    cases left
    cases right
    simp only [Segment.mk.injEq] at *
    exact ⟨by omega, by omega, leftUse.trans rightUse.symm⟩
  · have leftEnd := leftFree leftUse
    rw [firstEq, rightMark rightUse] at leftEnd
    omega
  · have rightEnd := rightFree rightUse
    rw [← firstEq, leftMark leftUse] at rightEnd
    omega
  · rw [← leftMark leftUse, ← rightMark rightUse, firstEq]

/-- The segments in use determine a canonical cut. -/
theorem unique (positive : 0 < least)
    (left : Canonical least base segments)
    (right : Canonical least base others)
    (same : usedOf segments = usedOf others) : segments = others := by
  induction segments generalizing base others with
  | nil =>
      exact (right.eq_nil same.symm).symm
  | cons segment segments induction =>
      cases others with
      | nil => exact left.eq_nil same
      | cons other others =>
          have headEq : segment = other := left.head_eq positive right same
          subst other
          have restSame : usedOf segments = usedOf others := by
            unfold usedOf at same ⊢
            rw [List.filter_cons, List.filter_cons] at same
            split at same
            · exact (List.cons.inj same).2
            · exact same
          rw [induction left.tail right.tail restSame]

end Canonical

theorem tiles_append_cons {base stop : Nat} {front back : List Segment}
    {segment : Segment} :
    Tiles base (front ++ segment :: back) stop ↔
      Tiles base front segment.start ∧ Tiles segment.stop back stop := by
  rw [tiles_append]
  constructor
  · rintro ⟨middle, left, rfl, right⟩
    exact ⟨left, right⟩
  · rintro ⟨left, right⟩
    exact ⟨segment.start, left, rfl, right⟩

theorem coalesced_append_cons {front back : List Segment}
    {segment : Segment} :
    Coalesced (front ++ segment :: back) ↔
      Coalesced front ∧ Coalesced back ∧
        (∀ prev ∈ front.getLast?, prev.used ∨ segment.used) ∧
        (∀ next ∈ back.head?, segment.used ∨ next.used) := by
  unfold Coalesced
  rw [List.isChain_append, List.isChain_cons]
  simp only [List.head?_cons, Option.mem_some_iff, forall_eq']
  tauto

theorem last_append_cons {front back : List Segment} {segment : Segment}
    {P : Segment → Prop} :
    (∀ last ∈ (front ++ segment :: back).getLast?, P last) ↔
      (back = [] → P segment) ∧ ∀ last ∈ back.getLast?, P last := by
  rw [List.getLast?_append_cons, List.getLast?_cons]
  cases back using List.reverseRecOn <;> simp

section Edits

variable {least base : Nat} {front back segments : List Segment}
variable {segment : Segment}

theorem Tiles.canonical {stop : Nat} (tiles : Tiles base segments stop)
    (large : ∀ segment ∈ segments, least ≤ segment.len)
    (coalesced : Coalesced segments)
    (last_used : ∀ segment ∈ segments.getLast?, segment.used) :
    Canonical least base segments :=
  ⟨tiles.endOf_eq.symm ▸ tiles, large, coalesced, last_used⟩

namespace Canonical

theorem take (canonical : Canonical least base (front ++ segment :: back)) :
    Canonical least base
      (front ++ { segment with used := true } :: back) := by
  have tiles := tiles_append_cons.mp canonical.tiles
  have coalesced := coalesced_append_cons.mp canonical.coalesced
  have last := last_append_cons.mp canonical.last_used
  refine Tiles.canonical (tiles_append_cons.mpr tiles) ?_ ?_ ?_
  · intro other member
    rcases List.mem_append.mp member with inFront | inRest
    · exact canonical.large other (by simp [inFront])
    · rcases List.mem_cons.mp inRest with rfl | inBack
      · exact canonical.large segment (by simp)
      · exact canonical.large other (by simp [inBack])
  · rw [coalesced_append_cons]
    exact ⟨coalesced.1, coalesced.2.1, by simp, by simp⟩
  · rw [last_append_cons]
    exact ⟨fun _ => rfl, last.2⟩

theorem take_front {need : Nat}
    (canonical : Canonical least base (front ++ segment :: back))
    (free : segment.used = false) (enough : least ≤ need)
    (rest : least + need ≤ segment.len) :
    Canonical least base (front ++ ⟨segment.start, need, true⟩ ::
      ⟨segment.start + need, segment.len - need, false⟩ :: back) := by
  have tiles := tiles_append_cons.mp canonical.tiles
  have coalesced := coalesced_append_cons.mp canonical.coalesced
  have last := last_append_cons.mp canonical.last_used
  have stopEq : segment.start + need + (segment.len - need) =
      segment.stop := by
    unfold Segment.stop
    omega
  have restTiles : Tiles (segment.start + need)
      (⟨segment.start + need, segment.len - need, false⟩ :: back)
      (endOf base (front ++ segment :: back)) := by
    refine ⟨rfl, ?_⟩
    change Tiles (segment.start + need + (segment.len - need)) _ _
    exact stopEq ▸ tiles.2
  refine Tiles.canonical (tiles_append_cons.mpr ⟨tiles.1, restTiles⟩)
    ?_ ?_ ?_
  · intro other member
    rcases List.mem_append.mp member with inFront | inRest
    · exact canonical.large other (by simp [inFront])
    · rcases List.mem_cons.mp inRest with rfl | inRest
      · exact enough
      · rcases List.mem_cons.mp inRest with rfl | inBack
        · simp only
          omega
        · exact canonical.large other (by simp [inBack])
  · rw [coalesced_append_cons]
    refine ⟨coalesced.1, ?_, by simp, by simp⟩
    refine List.isChain_cons.mpr ⟨fun next isNext => ?_, coalesced.2.1⟩
    simpa [free] using coalesced.2.2.2 next isNext
  · rw [last_append_cons, List.getLast?_cons]
    cases back using List.reverseRecOn with
    | nil => simp [last.1 rfl] at free
    | append_singleton back final => simpa using last.2

theorem append {need : Nat} (canonical : Canonical least base segments)
    (enough : least ≤ need) :
    Canonical least base
      (segments ++ [⟨endOf base segments, need, true⟩]) := by
  refine Tiles.canonical
    (tiles_append_cons.mpr ⟨canonical.tiles, rfl⟩) ?_ ?_ ?_
  · intro other member
    rcases List.mem_append.mp member with old | new
    · exact canonical.large other old
    · rw [List.mem_singleton.mp new]
      exact enough
  · rw [coalesced_append_cons]
    exact ⟨canonical.coalesced, .nil, by simp, by simp⟩
  · rw [last_append_cons]
    exact ⟨fun _ => rfl, by simp⟩

end Canonical

/-- A cut that is canonical but for the free segment `hole`, which may touch
other free ones. -/
structure Hole (least base : Nat) (front : List Segment) (hole : Segment)
    (back : List Segment) : Prop where
  tiles : Tiles base (front ++ hole :: back) (endOf hole.stop back)
  large : ∀ segment ∈ front ++ hole :: back, least ≤ segment.len
  free : hole.used = false
  front_coalesced : Coalesced front
  back_coalesced : Coalesced back
  last_used : ∀ segment ∈ back.getLast?, segment.used

theorem Canonical.release
    (canonical : Canonical least base (front ++ segment :: back)) :
    Hole least base front { segment with used := false } back := by
  have tiles := canonical.tiles
  rw [endOf_append_cons, tiles_append_cons] at tiles
  have coalesced := coalesced_append_cons.mp canonical.coalesced
  refine ⟨tiles_append_cons.mpr tiles, ?_, rfl,
    coalesced.1, coalesced.2.1, (last_append_cons.mp canonical.last_used).2⟩
  intro other member
  rcases List.mem_append.mp member with inFront | inRest
  · exact canonical.large other (by simp [inFront])
  · rcases List.mem_cons.mp inRest with rfl | inBack
    · exact canonical.large segment (by simp)
    · exact canonical.large other (by simp [inBack])

namespace Hole

variable {hole : Segment}

theorem next_stop {next : Segment}
    (loose : Hole least base front hole (next :: back)) :
    hole.start + (hole.len + next.len) = next.stop := by
  have nextStart := (tiles_append_cons.mp loose.tiles).2.1
  unfold Segment.stop at nextStart ⊢
  omega

theorem prev_stop {prev : Segment}
    (loose : Hole least base (front ++ [prev]) hole back) :
    prev.start + (prev.len + hole.len) = hole.stop := by
  have tiles := (tiles_append_cons.mp loose.tiles).1
  have holeStart : prev.stop = hole.start := (tiles_append_cons.mp tiles).2
  unfold Segment.stop at holeStart ⊢
  omega

/-- The hole is merged with the free segment behind it, which is followed by
one in use. -/
theorem mergeNext {next : Segment}
    (loose : Hole least base front hole (next :: back))
    (nextFree : next.used = false) :
    Hole least base front { hole with len := hole.len + next.len } back ∧
      back ≠ [] ∧ ∀ other ∈ back.head?, other.used := by
  have tiles := tiles_append_cons.mp loose.tiles
  have last : ∀ last ∈ ([] ++ next :: back).getLast?, last.used :=
    loose.last_used
  rw [last_append_cons] at last
  have nonempty : back ≠ [] := by
    rintro rfl
    simp [nextFree] at last
  have touching := (List.isChain_cons.mp loose.back_coalesced).1
  refine ⟨⟨?_, ?_, loose.free, loose.front_coalesced,
    loose.back_coalesced.tail, last.2⟩, nonempty, ?_⟩
  · rw [tiles_append_cons]
    refine ⟨tiles.1, ?_⟩
    have rest := tiles.2.2
    rw [endOf_cons] at rest
    change Tiles (hole.start + (hole.len + next.len)) back
      (endOf (hole.start + (hole.len + next.len)) back)
    rwa [loose.next_stop]
  · intro other member
    rcases List.mem_append.mp member with inFront | inRest
    · exact loose.large other (by simp [inFront])
    · rcases List.mem_cons.mp inRest with rfl | inBack
      · exact (loose.large hole (by simp)).trans (Nat.le_add_right _ _)
      · exact loose.large other (by simp [inBack])
  · intro other isNext
    simpa [nextFree] using touching other isNext

/-- The hole is merged with the free segment before it, which follows one in
use. -/
theorem mergePrev {prev : Segment}
    (loose : Hole least base (front ++ [prev]) hole back)
    (prevFree : prev.used = false) :
    Hole least base front { prev with len := prev.len + hole.len } back ∧
      ∀ other ∈ front.getLast?, other.used := by
  have tiles := tiles_append_cons.mp loose.tiles
  have frontTiles := tiles_append_cons.mp tiles.1
  have coalesced := coalesced_append_cons.mp loose.front_coalesced
  refine ⟨⟨?_, ?_, prevFree, coalesced.1, loose.back_coalesced,
    loose.last_used⟩, ?_⟩
  · rw [tiles_append_cons]
    refine ⟨frontTiles.1, ?_⟩
    change Tiles (prev.start + (prev.len + hole.len)) back
      (endOf (prev.start + (prev.len + hole.len)) back)
    rw [loose.prev_stop]
    exact tiles.2
  · intro other member
    rcases List.mem_append.mp member with inFront | inRest
    · exact loose.large other (by simp [inFront])
    · rcases List.mem_cons.mp inRest with rfl | inBack
      · exact (loose.large prev (by simp)).trans (Nat.le_add_right _ _)
      · exact loose.large other (by simp [inBack])
  · intro other isPrev
    simpa [prevFree] using coalesced.2.2.1 other isPrev

/-- Between segments in use the hole is one of the cut. -/
theorem settle (loose : Hole least base front hole back)
    (prevUsed : ∀ prev ∈ front.getLast?, prev.used)
    (nextUsed : ∀ next ∈ back.head?, next.used) (nonempty : back ≠ []) :
    Canonical least base (front ++ hole :: back) := by
  refine loose.tiles.canonical loose.large ?_ ?_
  · rw [coalesced_append_cons]
    exact ⟨loose.front_coalesced, loose.back_coalesced,
      fun prev isPrev => .inl (prevUsed prev isPrev),
      fun next isNext => .inr (nextUsed next isNext)⟩
  · rw [last_append_cons]
    exact ⟨fun empty => absurd empty nonempty, loose.last_used⟩

theorem trim (loose : Hole least base front hole [])
    (prevUsed : ∀ prev ∈ front.getLast?, prev.used) :
    Canonical least base front ∧ endOf base front = hole.start := by
  have tiles := (tiles_append_cons.mp loose.tiles).1
  exact ⟨tiles.canonical
    (fun other member => loose.large other (by simp [member]))
    loose.front_coalesced prevUsed, tiles.endOf_eq⟩

end Hole

end Edits

end Tiling
