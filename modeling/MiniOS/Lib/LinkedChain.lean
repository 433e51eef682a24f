import Mathlib.Data.List.Basic
import Mathlib.Data.List.Iterate

/-!
# Doubly linked chains

`Chain next prev before nodes behind` says that `nodes` hang together in this
order under two link functions, that the first one points back to `before` and
the last one forward to `behind`.  With the null pointer at both ends it is a
list, with its own ends it is a ring.  An edit of the structure changes the
links of few nodes; the lemmas below say which facts it needs about the links
after the edit.
-/

namespace LinkedChain

variable {α : Type*}

def Chain (next prev : α → α) (before : α) : List α → α → Prop
  | [], _ => True
  | node :: nodes, behind =>
      prev node = before ∧ next node = nodes.headD behind ∧
        Chain next prev node nodes behind

variable {next prev next' prev' : α → α} {before behind : α}

@[simp] theorem chain_nil : Chain next prev before [] behind := trivial

theorem chain_cons {node : α} {nodes : List α} :
    Chain next prev before (node :: nodes) behind ↔
      prev node = before ∧ next node = nodes.headD behind ∧
        Chain next prev node nodes behind :=
  Iff.rfl

theorem chain_append {front back : List α} :
    Chain next prev before (front ++ back) behind ↔
      Chain next prev before front (back.headD behind) ∧
        Chain next prev (front.getLastD before) back behind := by
  induction front generalizing before with
  | nil => simp
  | cons node front induction =>
      have head : (front ++ back).headD behind =
          front.headD (back.headD behind) := by
        cases front <;> rfl
      have last : (node :: front).getLastD before = front.getLastD node := by
        cases front <;> rfl
      simp only [List.cons_append, chain_cons, induction, head, last]
      constructor
      · rintro ⟨backward, forward, left, right⟩
        exact ⟨⟨backward, forward, left⟩, right⟩
      · rintro ⟨⟨backward, forward, left⟩, right⟩
        exact ⟨backward, forward, left, right⟩

theorem Chain.congr {nodes : List α}
    (chain : Chain next prev before nodes behind)
    (same : ∀ node ∈ nodes, next' node = next node ∧ prev' node = prev node) :
    Chain next' prev' before nodes behind := by
  induction nodes generalizing before with
  | nil => exact chain_nil
  | cons node nodes induction =>
      obtain ⟨backward, forward, rest⟩ := chain
      obtain ⟨sameNext, samePrev⟩ := same node (by simp)
      exact ⟨samePrev.trans backward, sameNext.trans forward,
        induction rest fun other member => same other (by simp [member])⟩

/-- Only the back pointer of the first node is rewritten. -/
theorem Chain.relink_before {nodes : List α} {before' : α}
    (chain : Chain next prev before nodes behind)
    (head : ∀ node ∈ nodes.head?, prev' node = before')
    (sameNext : ∀ node ∈ nodes, next' node = next node)
    (samePrev : ∀ node ∈ nodes.tail, prev' node = prev node) :
    Chain next' prev' before' nodes behind := by
  cases nodes with
  | nil => exact chain_nil
  | cons node nodes =>
      obtain ⟨_, forward, rest⟩ := chain
      refine ⟨head node (by simp), (sameNext node (by simp)).trans forward, ?_⟩
      exact rest.congr fun other member =>
        ⟨sameNext other (by simp [member]), samePrev other member⟩

/-- Only the forward pointer of the last node is rewritten. -/
theorem Chain.relink_behind {nodes : List α} {last behind' : α}
    (chain : Chain next prev before (nodes ++ [last]) behind)
    (lastNext : next' last = behind') (lastPrev : prev' last = prev last)
    (same : ∀ node ∈ nodes, next' node = next node ∧ prev' node = prev node) :
    Chain next' prev' before (nodes ++ [last]) behind' := by
  rw [chain_append] at chain ⊢
  obtain ⟨front, backward, _, _⟩ := chain
  exact ⟨front.congr same, lastPrev.trans backward, lastNext, chain_nil⟩

theorem Chain.insert {front back : List α} {left fresh : α}
    (chain : Chain next prev before (front ++ left :: back) behind)
    (leftNext : next' left = fresh) (leftPrev : prev' left = prev left)
    (freshPrev : prev' fresh = left)
    (freshNext : next' fresh = back.headD behind)
    (backPrev : ∀ node ∈ back.head?, prev' node = fresh)
    (sameFront : ∀ node ∈ front,
      next' node = next node ∧ prev' node = prev node)
    (sameNext : ∀ node ∈ back, next' node = next node)
    (samePrev : ∀ node ∈ back.tail, prev' node = prev node) :
    Chain next' prev' before (front ++ left :: fresh :: back) behind := by
  rw [chain_append] at chain ⊢
  obtain ⟨frontChain, backward, _, backChain⟩ := chain
  exact ⟨frontChain.congr sameFront, leftPrev.trans backward, leftNext,
    freshPrev, freshNext,
    backChain.relink_before backPrev sameNext samePrev⟩

theorem Chain.remove {front back : List α} {left gone : α}
    (chain : Chain next prev before (front ++ left :: gone :: back) behind)
    (leftNext : next' left = back.headD behind)
    (leftPrev : prev' left = prev left)
    (backPrev : ∀ node ∈ back.head?, prev' node = left)
    (sameFront : ∀ node ∈ front,
      next' node = next node ∧ prev' node = prev node)
    (sameNext : ∀ node ∈ back, next' node = next node)
    (samePrev : ∀ node ∈ back.tail, prev' node = prev node) :
    Chain next' prev' before (front ++ left :: back) behind := by
  rw [chain_append] at chain ⊢
  obtain ⟨frontChain, backward, _, _, _, backChain⟩ := chain
  exact ⟨frontChain.congr sameFront, leftPrev.trans backward, leftNext,
    backChain.relink_before backPrev sameNext samePrev⟩

/-! ## Rings -/

theorem Chain.relink {nodes : List α} {before' behind' : α}
    (chain : Chain next prev before nodes behind)
    (head : ∀ node ∈ nodes.head?, prev' node = before')
    (last : ∀ node ∈ nodes.getLast?, next' node = behind')
    (samePrev : ∀ node ∈ nodes.tail, prev' node = prev node)
    (sameNext : ∀ node ∈ nodes.dropLast, next' node = next node) :
    Chain next' prev' before' nodes behind' := by
  induction nodes generalizing before before' with
  | nil => exact chain_nil
  | cons node nodes induction =>
      obtain ⟨_, forward, rest⟩ := chain
      refine ⟨head node (by simp), ?_, ?_⟩
      · cases nodes with
        | nil => exact last node (by simp)
        | cons second others =>
            rw [sameNext node (by simp)]
            exact forward
      · cases nodes with
        | nil => exact chain_nil
        | cons second others =>
            obtain ⟨backward, _, _⟩ := id rest
            apply induction rest
            · intro other member
              cases member
              rw [samePrev second (by simp)]
              exact backward
            · intro other member
              exact last other (by simpa using member)
            · intro other member
              exact samePrev other (List.mem_cons_of_mem second member)
            · intro other member
              exact sameNext other (by simp [member])

/-- A node is linked in between the last node of a ring and the first. -/
theorem Chain.ring_concat {first fresh : α} {nodes : List α}
    (ring : Chain next prev (nodes.getLastD first) (first :: nodes) first)
    (firstPrev : prev' first = fresh)
    (lastNext : next' (nodes.getLastD first) = fresh)
    (freshNext : next' fresh = first)
    (freshPrev : prev' fresh = nodes.getLastD first)
    (samePrev : ∀ node ∈ nodes, prev' node = prev node)
    (sameNext : ∀ node ∈ (first :: nodes).dropLast, next' node = next node) :
    Chain next' prev' fresh (first :: nodes ++ [fresh]) first := by
  have last : (first :: nodes).getLastD fresh = nodes.getLastD first := by
    cases nodes <;> rfl
  rw [chain_append, last]
  refine ⟨?_, freshPrev, freshNext, chain_nil⟩
  apply ring.relink
  · intro node member
    cases member
    exact firstPrev
  · intro node member
    rw [List.getLast?_cons] at member
    cases member
    rw [← List.getLastD_eq_getLast?]
    exact lastNext
  · exact samePrev
  · exact sameNext

theorem Chain.iterate_next {node : α} {nodes : List α}
    (chain : Chain next prev before (node :: nodes) behind) :
    List.iterate next node (nodes.length + 1) = node :: nodes ∧
      Nat.iterate next (nodes.length + 1) node = behind := by
  induction nodes generalizing node before with
  | nil =>
      obtain ⟨_, forward, _⟩ := chain
      exact ⟨rfl, forward⟩
  | cons second nodes induction =>
      obtain ⟨_, forward, rest⟩ := chain
      have forward : next node = second := forward
      obtain ⟨listed, closed⟩ := induction rest
      rw [List.length_cons, List.iterate, Function.iterate_succ_apply, forward]
      exact ⟨congrArg (node :: ·) listed, closed⟩

/-- The last node leads out of the chain. -/
theorem Chain.next_last {nodes : List α} {last : α}
    (chain : Chain next prev before nodes behind)
    (final : last ∈ nodes.getLast?) : next last = behind := by
  obtain ⟨front, rfl⟩ := List.getLast?_eq_some_iff.mp final
  rw [chain_append] at chain
  obtain ⟨_, _, forward, _⟩ := chain
  exact forward

/-- In a ring the forward links stay among its nodes. -/
theorem Chain.ring_next_mem {first node : α} {nodes : List α}
    (ring : Chain next prev before (first :: nodes) first)
    (member : node ∈ first :: nodes) : next node ∈ first :: nodes := by
  obtain ⟨front, back, split⟩ := List.append_of_mem member
  rw [split, chain_append] at ring
  obtain ⟨_, _, forward, _⟩ := ring
  rw [forward]
  cases back with
  | nil => exact List.mem_cons_self
  | cons second others =>
      rw [split]
      simp

/-- In a ring the two link functions undo each other. -/
theorem Chain.ring_inverse {first node : α} {nodes : List α}
    (ring : Chain next prev (nodes.getLastD first) (first :: nodes) first)
    (member : node ∈ first :: nodes) :
    prev (next node) = node ∧ next (prev node) = node := by
  have last : (first :: nodes).getLast? = some (nodes.getLastD first) := by
    rw [List.getLast?_cons, List.getLastD_eq_getLast?]
  obtain ⟨front, back, split⟩ := List.append_of_mem member
  have closing := ring.next_last last
  have opening : prev first = nodes.getLastD first := ring.1
  rw [split, chain_append] at ring
  obtain ⟨frontChain, backward, forward, backChain⟩ := ring
  constructor
  · rw [forward]
    cases back with
    | nil =>
        rw [split] at last
        simp only [List.getLast?_append, List.getLast?_singleton,
          Option.some_or, Option.some.injEq] at last
        rw [List.headD_nil, opening, last]
    | cons second others => exact backChain.1
  · rw [backward]
    rcases List.eq_nil_or_concat front with rfl | ⟨others, last', rfl⟩
    · cases split
      exact closing
    · simp only [List.concat_eq_append, List.getLastD_concat]
      exact frontChain.next_last (by simp)

end LinkedChain
