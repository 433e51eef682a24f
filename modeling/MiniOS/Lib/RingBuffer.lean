import Mathlib.Data.List.Basic
import Mathlib.Logic.Function.Basic

/-!
# Ring buffers

The `count` elements of a ring buffer stand in its slots from `head` on, around
the end.  A bounded queue says what such a buffer is for: it is known by what
was accepted and by what was obtained.
-/

namespace RingBuffer

variable {α : Type*} {capacity : Nat}

/-- The slot after `position`. -/
def advance (capacity position : Nat) : Nat :=
  if position + 1 = capacity then 0 else position + 1

/-- The elements of `count` slots from `head` on. -/
def contents (slots : Nat → α) (capacity head count : Nat) : List α :=
  (List.range count).map fun i => slots ((head + i) % capacity)

theorem advance_lt {position : Nat} (inside : position < capacity) :
    advance capacity position < capacity := by
  unfold advance
  split <;> omega

theorem advance_eq_mod {position : Nat} (inside : position < capacity) :
    advance capacity position = (position + 1) % capacity := by
  unfold advance
  by_cases last : position + 1 = capacity
  · rw [if_pos last, last, Nat.mod_self]
  · rw [if_neg last, Nat.mod_eq_of_lt (by omega)]

section Contents

variable (slots : Nat → α) {head count : Nat}

/-- The first element leaves when the head advances. -/
theorem contents_succ (inside : head < capacity) :
    contents slots capacity head (count + 1) =
      slots head :: contents slots capacity (advance capacity head) count := by
  have shifted : ∀ i, (head + (i + 1)) % capacity =
      (advance capacity head + i) % capacity := by
    intro i
    rw [advance_eq_mod inside, Nat.mod_add_mod]
    congr 1
    omega
  simp [contents, List.range_succ_eq_map, Nat.mod_eq_of_lt inside,
    Function.comp_def, shifted]

theorem slot_ne {i j : Nat} (less : i < j) (turn : j < capacity) :
    (head + i) % capacity ≠ (head + j) % capacity := by
  intro same
  have difference := Nat.sub_mod_eq_zero_of_mod_eq same.symm
  rw [show head + j - (head + i) = j - i by omega,
    Nat.mod_eq_of_lt (by omega)] at difference
  omega

/-- A store into the slot after the last element appends. -/
theorem contents_store (room : count < capacity) (value : α) :
    contents (Function.update slots ((head + count) % capacity) value)
        capacity head (count + 1) =
      contents slots capacity head count ++ [value] := by
  have kept : ∀ i ∈ List.range count,
      Function.update slots ((head + count) % capacity) value
        ((head + i) % capacity) = slots ((head + i) % capacity) := by
    intro i below
    exact Function.update_of_ne (slot_ne (List.mem_range.mp below) room) _ _
  simp only [contents, List.range_succ, List.map_append, List.map_singleton,
    Function.update_self]
  rw [List.map_congr_left kept]

end Contents

/-- A queue of bounded capacity by its history. -/
structure Fifo (α : Type*) where
  accepted : List α
  obtained : List α

namespace Fifo

variable (capacity) (q : Fifo α)

def empty : Fifo α := ⟨[], []⟩

/-- What was accepted and not yet obtained. -/
def waiting : List α := q.accepted.drop q.obtained.length

/-- An element is accepted unless the queue is full. -/
def push (value : α) : Fifo α :=
  if q.waiting.length < capacity then
    { q with accepted := q.accepted ++ [value] }
  else q

/-- A reader obtained an element. -/
def pop (value : α) : Fifo α := { q with obtained := q.obtained ++ [value] }

/-- The reader obtained a prefix of what was accepted. -/
def Ordered : Prop := q.obtained <+: q.accepted

variable {capacity q}

theorem Ordered.accepted_eq (ordered : q.Ordered) :
    q.accepted = q.obtained ++ q.waiting := by
  obtain ⟨rest, whole⟩ := ordered
  rw [waiting, ← whole, List.drop_left]

theorem ordered_of_accepted_eq {rest : List α}
    (whole : q.accepted = q.obtained ++ rest) :
    q.Ordered ∧ q.waiting = rest :=
  ⟨⟨rest, whole.symm⟩, by rw [waiting, whole, List.drop_left]⟩

theorem Ordered.push_of_room (ordered : q.Ordered) (value : α)
    (room : q.waiting.length < capacity) :
    (q.push capacity value).Ordered ∧
      (q.push capacity value).waiting = q.waiting ++ [value] := by
  apply ordered_of_accepted_eq
  rw [push, if_pos room]
  simp only [ordered.accepted_eq, List.append_assoc]

theorem push_of_full (value : α) (full : capacity ≤ q.waiting.length) :
    q.push capacity value = q :=
  if_neg (by omega)

theorem Ordered.pop (ordered : q.Ordered) {value : α} {rest : List α}
    (first : q.waiting = value :: rest) :
    (q.pop value).Ordered ∧ (q.pop value).waiting = rest := by
  apply ordered_of_accepted_eq
  simp [Fifo.pop, ordered.accepted_eq, first]

end Fifo

end RingBuffer
