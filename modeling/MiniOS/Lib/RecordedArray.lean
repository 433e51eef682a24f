import Mathlib.Logic.Function.Basic
import Mathlib.Data.List.Basic

/-!
# Arrays with their stores recorded

An array is a total function of its index, so that a store out of bounds is
not hidden: every index stored to is recorded.  The two loops are known by the
cells they leave and by the indices they record.
-/

namespace RecordedArray

/-- The cells of an array and the indices stored to, the latest first. -/
structure Recorded (α : Type*) where
  cells : Nat → α
  stores : List Nat

namespace Recorded

variable {α : Type*} (array : Recorded α)

def store (index : Nat) (value : α) : Recorded α where
  cells := Function.update array.cells index value
  stores := index :: array.stores

/-- `for (i = 0; i < count; i++) a[i] = a[i + offset];` -/
def copyDown (offset count : Nat) : Recorded α :=
  (List.range count).foldl
    (fun array i => array.store i (array.cells (i + offset))) array

/-- `for (i = first; i < first + count; i++) a[i] = value;` -/
def fillFrom (value : α) (first count : Nat) : Recorded α :=
  (List.range' first count).foldl (fun array i => array.store i value) array

/-- All stores so far were below `bound`. -/
def Within (bound : Nat) : Prop := ∀ index ∈ array.stores, index < bound

variable {array} {bound : Nat}

theorem Within.store {index : Nat} (within : array.Within bound)
    (below : index < bound) (value : α) :
    (array.store index value).Within bound :=
  List.forall_mem_cons.mpr ⟨below, within⟩

variable (array)

theorem copyDown_succ (offset count : Nat) :
    array.copyDown offset (count + 1) =
      (array.copyDown offset count).store count
        ((array.copyDown offset count).cells (count + offset)) := by
  simp [copyDown, List.range_succ]

theorem fillFrom_succ (value : α) (first count : Nat) :
    array.fillFrom value first (count + 1) =
      (array.fillFrom value first count).store (first + count) value := by
  simp [fillFrom, List.range'_concat]

/-- A cell is overwritten only after it was read. -/
theorem copyDown_cells {offset : Nat} (positive : 0 < offset)
    (count index : Nat) :
    (array.copyDown offset count).cells index =
      if index < count then array.cells (index + offset)
      else array.cells index := by
  induction count generalizing index with
  | zero => rfl
  | succ count induction =>
      rw [copyDown_succ]
      by_cases last : index = count
      · subst index
        have later : ¬ count + offset < count := by omega
        simp [store, induction, later]
      · have same : index < count + 1 ↔ index < count := by omega
        simp [store, last, induction, same]

theorem fillFrom_cells (value : α) (first count index : Nat) :
    (array.fillFrom value first count).cells index =
      if first ≤ index ∧ index < first + count then value
      else array.cells index := by
  induction count with
  | zero =>
      have outside : ¬ (first ≤ index ∧ index < first + 0) := by omega
      rw [if_neg outside]
      rfl
  | succ count induction =>
      rw [fillFrom_succ]
      by_cases last : index = first + count
      · subst index
        simp [store]
      · have same : (first ≤ index ∧ index < first + (count + 1)) ↔
            first ≤ index ∧ index < first + count := by omega
        simp [store, last, induction, same]

variable {array}

theorem Within.copyDown (within : array.Within bound) (offset : Nat)
    {count : Nat} (below : count ≤ bound) :
    (array.copyDown offset count).Within bound := by
  induction count with
  | zero => exact within
  | succ count induction =>
      rw [copyDown_succ]
      exact (induction (by omega)).store (by omega) _

theorem Within.fillFrom (within : array.Within bound) (value : α)
    {first count : Nat} (below : first + count ≤ bound) :
    (array.fillFrom value first count).Within bound := by
  induction count with
  | zero => exact within
  | succ count induction =>
      rw [fillFrom_succ]
      exact (induction (by omega)).store (by omega) _

end Recorded

end RecordedArray
