import Mathlib.Logic.Function.Basic

/-!
# Finite maps under a log of assignments

A partial map is described by a starting map and the assignments made since.
`after` reads it off the log: the last assignment to a key decides, and a key
that was never assigned keeps its start.  `after_cons` is the operational
reading, one update at a time.
-/

namespace AssignmentLog

variable {κ ν : Type*} [DecidableEq κ]

/-- The value of `key` after `log`; an entry with `none` removes its key. -/
def after (start : κ → Option ν) (log : List (κ × Option ν)) (key : κ) :
    Option ν :=
  match (log.filter fun entry => entry.1 = key).getLast? with
  | some entry => entry.2
  | none => start key

@[simp] theorem after_nil (start : κ → Option ν) : after start [] = start := by
  funext key
  simp [after]

theorem after_cons (start : κ → Option ν) (entry : κ × Option ν)
    (log : List (κ × Option ν)) :
    after start (entry :: log) =
      after (Function.update start entry.1 entry.2) log := by
  funext key
  unfold after
  by_cases same : entry.1 = key
  · subst key
    simp only [List.filter_cons, decide_true, if_true, List.getLast?_cons,
      Function.update_self]
    cases (log.filter fun other => other.1 = entry.1).getLast? <;> rfl
  · have different : key ≠ entry.1 := fun equality => same equality.symm
    simp [same, Function.update_of_ne different]

/-- The last assignment decides. -/
theorem after_concat (start : κ → Option ν) (log : List (κ × Option ν))
    (entry : κ × Option ν) :
    after start (log ++ [entry]) =
      Function.update (after start log) entry.1 entry.2 := by
  funext key
  unfold after
  by_cases same : entry.1 = key
  · subst key
    simp
  · have different : key ≠ entry.1 := fun equality => same equality.symm
    simp [same, Function.update_of_ne different]

/-- Maps that start equal on a key stay equal on it. -/
theorem after_congr {left right : κ → Option ν} {key : κ}
    (same : left key = right key) (log : List (κ × Option ν)) :
    after left log key = after right log key := by
  unfold after
  rw [same]

end AssignmentLog
