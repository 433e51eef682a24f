import Mathlib.Data.List.Basic

/-!
# Code that reads one item after another

`Scan ι α` is code that asks for items of type `ι` until it is done.  It is
known by the words it reads: a word leads from one piece of code to another.
Code that reads a word reads nothing else from a stream that begins with it,
so a sequence of calls splits a stream into their words in one way only.
-/

inductive Scan (ι α : Type) where
  | done (result : α)
  | get (next : ι → Scan ι α)

namespace Scan

variable {ι α β : Type}

/-- `c` first, then the code for its result. -/
def andThen : Scan ι α → (α → Scan ι β) → Scan ι β
  | .done result, f => f result
  | .get next, f => .get fun item => (next item).andThen f

/-- The code left after a word, if so much is asked for. -/
def feed : Scan ι α → List ι → Option (Scan ι α)
  | scan, [] => some scan
  | scan, item :: word =>
      match scan with
      | .done _ => none
      | .get next => (next item).feed word
termination_by structural _ word => word

/-- The result of a word that is asked for to its end. -/
def result (scan : Scan ι α) (word : List ι) : Option α :=
  match scan.feed word with
  | some (.done result) => some result
  | _ => none

/-- Whether the next items are those given; the first other one ends it. -/
def expect [DecidableEq ι] : List ι → Scan ι Bool
  | [] => .done true
  | item :: rest => .get fun read =>
      if read = item then expect rest else .done false

/-- The result and what a call leaves of a stream that is long enough. -/
def run : Scan ι α → List ι → Option (α × List ι)
  | .done result, stream => some (result, stream)
  | .get next, item :: stream => (next item).run stream
  | .get _, [] => none

section Words

variable {scan later : Scan ι α} {word rest : List ι} {value : α}

theorem result_eq_some :
    scan.result word = some value ↔ scan.feed word = some (.done value) := by
  unfold result
  constructor
  · intro read
    split at read
    · cases read
      assumption
    · cases read
  · intro read
    rw [read]

theorem feed_append (scan : Scan ι α) (word rest : List ι) :
    scan.feed (word ++ rest) = (scan.feed word).bind (·.feed rest) := by
  induction word generalizing scan with
  | nil => rfl
  | cons item word induction =>
      cases scan with
      | done result => rfl
      | get next => exact induction (next item)

theorem feed_concat {next : ι → Scan ι α}
    (read : scan.feed word = some (.get next)) (item : ι) :
    scan.feed (word ++ [item]) = some (next item) := by
  rw [feed_append, read]
  rfl

theorem run_append (read : scan.feed word = some (.done value))
    (rest : List ι) : scan.run (word ++ rest) = some (value, rest) := by
  induction word generalizing scan with
  | nil =>
      cases read
      cases rest <;> rfl
  | cons item word induction =>
      cases scan with
      | done result => cases read
      | get next => exact induction read

theorem feed_andThen (read : scan.feed word = some (.done value))
    (f : α → Scan ι β) : (scan.andThen f).feed word = some (f value) := by
  induction word generalizing scan with
  | nil =>
      cases read
      rfl
  | cons item word induction =>
      cases scan with
      | done result => cases read
      | get next => exact induction read

theorem andThen_run (scan : Scan ι α) (f : α → Scan ι β) (stream : List ι) :
    (scan.andThen f).run stream =
      (scan.run stream).bind fun (value, left) => (f value).run left := by
  induction stream generalizing scan with
  | nil => cases scan <;> rfl
  | cons item stream induction =>
      cases scan with
      | done result => rfl
      | get next => exact induction (next item)

/-- The first item that does not fit is read all the same. -/
theorem expect_run_of_ne [DecidableEq ι] {expected : List ι} {n : Nat}
    (inside : n < expected.length) {item : ι}
    (differs : expected[n]? ≠ some item) (rest : List ι) :
    (expect expected).run (expected.take n ++ item :: rest) =
      some (false, rest) := by
  induction expected generalizing n with
  | nil => simp at inside
  | cons first expected induction =>
      cases n with
      | zero =>
          have other : item ≠ first := fun same => differs (by simp [same])
          simp [expect, run, other]
      | succ n =>
          simp only [List.take_succ_cons, List.cons_append, expect, run, if_true]
          exact induction (Nat.lt_of_succ_lt_succ inside) (by simpa using differs)

/-- Code that looks for a word goes on behind the item that does not fit. -/
theorem expect_andThen_run_of_ne [DecidableEq ι] {expected : List ι} {n : Nat}
    (inside : n < expected.length) {item : ι}
    (differs : expected[n]? ≠ some item) (f : Bool → Scan ι β)
    (rest : List ι) :
    ((expect expected).andThen f).run (expected.take n ++ item :: rest) =
      (f false).run rest := by
  rw [andThen_run, expect_run_of_ne inside differs]
  rfl

/-- Code asks for no more than the word that ends it. -/
theorem feed_shorter (read : scan.feed word = some (.done value))
    {part : List ι} (partRead : scan.feed part = some later)
    (fits : part <+: word ++ rest) :
    part <+: word ∧ ∀ other, later = .done other → part = word := by
  induction word generalizing scan part with
  | nil =>
      cases read
      cases part with
      | nil => exact ⟨List.nil_prefix, fun _ _ => rfl⟩
      | cons item part => cases partRead
  | cons item word induction =>
      cases scan with
      | done result => cases read
      | get next =>
          cases part with
          | nil =>
              cases partRead
              exact ⟨List.nil_prefix, nofun⟩
          | cons first part =>
              obtain ⟨rfl, tailFits⟩ := List.cons_prefix_cons.mp fits
              obtain ⟨shorter, whole⟩ := induction read partRead tailFits
              exact ⟨List.cons_prefix_cons.mpr ⟨rfl, shorter⟩,
                fun other done => congrArg _ (whole other done)⟩

end Words

/-! ## One call after another -/

section Calls

variable {σ : Type} (call : σ → Scan ι σ)

/-- The state after calls that read the given words. -/
def calls (state : σ) (words : List (List ι)) : Option σ :=
  words.foldlM (fun state word => (call state).result word) state

variable {call} {state after : σ} {word : List ι} {words : List (List ι)}

@[simp] theorem calls_nil : calls call state [] = some state := rfl

theorem calls_cons :
    calls call state (word :: words) =
      ((call state).result word).bind (calls call · words) := rfl

/-- The state after calls on a stream that is long enough, and what they
leave of it. -/
def callsOn (call : σ → Scan ι σ) : Nat → σ → List ι → Option (σ × List ι)
  | 0, state, stream => some (state, stream)
  | n + 1, state, stream =>
      ((call state).run stream).bind fun (state, left) =>
        callsOn call n state left

theorem callsOn_of_calls (whole : calls call state words = some after)
    (rest : List ι) :
    callsOn call words.length state (words.flatten ++ rest) =
      some (after, rest) := by
  induction words generalizing state with
  | nil =>
      cases whole
      rfl
  | cons word words induction =>
      rw [calls_cons, Option.bind_eq_some_iff] at whole
      obtain ⟨middle, read, whole⟩ := whole
      rw [List.flatten_cons, List.append_assoc, List.length_cons, callsOn,
        run_append (result_eq_some.mp read)]
      exact induction whole

theorem calls_append (before : calls call state words = some after)
    (later : List (List ι)) :
    calls call state (words ++ later) = calls call after later := by
  simp only [calls, List.foldlM_append] at before ⊢
  rw [before]
  rfl

theorem calls_concat (before : calls call state words = some after)
    (word : List ι) :
    calls call state (words ++ [word]) = (call after).result word := by
  rw [calls_append before, calls_cons]
  cases (call after).result word <;> rfl

/-- Calls that each ask for something split a stream in one way: those that
ended read the first words, and the one under way a part of the next. -/
theorem calls_split (asks : ∀ state, ∃ next, call state = .get next)
    {read : List (List ι)} {part : List ι} {middle : σ} {later : Scan ι σ}
    (whole : calls call state words = some after)
    (ended : calls call state read = some middle)
    (underWay : (call middle).feed part = some later)
    (fits : read.flatten ++ part <+: words.flatten) :
    ∃ unread, words = read ++ unread ∧
      ((part = [] ∧ unread = []) ∨
        ∃ word tail, unread = word :: tail ∧ part <+: word) := by
  induction words generalizing state read with
  | nil =>
      have empty := List.prefix_nil.mp fits
      obtain ⟨flattened, none⟩ := List.append_eq_nil_iff.mp empty
      cases read with
      | nil => exact ⟨[], rfl, .inl ⟨none, rfl⟩⟩
      | cons first read =>
          simp only [List.flatten_cons, List.append_eq_nil_iff] at flattened
          obtain ⟨next, get⟩ := asks state
          rw [flattened.1, calls_cons, get] at ended
          cases ended
  | cons word words induction =>
      rw [calls_cons, Option.bind_eq_some_iff] at whole
      obtain ⟨between, readWord, whole⟩ := whole
      have wordEnds := result_eq_some.mp readWord
      cases read with
      | nil =>
          cases ended
          exact ⟨word :: words, rfl, .inr ⟨word, words, rfl,
            (feed_shorter wordEnds underWay fits).1⟩⟩
      | cons first read =>
          rw [calls_cons, Option.bind_eq_some_iff] at ended
          obtain ⟨other, readFirst, ended⟩ := ended
          have firstEnds := result_eq_some.mp readFirst
          simp only [List.flatten_cons, List.append_assoc] at fits
          have firstFits : first <+: word ++ words.flatten :=
            (List.prefix_append first _).trans fits
          have same := (feed_shorter wordEnds firstEnds firstFits).2 other rfl
          subst same
          rw [readWord] at readFirst
          cases readFirst
          have restFits : read.flatten ++ part <+: words.flatten := by
            simpa [List.prefix_append_right_inj] using fits
          obtain ⟨unread, split, place⟩ :=
            induction whole ended restFits
          exact ⟨unread, by rw [split, List.cons_append], place⟩

end Calls

end Scan
