import Mathlib.Data.List.Nodup

/-!
# Turns in a rotation with late joiners

The members of a rotation have their turns in the order in which they joined,
and after the last one it is the turn of the first.  Who joins goes to the end
of the order, wherever the turn is.  Between two turns of one member every
other member has exactly one.
-/

namespace RoundRobin

/-- The member whose turn it is, with those that joined before and after it. -/
structure Rotation (α : Type*) where
  before : List α
  now : α
  after : List α

/-- What happens to a rotation. -/
inductive TurnEvent (α : Type*) where
  | selected (member : α)
  | joined (member : α)
  deriving DecidableEq, Repr

variable {α : Type*}

/-- Who had a turn, in order. -/
def selections : List (TurnEvent α) → List α
  | [] => []
  | .selected member :: events => member :: selections events
  | .joined _ :: events => selections events

/-- Who joined, in order. -/
def joiners : List (TurnEvent α) → List α
  | [] => []
  | .selected _ :: events => joiners events
  | .joined member :: events => member :: joiners events

namespace Rotation

def members (rotation : Rotation α) : List α :=
  rotation.before ++ rotation.now :: rotation.after

def advance : Rotation α → Rotation α
  | ⟨before, now, next :: after⟩ => ⟨before ++ [now], next, after⟩
  | ⟨first :: before, now, []⟩ => ⟨[], first, before ++ [now]⟩
  | ⟨[], now, []⟩ => ⟨[], now, []⟩

def join (rotation : Rotation α) (fresh : α) : Rotation α :=
  { rotation with after := rotation.after ++ [fresh] }

theorem advance_last {before others : List α} {now first : α}
    (order : before ++ [now] = first :: others) :
    (⟨before, now, []⟩ : Rotation α).advance = ⟨[], first, others⟩ := by
  cases before with
  | nil =>
      cases order
      rfl
  | cons _ before =>
      cases order
      rfl

/-- The members that have the next turns. -/
def turns : Nat → Rotation α → List α
  | 0, _ => []
  | count + 1, rotation =>
      rotation.advance.now :: turns count rotation.advance

@[simp] theorem members_advance (rotation : Rotation α) :
    rotation.advance.members = rotation.members := by
  obtain ⟨before, now, after⟩ := rotation
  cases after with
  | cons next after => simp [advance, members]
  | nil => cases before <;> simp [advance, members]

@[simp] theorem members_join (rotation : Rotation α) (fresh : α) :
    (rotation.join fresh).members = rotation.members ++ [fresh] := by
  simp [join, members]

theorem now_mem (rotation : Rotation α) : rotation.now ∈ rotation.members := by
  simp [members]

end Rotation

/-- A rotation goes through the events; who joins is not a member yet. -/
inductive Turns : Rotation α → List (TurnEvent α) → Rotation α → Prop
  | done (rotation : Rotation α) : Turns rotation [] rotation
  | select {rotation last : Rotation α} {events : List (TurnEvent α)}
      (rest : Turns rotation.advance events last) :
      Turns rotation (.selected rotation.advance.now :: events) last
  | join {rotation last : Rotation α} {fresh : α} {events : List (TurnEvent α)}
      (new : fresh ∉ rotation.members)
      (rest : Turns (rotation.join fresh) events last) :
      Turns rotation (.joined fresh :: events) last

/-! ## Who comes before the next turn of a member -/

/-- The turns of the members `ahead` come first, then that of `target`. -/
def Ahead (rotation : Rotation α) (target : α) (ahead : List α) : Prop :=
  (∃ rest, rotation.after = ahead ++ target :: rest) ∨
    ∃ front rest, rotation.before ++ [rotation.now] = front ++ target :: rest ∧
      ahead = rotation.after ++ front

section Ahead

variable {rotation : Rotation α} {target : α} {ahead : List α}

/-- Ahead of the next turn of the present member are all others. -/
theorem ahead_now (rotation : Rotation α) :
    Ahead rotation rotation.now (rotation.after ++ rotation.before) :=
  .inr ⟨rotation.before, [], rfl, rfl⟩

/-- One turn: that of `target` if none was ahead, else of the first of them. -/
theorem Ahead.advance (waits : Ahead rotation target ahead) :
    (ahead = [] ∧ rotation.advance.now = target) ∨
      ∃ rest, ahead = rotation.advance.now :: rest ∧
        Ahead rotation.advance target rest := by
  obtain ⟨before, now, after⟩ := rotation
  rcases waits with ⟨rest, later⟩ | ⟨front, rest, earlier, rfl⟩
  · simp only at later
    subst later
    cases ahead with
    | nil => exact .inl ⟨rfl, rfl⟩
    | cons next ahead => exact .inr ⟨ahead, rfl, .inl ⟨rest, rfl⟩⟩
  · cases after with
    | cons next after =>
        refine .inr ⟨after ++ front, rfl, .inr ⟨front, rest ++ [next], ?_, rfl⟩⟩
        simp only [Rotation.advance] at earlier ⊢
        rw [earlier, List.append_assoc, List.cons_append]
    | nil =>
        cases front with
        | nil =>
            rw [Rotation.advance_last earlier]
            exact .inl ⟨rfl, rfl⟩
        | cons next front =>
            rw [Rotation.advance_last earlier]
            exact .inr ⟨front, rfl, .inl ⟨rest, rfl⟩⟩

theorem Ahead.join (waits : Ahead rotation target ahead) (fresh : α) :
    ∃ ahead', Ahead (rotation.join fresh) target ahead' ∧
      ∀ [DecidableEq α], ∀ member, member ≠ fresh →
        ahead'.count member = ahead.count member := by
  rcases waits with ⟨rest, later⟩ | ⟨front, rest, earlier, rfl⟩
  · refine ⟨ahead, .inl ⟨rest ++ [fresh], ?_⟩, fun _ _ => rfl⟩
    simp [Rotation.join, later]
  · refine ⟨rotation.after ++ [fresh] ++ front, .inr ⟨front, rest, earlier, rfl⟩,
      ?_⟩
    intro _ member other
    simp [List.count_append, other.symm]

/-- Following the rotation until the next turn of `target`. -/
theorem Ahead.turns (waits : Ahead rotation target ahead) :
    rotation.turns (ahead.length + 1) = ahead ++ [target] := by
  induction ahead generalizing rotation with
  | nil =>
      rcases waits.advance with ⟨_, reached⟩ | ⟨rest, none, _⟩
      · simp [Rotation.turns, reached]
      · cases none
  | cons next ahead induction =>
      rcases waits.advance with ⟨none, _⟩ | ⟨rest, same, waits'⟩
      · cases none
      · cases same
        rw [List.length_cons, Rotation.turns, induction waits']
        rfl

end Ahead

/-- As many turns as there are members give one to each, the last to the
present member. -/
theorem turns_members (rotation : Rotation α) :
    ∃ others, rotation.turns rotation.members.length =
        others ++ [rotation.now] ∧
      (others ++ [rotation.now]).Perm rotation.members := by
  have length : rotation.members.length =
      (rotation.after ++ rotation.before).length + 1 := by
    simp only [Rotation.members, List.length_append, List.length_cons]
    omega
  refine ⟨rotation.after ++ rotation.before, ?_, ?_⟩
  · rw [length]
    exact (ahead_now rotation).turns
  · have moved : (rotation.now :: rotation.after ++ rotation.before).Perm
        rotation.members := List.perm_append_comm
    exact List.perm_append_comm.trans moved

/-! ## Runs -/

section Turns

variable {rotation middle last : Rotation α} {events more : List (TurnEvent α)}

@[simp] theorem selections_append (events more : List (TurnEvent α)) :
    selections (events ++ more) = selections events ++ selections more := by
  induction events with
  | nil => rfl
  | cons event events induction => cases event <;> simp [selections, induction]

@[simp] theorem joiners_append (events more : List (TurnEvent α)) :
    joiners (events ++ more) = joiners events ++ joiners more := by
  induction events with
  | nil => rfl
  | cons event events induction => cases event <;> simp [joiners, induction]

theorem Turns.split (run : Turns rotation (events ++ more) last) :
    ∃ middle, Turns rotation events middle ∧ Turns middle more last := by
  induction events generalizing rotation with
  | nil => exact ⟨rotation, .done rotation, run⟩
  | cons event events induction =>
      cases run with
      | select rest =>
          obtain ⟨middle, first, second⟩ := induction rest
          exact ⟨middle, .select first, second⟩
      | join new rest =>
          obtain ⟨middle, first, second⟩ := induction rest
          exact ⟨middle, .join new first, second⟩

theorem Turns.selected {target : α}
    (run : Turns rotation (.selected target :: events) last) :
    rotation.advance.now = target ∧ Turns rotation.advance events last := by
  generalize first : TurnEvent.selected target :: events = all at run
  cases run with
  | done => cases first
  | select rest =>
      cases first
      exact ⟨rfl, rest⟩
  | join => cases first

theorem Turns.members (run : Turns rotation events last) :
    last.members = rotation.members ++ joiners events := by
  induction run with
  | done => simp [joiners]
  | select _ members =>
      rw [members, Rotation.members_advance]
      rfl
  | join _ _ members =>
      rw [members, Rotation.members_join, List.append_assoc]
      rfl

theorem Turns.nodup (run : Turns rotation events last)
    (distinct : rotation.members.Nodup) : last.members.Nodup := by
  induction run with
  | done => exact distinct
  | select _ nodup => exact nodup (by simpa using distinct)
  | join new _ nodup =>
      apply nodup
      rw [Rotation.members_join, ← List.concat_eq_append]
      exact distinct.concat new

theorem Turns.joiner_new (run : Turns rotation events last)
    (distinct : rotation.members.Nodup) {member : α}
    (old : member ∈ rotation.members) : member ∉ joiners events := by
  have all := run.nodup distinct
  rw [run.members] at all
  exact List.disjoint_of_nodup_append all old

variable [DecidableEq α]

/-- Until the next turn of `target`, those ahead of it lose one place with each
turn that they have. -/
theorem Turns.ahead {target : α} {ahead : List α}
    (run : Turns rotation events last) (waits : Ahead rotation target ahead)
    (none : target ∉ selections events) :
    ∃ ahead', Ahead last target ahead' ∧
      ∀ member, member ∉ joiners events →
        ahead.count member =
          (selections events).count member + ahead'.count member := by
  induction run generalizing ahead with
  | done => exact ⟨ahead, waits, fun _ _ => (Nat.zero_add _).symm⟩
  | @select rotation last events rest induction =>
      simp only [selections, List.mem_cons, not_or] at none
      rcases waits.advance with ⟨_, reached⟩ | ⟨others, rfl, waits'⟩
      · exact absurd reached.symm none.1
      · obtain ⟨ahead', reaches, counts⟩ := induction waits' none.2
        refine ⟨ahead', reaches, ?_⟩
        intro member old
        simp only [selections, List.count_cons, counts member old]
        omega
  | @join rotation last fresh events new rest induction =>
      obtain ⟨joined, waits', same⟩ := waits.join fresh
      obtain ⟨ahead', reaches, counts⟩ := induction waits' none
      refine ⟨ahead', reaches, ?_⟩
      intro member old
      simp only [joiners, List.mem_cons, not_or] at old
      rw [← same member old.1, counts member old.2]
      rfl

/-- Between two turns of `target` every other member of the time of the first
has exactly one. -/
theorem Turns.between {target : α} {earlier between later : List (TurnEvent α)}
    (run : Turns rotation
      (earlier ++ .selected target :: between ++ .selected target :: later)
      last)
    (distinct : rotation.members.Nodup) (none : target ∉ selections between)
    {member : α} (old : member ∈ rotation.members ++ joiners earlier)
    (other : member ≠ target) : (selections between).count member = 1 := by
  obtain ⟨second, upTo, run₂⟩ := run.split
  obtain ⟨start, run₀, upTo⟩ := upTo.split
  obtain ⟨reached, run₁⟩ := upTo.selected
  obtain ⟨reachedAgain, _⟩ := run₂.selected
  have distinct₁ := run₀.nodup distinct
  rw [← run₀.members, ← Rotation.members_advance] at old
  rw [← Rotation.members_advance] at distinct₁
  generalize start.advance = here at *
  subst reached
  obtain ⟨ahead', waits, counts⟩ := run₁.ahead (ahead_now here) none
  have allCount : ∀ other ∈ here.members,
      (here.after ++ here.before).count other +
        [here.now].count other = 1 := by
    intro other present
    have once := List.count_eq_one_of_mem distinct₁ present
    rw [Rotation.members, List.count_append, ← List.singleton_append,
      List.count_append] at once
    rw [List.count_append]
    omega
  have gone : ahead' = [] := by
    rcases waits.advance with ⟨none, _⟩ | ⟨rest, rfl, _⟩
    · exact none
    · have whole := allCount here.now here.now_mem
      have left := counts here.now
        (run₁.joiner_new distinct₁ here.now_mem)
      rw [reachedAgain, List.count_cons_self] at left
      rw [List.count_singleton_self] at whole
      omega
  have whole := allCount member old
  have left := counts member (run₁.joiner_new distinct₁ old)
  rw [gone, List.count_nil] at left
  rw [List.count_singleton, if_neg (by simpa using other.symm)] at whole
  omega

end Turns

end RoundRobin
