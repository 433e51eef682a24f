import MiniOS.Lib.Outcome
import MiniOS.Debug.Number

/-!
# `vsprintf` with pointers

Here `format` is an address, and every read through it is recorded.  The
arguments are the words on the stack of the caller: each is there, and read as
a pointer to characters it points to a string.  Every loop has a number of
rounds; `spin` is what is left when they run out.
-/

namespace MiniOS

/-- A word of the variable arguments, and the string that it points to. -/
structure VaWord where
  value : BitVec 32
  text : CString

/-- Why a call does not return. -/
inductive FormatStop where
  | spin
  /-- A conversion has nothing to store. -/
  | undefined
  deriving DecidableEq

/-- The addresses read through `format`, the last first, and how many
arguments were taken. -/
structure FormatReader where
  reads : List Nat
  taken : Nat

abbrev FormatM := EStateM FormatStop FormatReader

def Printer.supplied (p : Printer) (args : List Arg) : Printer :=
  { p with args := args }

/-- A conversion, by the type that it asks `va_arg` for. -/
inductive Request where
  | word (convert : Printer → Option Printer)
  | string (convert : Printer → Option Printer)
  | target (convert : Printer → Option Printer)

def Request.conversion : Request → Printer → Option Printer
  | .word convert => convert
  | .string convert => convert
  | .target convert => convert

/-- What `va_arg` makes of a word. -/
def Request.view (word : VaWord) : Request → Arg
  | .word _ => .word word.value
  | .string _ => .string word.text
  | .target _ => .target word.value.toNat

/-- The cases of the last `switch`, but for the `default`. -/
def conversionCase (flags : Flags) (fieldWidth precision : Int) :
    Char → Option Request
  | 'c' => some (.word (convertChar flags fieldWidth))
  | 's' => some (.string (convertString flags fieldWidth precision))
  | 'o' => some (.word (convertNumber 8 flags fieldWidth precision))
  | 'p' =>
      let (fieldWidth, flags) :=
        if fieldWidth = -1 then (8, { flags with zeropad := true })
        else (fieldWidth, flags)
      some (.word (convertNumber 16 flags fieldWidth precision))
  | 'x' =>
      let flags := { flags with small := true }
      some (.word (convertNumber 16 flags fieldWidth precision))
  | 'X' => some (.word (convertNumber 16 flags fieldWidth precision))
  | 'd' | 'i' =>
      let flags := { flags with sign := true }
      some (.word (convertNumber 10 flags fieldWidth precision))
  | 'u' => some (.word (convertNumber 10 flags fieldWidth precision))
  | 'b' => some (.word (convertNumber 2 flags fieldWidth precision))
  | 'n' => some (.target convertCount)
  | _ => none

section Pointer

variable (mem : Nat → Char) (args : Nat → VaWord) (limit : Nat)

def readFormat (format : Nat) : FormatM Char := fun r =>
  .ok (mem format) { r with reads := format :: r.reads }

def vaArg : FormatM VaWord := fun r =>
  .ok (args r.taken) { r with taken := r.taken + 1 }

/-- `skip_atoi` from the partial value `i`. -/
def skipAtoiAt : Nat → Int → Nat → FormatM (Int × Nat)
  | 0, _, _ => throw .spin
  | rounds + 1, i, s => do
      let c ← readFormat mem s
      if isDigit c then
        let digit ← readFormat mem s
        let sum := int32 (int32 (i * 10) + digit.toNat)
        skipAtoiAt rounds (int32 (sum - '0'.toNat)) (s + 1)
      else return (i, s)

/-- The `switch` over the flags: those that jump to `repeat`. -/
def flagCase (flags : Flags) : Char → Option Flags
  | '-' => some { flags with left := true }
  | '+' => some { flags with plus := true }
  | ' ' => some { flags with space := true }
  | '#' => some { flags with special := true }
  | '0' => some { flags with zeropad := true }
  | _ => none

/-- The jumps to `repeat`, with `++format` before each `switch`. -/
def scanFlagsAt : Nat → Flags → Nat → FormatM (Flags × Nat)
  | 0, _, _ => throw .spin
  | rounds + 1, flags, format => do
      let format := format + 1
      let c ← readFormat mem format
      match flagCase flags c with
      | some flags => scanFlagsAt rounds flags format
      | none => return (flags, format)

def scanWidthAt (flags : Flags) (format : Nat) :
    FormatM (Flags × Int × Nat) := do
  if isDigit (← readFormat mem format) then
    let (fieldWidth, format) ← skipAtoiAt mem limit 0 format
    return (flags, fieldWidth, format)
  else if (← readFormat mem format) = '*' then
    let word ← vaArg args
    if word.value.toInt < 0 then
      return ({ flags with left := true }, int32 (-word.value.toInt), format)
    else return (flags, word.value.toInt, format)
  else return (flags, -1, format)

def readPrecisionAt (format : Nat) : FormatM (Int × Nat) := do
  if isDigit (← readFormat mem format) then skipAtoiAt mem limit 0 format
  else if (← readFormat mem format) = '*' then
    let word ← vaArg args
    return (word.value.toInt, format)
  else return (-1, format)

def scanPrecisionAt (format : Nat) : FormatM (Int × Nat) := do
  if (← readFormat mem format) = '.' then
    let (precision, format) ← readPrecisionAt mem args limit (format + 1)
    return (if precision < 0 then 0 else precision, format)
  else return (-1, format)

def skipQualifierAt (format : Nat) : FormatM Nat := do
  let c ← readFormat mem format
  if c = 'h' ∨ c = 'l' ∨ c = 'L' then return format + 1
  else return format

def stored (result : Option Printer) : FormatM Printer :=
  match result with
  | some p => return p
  | none => throw .undefined

def perform (request : Request) (p : Printer) : FormatM Printer := do
  let word ← vaArg args
  stored (request.conversion (p.supplied [request.view word]))

def copyConversionAt (format : Nat) (p : Printer) :
    FormatM (Printer × Nat) := do
  let p := if (← readFormat mem format) ≠ '%' then p.emit ['%'] else p
  let c ← readFormat mem format
  if c ≠ nul then return (p.emit [c], format)
  else return (p, format - 1)

def convertAt (flags : Flags) (fieldWidth precision : Int) (format : Nat)
    (p : Printer) : FormatM (Printer × Nat) := do
  let c ← readFormat mem format
  match conversionCase flags fieldWidth precision c with
  | some request => return (← perform args request p, format)
  | none => copyConversionAt mem format p

/-- A round of the loop at a `%`. -/
def directiveAt (format : Nat) (p : Printer) : FormatM (Printer × Nat) := do
  let (flags, format) ← scanFlagsAt mem limit {} format
  let (flags, fieldWidth, format) ← scanWidthAt mem args limit flags format
  let (precision, format) ← scanPrecisionAt mem args limit format
  let format ← skipQualifierAt mem format
  convertAt mem args flags fieldWidth precision format p

/-- `for (str = buff ; *format ; ++format)` -/
def vsprintfLoopAt : Nat → Nat → Printer → FormatM (Printer × Nat)
  | 0, _, _ => throw .spin
  | rounds + 1, format, p => do
      if (← readFormat mem format) = nul then return (p, format)
      else if (← readFormat mem format) ≠ '%' then
        let c ← readFormat mem format
        vsprintfLoopAt rounds (format + 1) (p.emit [c])
      else
        let (p, format) ← directiveAt mem args limit format p
        vsprintfLoopAt rounds (format + 1) p

/-- `vsprintf`, with `limit` rounds for each loop: what it stored, and where
`format` points at the end. -/
def vsprintfAt (format : Nat) : FormatM (Printer × Nat) :=
  vsprintfLoopAt mem args limit limit format ⟨[], [], []⟩

end Pointer

/-! ## A string in memory -/

/-- The characters from `position` on, up to the NUL at `stop`. -/
inductive FormatAt (mem : Nat → Char) (stop : Nat) : Nat → Format → Prop
  | done (ends : mem stop = nul) : FormatAt mem stop stop []
  | char {position : Nat} {c : Char} {rest : Format}
      (here : mem position = c) (inside : c ≠ nul)
      (others : FormatAt mem stop (position + 1) rest) :
      FormatAt mem stop position (c :: rest)

namespace FormatAt

variable {mem : Nat → Char} {stop position : Nat} {format : Format}

theorem deref_eq (string : FormatAt mem stop position format) :
    mem position = deref format := by
  cases string with
  | done ends => exact ends
  | char here _ _ => exact here

theorem length_eq (string : FormatAt mem stop position format) :
    position + format.length = stop := by
  induction string with
  | done ends => rfl
  | char here inside others induction =>
      rw [List.length_cons]
      omega

theorem position_le (string : FormatAt mem stop position format) :
    position ≤ stop := by
  have length := string.length_eq
  omega

theorem tail (string : FormatAt mem stop position format)
    (inside : deref format ≠ nul) :
    FormatAt mem stop (position + 1) format.tail := by
  cases string with
  | done ends => exact absurd rfl inside
  | char _ _ others => exact others

theorem tail_length (string : FormatAt mem stop position format)
    (inside : deref format ≠ nul) :
    format.tail.length + 1 = format.length := by
  cases string with
  | done ends => exact absurd rfl inside
  | char _ _ _ => rfl

end FormatAt

/-- What `va_arg` makes of a word, by the type it is asked for. -/
inductive Views (word : VaWord) : Arg → Prop
  | word : Views word (.word word.value)
  | string : Views word (.string word.text)
  | target : Views word (.target word.value.toNat)

theorem Request.views (request : Request) (word : VaWord) :
    Views word (request.view word) := by
  cases request with
  | word => exact .word
  | string => exact .string
  | target => exact .target

/-- A call went on: it read between two addresses, and took the arguments
`used`. -/
structure Advance (args : Nat → VaWord) (start stop : Nat) (r r' : FormatReader)
    (used : List Arg) : Prop where
  reads : ∀ position ∈ r'.reads,
    position ∈ r.reads ∨ start ≤ position ∧ position ≤ stop
  taken : r'.taken = r.taken + used.length
  typed : ∀ (i : Nat) (h : i < used.length), Views (args (r.taken + i)) used[i]

namespace Advance

variable {args : Nat → VaWord} {start stop : Nat} {r r' r'' : FormatReader}
variable {used more : List Arg}

theorem refl (r : FormatReader) : Advance args start stop r r [] where
  reads _ member := .inl member
  taken := rfl
  typed _ h := absurd h (Nat.not_lt_zero _)

theorem trans (first : Advance args start stop r r' used)
    (second : Advance args start stop r' r'' more) :
    Advance args start stop r r'' (used ++ more) where
  reads position member := by
    rcases second.reads position member with before | inside
    · exact first.reads position before
    · exact .inr inside
  taken := by
    rw [second.taken, first.taken, List.length_append, Nat.add_assoc]
  typed i h := by
    by_cases early : i < used.length
    · rw [List.getElem_append_left early]
      exact first.typed i early
    · have late : i - used.length < more.length := by
        rw [List.length_append] at h
        omega
      have view := second.typed (i - used.length) late
      rw [List.getElem_append_right (by omega)]
      rw [first.taken] at view
      have same : r.taken + used.length + (i - used.length) = r.taken + i := by
        omega
      rwa [same] at view

theorem widen {lower : Nat} (advance : Advance args start stop r r' used)
    (below : lower ≤ start) : Advance args lower stop r r' used where
  reads position member := by
    rcases advance.reads position member with before | inside
    · exact .inl before
    · exact .inr ⟨Nat.le_trans below inside.1, inside.2⟩
  taken := advance.taken
  typed := advance.typed

end Advance

/-- `format` went on to `next`, where `rest` stands. -/
structure Reached (mem : Nat → Char) (args : Nat → VaWord)
    (stop position : Nat) (r : FormatReader) (used : List Arg) (next : Nat)
    (rest : Format) (r' : FormatReader) : Prop where
  string : FormatAt mem stop next rest
  forward : position ≤ next
  advance : Advance args position stop r r' used

section Steps

variable {mem : Nat → Char} {args : Nat → VaWord} {limit stop : Nat}
variable {position next last : Nat} {r r' r'' : FormatReader}
variable {format rest end' : Format} {used more : List Arg}

theorem Reached.trans
    (first : Reached mem args stop position r used next rest r')
    (second : Reached mem args stop next r' more last end' r'') :
    Reached mem args stop position r (used ++ more) last end' r'' where
  string := second.string
  forward := Nat.le_trans first.forward second.forward
  advance := first.advance.trans (second.advance.widen first.forward)

theorem Reached.then (first : Reached mem args stop position r [] next rest r')
    (second : Reached mem args stop next r' used last end' r'') :
    Reached mem args stop position r used last end' r'' :=
  first.trans second

def FormatReader.read (r : FormatReader) (position : Nat) : FormatReader :=
  { r with reads := position :: r.reads }

theorem Reached.here (string : FormatAt mem stop position format) :
    Reached mem args stop position r [] position format r :=
  ⟨string, Nat.le_refl _, .refl r⟩

theorem Reached.read (string : FormatAt mem stop position format) :
    Reached mem args stop position r [] position format (r.read position) where
  string := string
  forward := Nat.le_refl _
  advance := {
    reads := by
      intro address member
      rcases List.mem_cons.mp member with rfl | before
      · exact .inr ⟨Nat.le_refl _, string.position_le⟩
      · exact .inl before
    taken := rfl
    typed := fun _ h => absurd h (Nat.not_lt_zero _) }

theorem Reached.step (string : FormatAt mem stop position format)
    (inside : deref format ≠ nul) :
    Reached mem args stop position r [] (position + 1) format.tail r :=
  ⟨string.tail inside, Nat.le_succ _, .refl r⟩

theorem Reached.shorter
    (string : FormatAt mem stop position format)
    (reached : Reached mem args stop position r used next rest r') :
    rest.length ≤ format.length := by
  have before := string.length_eq
  have after := reached.string.length_eq
  have forward := reached.forward
  omega

theorem readFormat_bind {α : Type} {f : Char → FormatM α}
    (string : FormatAt mem stop position format) :
    (readFormat mem position >>= f) r = f (deref format) (r.read position) := by
  rw [← string.deref_eq]
  rfl

theorem isDigit_inside (digit : isDigit (deref format) = true) :
    deref format ≠ nul := by
  intro none
  rw [none] at digit
  exact absurd digit (by decide)

theorem skipAtoi_deref (i : Int) (format : Format) :
    skipAtoi i format = if isDigit (deref format) then
      skipAtoi (int32 (int32 (int32 (i * 10) + (deref format).toNat) -
        '0'.toNat)) format.tail
      else (i, format) := by
  cases format with
  | nil => rfl
  | cons c rest => rfl

/-- The digits end at the NUL at the latest. -/
theorem skipAtoiAt_reaches {rounds : Nat} (enough : format.length < rounds)
    (i : Int) (string : FormatAt mem stop position format) :
    ∃ next r', skipAtoiAt mem rounds i position r =
        .ok ((skipAtoi i format).1, next) r' ∧
      Reached mem args stop position r [] next (skipAtoi i format).2 r' := by
  induction rounds generalizing i position format r with
  | zero => omega
  | succ rounds induction =>
      rw [skipAtoi_deref, skipAtoiAt, readFormat_bind string]
      by_cases digit : isDigit (deref format)
      · rw [if_pos digit, if_pos digit, readFormat_bind string]
        have inside := isDigit_inside digit
        have shorter := string.tail_length inside
        obtain ⟨next, r', returned, reached⟩ := induction (by omega)
          (int32 (int32 (int32 (i * 10) + (deref format).toNat) -
            '0'.toNat)) (string.tail inside)
          (r := (r.read position).read position)
        refine ⟨next, r', returned, ?_⟩
        have twice : Reached mem args stop position r [] position format
            ((r.read position).read position) :=
          (Reached.read string).then (Reached.read string)
        exact (twice.then (Reached.step string inside)).then reached
      · rw [if_neg digit, if_neg digit]
        exact ⟨position, _, rfl, Reached.read string⟩

theorem scanFlags_deref (flags : Flags) (format : Format) :
    scanFlags flags format = (flagCase flags (deref format)).elim
      (flags, format) fun flags => scanFlags flags format.tail := by
  cases format with
  | nil => rfl
  | cons c rest =>
      change _ = (flagCase flags c).elim (flags, c :: rest)
        fun flags => scanFlags flags rest
      generalize flag : flagCase flags c = outcome
      unfold flagCase at flag
      split at flag
      case h_6 minus plus space special zero =>
        subst flag
        rw [scanFlags] <;> simp_all
      all_goals
        subst flag
        rfl

theorem flagCase_inside {flags flags' : Flags}
    (flag : flagCase flags (deref format) = some flags') :
    deref format ≠ nul := by
  intro none
  rw [none] at flag
  cases flag

theorem scanFlagsAt_reaches {rounds : Nat} (enough : format.length ≤ rounds)
    (flags : Flags) (string : FormatAt mem stop position format)
    (inside : deref format ≠ nul) :
    ∃ next r', scanFlagsAt mem rounds flags position r =
        .ok ((scanFlags flags format.tail).1, next) r' ∧
      Reached mem args stop (position + 1) r [] next
        (scanFlags flags format.tail).2 r' := by
  have shorter := string.tail_length inside
  induction rounds generalizing flags position format r with
  | zero => omega
  | succ rounds induction =>
      have string' := string.tail inside
      rw [scanFlags_deref, scanFlagsAt, readFormat_bind string']
      cases flag : flagCase flags (deref format.tail) with
      | some flags' =>
          have inside' := flagCase_inside flag
          obtain ⟨next, r', returned, reached⟩ := induction (by omega) flags'
            string' inside' (string'.tail_length inside')
            (r := r.read (position + 1))
          exact ⟨next, r', returned,
            ((Reached.read string').then (.step string' inside')).then
              reached⟩
      | none => exact ⟨_, _, rfl, .read string'⟩

theorem Advance.word (start : Nat) {view : Arg}
    (views : Views (args r.taken) view) :
    Advance args start stop r { r with taken := r.taken + 1 } [view] where
  reads _ member := .inl member
  taken := rfl
  typed i h := by
    obtain rfl : i = 0 := by simpa using h
    exact views

theorem Reached.word (string : FormatAt mem stop position format) {view : Arg}
    (views : Views (args r.taken) view) :
    Reached mem args stop position r [view] position format
      { r with taken := r.taken + 1 } :=
  ⟨string, Nat.le_refl _, .word position views⟩

theorem vaArg_bind {α : Type} {f : VaWord → FormatM α} :
    (vaArg args >>= f) r =
      f (args r.taken) { r with taken := r.taken + 1 } := rfl

@[simp] theorem Printer.vaWord_supplied (q : Printer) (value : BitVec 32)
    (rest : List Arg) : (q.supplied (.word value :: rest)).vaWord =
      some (value, q.supplied rest) := rfl

/-- The width is read as from a list of characters, with one argument for a
star. -/
theorem scanWidthAt_reaches (enough : format.length < limit) (flags : Flags)
    (string : FormatAt mem stop position format) :
    ∃ used flags' width next rest r',
      scanWidthAt mem args limit flags position r =
        .ok (flags', width, next) r' ∧
      Reached mem args stop position r used next rest r' ∧
      ∀ (q : Printer) (others : List Arg),
        scanWidth flags format (q.supplied (used ++ others)) =
          some (flags', width, rest, q.supplied others) := by
  rw [scanWidthAt, readFormat_bind string]
  unfold scanWidth
  by_cases digit : isDigit (deref format)
  · obtain ⟨next, r', returned, reached⟩ : ∃ next r',
        skipAtoiAt mem limit 0 position (r.read position) =
            .ok ((skipAtoi 0 format).1, next) r' ∧
          Reached mem args stop position (r.read position) [] next
            (skipAtoi 0 format).2 r' := skipAtoiAt_reaches enough 0 string
    refine ⟨[], flags, (skipAtoi 0 format).1, next, (skipAtoi 0 format).2, r',
      ?_, (Reached.read string).then reached, ?_⟩
    · rw [if_pos digit, Outcome.bind_of_ok returned]
      rfl
    · intro q others
      rw [if_pos digit]
      rfl
  · rw [if_neg digit, readFormat_bind string]
    have twice : Reached mem args stop position r [] position format
        ((r.read position).read position) :=
      (Reached.read string).then (Reached.read string)
    by_cases star : deref format = '*'
    · have view : Views (args r.taken) (.word (args r.taken).value) := .word
      by_cases negative : (args r.taken).value.toInt < 0
      · refine ⟨_, { flags with left := true },
          int32 (-(args r.taken).value.toInt), position, format, _, ?_,
          twice.then (.word string view), ?_⟩
        · rw [if_pos star, vaArg_bind]
          exact congrFun (if_pos negative) _
        · intro q others
          rw [if_neg digit, if_pos star]
          exact if_pos negative
      · refine ⟨_, flags, (args r.taken).value.toInt, position, format, _, ?_,
          twice.then (.word string view), ?_⟩
        · rw [if_pos star, vaArg_bind]
          exact congrFun (if_neg negative) _
        · intro q others
          rw [if_neg digit, if_pos star]
          exact if_neg negative
    · refine ⟨[], flags, -1, position, format, _, ?_, twice, ?_⟩
      · rw [if_neg star]
        rfl
      · intro q others
        rw [if_neg digit, if_neg star]
        rfl

theorem readPrecisionAt_reaches (enough : format.length < limit)
    (string : FormatAt mem stop position format) :
    ∃ used precision next rest r',
      readPrecisionAt mem args limit position r =
        .ok (precision, next) r' ∧
      Reached mem args stop position r used next rest r' ∧
      ∀ (q : Printer) (others : List Arg),
        readPrecision format (q.supplied (used ++ others)) =
          some (precision, rest, q.supplied others) := by
  rw [readPrecisionAt, readFormat_bind string]
  unfold readPrecision
  by_cases digit : isDigit (deref format)
  · obtain ⟨next, r', returned, reached⟩ : ∃ next r',
        skipAtoiAt mem limit 0 position (r.read position) =
            .ok ((skipAtoi 0 format).1, next) r' ∧
          Reached mem args stop position (r.read position) [] next
            (skipAtoi 0 format).2 r' := skipAtoiAt_reaches enough 0 string
    refine ⟨[], (skipAtoi 0 format).1, next, (skipAtoi 0 format).2, r',
      ?_, (Reached.read string).then reached, ?_⟩
    · rw [if_pos digit, returned]
    · intro q others
      rw [if_pos digit]
      rfl
  · rw [if_neg digit, readFormat_bind string]
    have twice : Reached mem args stop position r [] position format
        ((r.read position).read position) :=
      (Reached.read string).then (Reached.read string)
    by_cases star : deref format = '*'
    · have view : Views (args r.taken) (.word (args r.taken).value) := .word
      refine ⟨_, (args r.taken).value.toInt, position, format, _, ?_,
        twice.then (.word string view), ?_⟩
      · rw [if_pos star]
        rfl
      · intro q others
        rw [if_neg digit, if_pos star]
        rfl
    · refine ⟨[], -1, position, format, _, ?_, twice, ?_⟩
      · rw [if_neg star]
        rfl
      · intro q others
        rw [if_neg digit, if_neg star]
        rfl

theorem scanPrecisionAt_reaches (enough : format.length < limit)
    (string : FormatAt mem stop position format) :
    ∃ used precision next rest r',
      scanPrecisionAt mem args limit position r =
        .ok (precision, next) r' ∧
      Reached mem args stop position r used next rest r' ∧
      ∀ (q : Printer) (others : List Arg),
        scanPrecision format (q.supplied (used ++ others)) =
          some (precision, rest, q.supplied others) := by
  rw [scanPrecisionAt, readFormat_bind string]
  unfold scanPrecision
  by_cases point : deref format = '.'
  · have inside : deref format ≠ nul := by
      rw [point]
      decide
    have shorter := string.tail_length inside
    have forward : Reached mem args stop position (r.read position) []
        (position + 1) format.tail (r.read position) := .step string inside
    obtain ⟨used, precision, next, rest, r', returned, reached, read⟩ :
        ∃ used precision next rest r',
          readPrecisionAt mem args limit (position + 1) (r.read position) =
            .ok (precision, next) r' ∧
          Reached mem args stop (position + 1) (r.read position) used next
            rest r' ∧
          ∀ (q : Printer) (others : List Arg),
            readPrecision format.tail (q.supplied (used ++ others)) =
              some (precision, rest, q.supplied others) :=
      readPrecisionAt_reaches (by omega) (string.tail inside)
    refine ⟨used, if precision < 0 then 0 else precision, next, rest, r', ?_,
      ((Reached.read string).then forward).then reached, ?_⟩
    · rw [if_pos point, Outcome.bind_of_ok returned]
      rfl
    · intro q others
      rw [if_pos point, read]
      rfl
  · refine ⟨[], -1, position, format, _, ?_, .read string, ?_⟩
    · rw [if_neg point]
      rfl
    · intro q others
      rw [if_neg point]
      rfl

theorem skipQualifierAt_reaches (string : FormatAt mem stop position format) :
    ∃ next r', skipQualifierAt mem position r = .ok next r' ∧
      Reached mem args stop position r [] next (skipQualifier format) r' := by
  rw [skipQualifierAt, readFormat_bind string]
  unfold skipQualifier
  by_cases qualifier : deref format = 'h' ∨ deref format = 'l' ∨
      deref format = 'L'
  · have inside : deref format ≠ nul := by
      rintro none
      rw [none] at qualifier
      revert qualifier
      decide
    rw [if_pos qualifier, if_pos qualifier]
    exact ⟨_, _, rfl, (Reached.read string).then (.step string inside)⟩
  · rw [if_neg qualifier, if_neg qualifier]
    exact ⟨_, _, rfl, .read string⟩

theorem convert_case (flags : Flags) (fieldWidth precision : Int)
    (format : Format) (q : Printer) :
    convert flags fieldWidth precision format q =
      (conversionCase flags fieldWidth precision (deref format)).elim
        (some (copyConversion format q)) fun request =>
          (request.conversion q).map fun q => (q, format.tail) := by
  generalize request : conversionCase flags fieldWidth precision
    (deref format) = outcome
  unfold convert
  unfold conversionCase at request
  generalize deref format = c at request ⊢
  split at request
  all_goals
    subst request
    simp only [Request.conversion, Option.map_eq_bind]
    rfl

theorem conversionCase_inside {flags : Flags} {fieldWidth precision : Int}
    {request : Request}
    (known : conversionCase flags fieldWidth precision (deref format) =
      some request) : deref format ≠ nul := by
  intro none
  rw [none] at known
  cases known

end Steps

/-! ## What a conversion stores -/

/-- Two outputs of the same characters, wherever they were taken from. -/
structure SameText (p q : Printer) : Prop where
  output : p.output.map Out.char = q.output.map Out.char
  stores : p.stores = q.stores

namespace SameText

variable {p q : Printer}

theorem emit (same : SameText p q) (text : List Char) :
    SameText (p.emit text) (q.emit text) where
  output := by
    simp only [Printer.emit, List.map_append, same.output]
  stores := same.stores

theorem copy (same : SameText p q) (format : Format) :
    SameText (p.emit [deref format]) (q.copy format) where
  output := by
    simp only [Printer.emit, Printer.copy, List.map_append, same.output]
    rfl
  stores := same.stores

theorem length_eq (same : SameText p q) :
    p.output.length = q.output.length := by
  have lengths := congrArg List.length same.output
  rwa [List.length_map, List.length_map] at lengths

end SameText

/-- The conversion stores something for every word, and the same behind every
output and before all arguments. -/
def Request.Total (request : Request) : Prop :=
  ∃ effect : VaWord → Printer → Printer,
    (∀ word q others, request.conversion
        (q.supplied (request.view word :: others)) =
      some ((effect word q).supplied others)) ∧
    ∀ word p q, SameText p q → SameText (effect word p) (effect word q)

theorem number_total {base : Nat} (two : 2 ≤ base) (most : base ≤ 36)
    (num : BitVec 32) (size precision : Int) (type : Flags) :
    ∃ text, number num base size precision type = some text := by
  have inRange : ¬(base < 2 ∨ 36 < base) := by omega
  simp only [number, if_neg inRange, takeSign_eq, tmp_eq two,
    Option.map_some]
  exact ⟨_, rfl⟩

theorem convertNumber_total {base : Nat} (two : 2 ≤ base) (most : base ≤ 36)
    (flags : Flags) (fieldWidth precision : Int) :
    (Request.word (convertNumber base flags fieldWidth precision)).Total := by
  have texts (word : VaWord) :=
    number_total two most word.value fieldWidth precision flags
  refine ⟨fun word p => p.emit (texts word).choose, ?_, ?_⟩
  · intro word q others
    change (number word.value base fieldWidth precision flags).bind _ = _
    rw [(texts word).choose_spec]
    rfl
  · exact fun word p q same => same.emit _

theorem conversionCase_total {flags : Flags} {fieldWidth precision : Int}
    {c : Char} {request : Request}
    (known : conversionCase flags fieldWidth precision c = some request) :
    request.Total := by
  unfold conversionCase at known
  split at known
  case h_1 | h_2 =>
    obtain rfl := Option.some.inj known
    exact ⟨fun word p => p.emit _, fun word q others => rfl,
      fun word p q same => same.emit _⟩
  case h_11 =>
    obtain rfl := Option.some.inj known
    refine ⟨fun word p => { p with stores := p.stores ++
      [(word.value.toNat, p.output.length)] }, fun word q others => rfl, ?_⟩
    intro word p q same
    refine ⟨same.output, ?_⟩
    simp only [same.stores, same.length_eq]
  case h_12 => cases known
  all_goals
    obtain rfl := Option.some.inj known
    exact convertNumber_total (by decide) (by decide) _ _ _

section Calls

variable {mem : Nat → Char} {args : Nat → VaWord} {limit stop : Nat}
variable {position : Nat} {r : FormatReader} {format : Format} {p q : Printer}

theorem perform_reaches {request : Request} (total : request.Total)
    (string : FormatAt mem stop position format) (same : SameText p q) :
    ∃ used p' q' r', perform args request p r = .ok p' r' ∧
      Reached mem args stop position r used position format r' ∧
      SameText p' q' ∧ ∀ others,
        request.conversion (q.supplied (used ++ others)) =
          some (q'.supplied others) := by
  obtain ⟨effect, stores, shows⟩ := total
  refine ⟨[request.view (args r.taken)],
    (effect (args r.taken) p).supplied [], effect (args r.taken) q, _, ?_,
    .word string (request.views _), ?_, fun others => stores _ _ _⟩
  · rw [perform, vaArg_bind, stores]
    rfl
  · have shown := shows (args r.taken) p q same
    exact ⟨shown.output, shown.stores⟩

/-- Copied, or left for the loop to see again when the NUL is reached. -/
theorem copyConversionAt_reaches
    (string : FormatAt mem stop position format) (positive : 0 < position)
    (same : SameText p q) :
    ∃ p' q' next r', copyConversionAt mem position p r = .ok (p', next) r' ∧
      Reached mem args stop position r [] (next + 1)
        (copyConversion format q).2 r' ∧
      SameText p' q' ∧ ∀ others,
        copyConversion format (q.supplied others) =
          (q'.supplied others, (copyConversion format q).2) := by
  rw [copyConversionAt, readFormat_bind string]
  have twice : Reached mem args stop position r [] position format
      ((r.read position).read position) :=
    (Reached.read string).then (.read string)
  have marked : SameText (if deref format ≠ '%' then p.emit ['%'] else p)
      (if deref format ≠ '%' then q.emit ['%'] else q) := by
    split
    · exact same.emit _
    · exact same
  have supplied (others : List Arg) :
      (if deref format ≠ '%' then (q.supplied others).emit ['%']
        else q.supplied others) =
        (if deref format ≠ '%' then q.emit ['%'] else q).supplied others := by
    split <;> rfl
  unfold copyConversion
  by_cases ended : deref format = nul
  · refine ⟨_, if deref format ≠ '%' then q.emit ['%'] else q, position - 1,
      (r.read position).read position, ?_, ?_, marked, ?_⟩
    · rw [readFormat_bind string]
      exact congrFun (if_neg (not_not.mpr ended)) _
    · have back : position - 1 + 1 = position := by omega
      rw [back, if_neg (not_not.mpr ended)]
      exact twice
    · intro others
      rw [if_neg (not_not.mpr ended), if_neg (not_not.mpr ended), supplied]
  · refine ⟨_, (if deref format ≠ '%' then q.emit ['%'] else q).copy format,
      position, (r.read position).read position, ?_, ?_,
      marked.copy format, ?_⟩
    · rw [readFormat_bind string]
      exact congrFun (if_pos ended) _
    · rw [if_pos ended]
      exact twice.then (.step string ended)
    · intro others
      rw [if_pos ended, if_pos ended, supplied]
      rfl

theorem convertAt_reaches (flags : Flags) (fieldWidth precision : Int)
    (string : FormatAt mem stop position format) (positive : 0 < position)
    (same : SameText p q) :
    ∃ used p' q' next rest r',
      convertAt mem args flags fieldWidth precision position p r =
        .ok (p', next) r' ∧
      Reached mem args stop position r used (next + 1) rest r' ∧
      SameText p' q' ∧ ∀ others,
        convert flags fieldWidth precision format
          (q.supplied (used ++ others)) = some (q'.supplied others, rest) := by
  rw [convertAt, readFormat_bind string]
  cases known : conversionCase flags fieldWidth precision (deref format) with
  | some request =>
      obtain ⟨used, p', q', r', returned, reached, shows, listed⟩ :=
        perform_reaches (r := r.read position) (conversionCase_total known)
          string same
      have inside := conversionCase_inside known
      refine ⟨used, p', q', position, format.tail, r', ?_, ?_, shows, ?_⟩
      · exact Outcome.bind_of_ok returned
      · have further := ((Reached.read string).then reached).trans
          (.step string inside)
        rwa [List.append_nil] at further
      · intro others
        rw [convert_case, known, Option.elim_some, listed]
        rfl
  | none =>
      obtain ⟨p', q', next, r', returned, reached, shows, listed⟩ :
          ∃ p' q' next r',
            copyConversionAt mem position p (r.read position) =
              .ok (p', next) r' ∧
            Reached mem args stop position (r.read position) [] (next + 1)
              (copyConversion format q).2 r' ∧
            SameText p' q' ∧ ∀ others,
              copyConversion format (q.supplied others) =
                (q'.supplied others, (copyConversion format q).2) :=
        copyConversionAt_reaches string positive same
      refine ⟨[], p', q', next, _, r', returned,
        (Reached.read string).then reached, shows, ?_⟩
      intro others
      rw [convert_case, known, Option.elim_none, List.nil_append, listed]

/-- A whole directive, from the `%` to in front of where `++format` of the
loop points. -/
theorem directiveAt_reaches (enough : format.length ≤ limit)
    (string : FormatAt mem stop position format) (inside : deref format ≠ nul)
    (same : SameText p q) :
    ∃ used p' q' next rest r',
      directiveAt mem args limit position p r = .ok (p', next) r' ∧
      Reached mem args stop position r used (next + 1) rest r' ∧
      rest.length < format.length ∧ SameText p' q' ∧ ∀ others,
        directive format.tail (q.supplied (used ++ others)) =
          some (q'.supplied others, rest) := by
  have shorter := string.tail_length inside
  obtain ⟨next₁, r₁, flagsRun, flagsReached⟩ : ∃ next r',
      scanFlagsAt mem limit {} position r =
          .ok ((scanFlags {} format.tail).1, next) r' ∧
        Reached mem args stop (position + 1) r [] next
          (scanFlags {} format.tail).2 r' :=
    scanFlagsAt_reaches enough {} string inside
  generalize flagsScan : scanFlags {} format.tail = scanned at *
  obtain ⟨flags, rest₁⟩ := scanned
  dsimp only at flagsRun flagsReached
  have progress := flagsReached.forward
  have short₁ := flagsReached.string.length_eq
  have whole := string.length_eq
  obtain ⟨used₂, flags', width, next₂, rest₂, r₂, widthRun, widthReached,
      widthScan⟩ : ∃ used flags' width next rest r',
      scanWidthAt mem args limit flags next₁ r₁ = .ok (flags', width, next) r' ∧
      Reached mem args stop next₁ r₁ used next rest r' ∧
      ∀ (q : Printer) (others : List Arg),
        scanWidth flags rest₁ (q.supplied (used ++ others)) =
          some (flags', width, rest, q.supplied others) :=
    scanWidthAt_reaches (by omega) flags flagsReached.string
  have short₂ := widthReached.shorter flagsReached.string
  obtain ⟨used₃, precision, next₃, rest₃, r₃, precisionRun, precisionReached,
      precisionScan⟩ : ∃ used precision next rest r',
      scanPrecisionAt mem args limit next₂ r₂ = .ok (precision, next) r' ∧
      Reached mem args stop next₂ r₂ used next rest r' ∧
      ∀ (q : Printer) (others : List Arg),
        scanPrecision rest₂ (q.supplied (used ++ others)) =
          some (precision, rest, q.supplied others) :=
    scanPrecisionAt_reaches (by omega) widthReached.string
  obtain ⟨next₄, r₄, qualifierRun, qualifierReached⟩ : ∃ next r',
      skipQualifierAt mem next₃ r₃ = .ok next r' ∧
        Reached mem args stop next₃ r₃ [] next (skipQualifier rest₃) r' :=
    skipQualifierAt_reaches precisionReached.string
  have before : Reached mem args stop position r (used₂ ++ used₃) next₄
      (skipQualifier rest₃) r₄ := by
    have first : Reached mem args stop position r [] (position + 1)
        format.tail r := .step string inside
    have parts := (((first.then flagsReached).then widthReached).trans
      precisionReached).trans qualifierReached
    rwa [List.append_nil] at parts
  have forward : next₁ ≤ next₄ := Nat.le_trans widthReached.forward
    (Nat.le_trans precisionReached.forward qualifierReached.forward)
  obtain ⟨used₅, p', q', next₅, rest₅, r₅, convertRun, convertReached, shows,
      converted⟩ : ∃ used p' q' next rest r',
      convertAt mem args flags' width precision next₄ p r₄ =
        .ok (p', next) r' ∧
      Reached mem args stop next₄ r₄ used (next + 1) rest r' ∧
      SameText p' q' ∧ ∀ others,
        convert flags' width precision (skipQualifier rest₃)
          (q.supplied (used ++ others)) = some (q'.supplied others, rest) :=
    convertAt_reaches flags' width precision before.string (by omega) same
  refine ⟨used₂ ++ used₃ ++ used₅, p', q', next₅, rest₅, r₅, ?_,
    before.trans convertReached, ?_, shows, ?_⟩
  · refine (Outcome.bind_of_ok flagsRun).trans ?_
    refine (Outcome.bind_of_ok widthRun).trans ?_
    refine (Outcome.bind_of_ok precisionRun).trans ?_
    exact (Outcome.bind_of_ok qualifierRun).trans convertRun
  · have after := convertReached.string.length_eq
    have onward := convertReached.forward
    omega
  · intro others
    rw [directive, flagsScan, List.append_assoc, List.append_assoc]
    simp only [widthScan, precisionScan, converted, Option.bind_eq_bind,
      Option.bind_some]

theorem FormatAt.nil_of_nul (string : FormatAt mem stop position format)
    (ended : deref format = nul) : format = [] ∧ position = stop := by
  cases string with
  | done ends => exact ⟨rfl, rfl⟩
  | char _ inside _ => exact absurd ended inside

theorem vsprintfLoopAt_reaches {rounds : Nat} (enough : format.length < rounds)
    (within : format.length ≤ limit)
    (string : FormatAt mem stop position format) (same : SameText p q) :
    ∃ used p' q' r',
      vsprintfLoopAt mem args limit rounds position p r = .ok (p', stop) r' ∧
      Reached mem args stop position r used stop [] r' ∧ SameText p' q' ∧
      ∀ listed > format.length, ∀ others,
        vsprintfLoop listed format (q.supplied (used ++ others)) =
          some (q'.supplied others) := by
  induction rounds generalizing position r format p q with
  | zero => omega
  | succ rounds induction =>
      rw [vsprintfLoopAt, readFormat_bind string]
      by_cases ended : deref format = nul
      · obtain ⟨rfl, rfl⟩ := string.nil_of_nul ended
        refine ⟨[], p, q, _, ?_, .read string, same, ?_⟩
        · rw [if_pos ended]
          rfl
        · intro listed more others
          obtain ⟨fewer, rfl⟩ : ∃ fewer, listed = fewer + 1 :=
            ⟨listed - 1, by omega⟩
          rw [vsprintfLoop, if_pos ended, List.nil_append]
      · have shorter := string.tail_length ended
        rw [if_neg ended, readFormat_bind string]
        have twice : Reached mem args stop position r [] position format
            ((r.read position).read position) :=
          (Reached.read string).then (.read string)
        by_cases percent : deref format = '%'
        · obtain ⟨used, p₁, q₁, next, rest, r₁, returned, reached, passed,
              shows, listedOne⟩ := directiveAt_reaches
            (r := (r.read position).read position) within string ended same
          obtain ⟨more, p', q', r', others, onward, shown, listedRest⟩ :=
            induction (by omega) (by omega) reached.string shows (r := r₁)
          refine ⟨used ++ more, p', q', r', ?_,
            (twice.then reached).trans onward, shown, ?_⟩
          · rw [if_neg (not_not.mpr percent)]
            exact (Outcome.bind_of_ok returned).trans others
          · intro listed many rest'
            obtain ⟨fewer, rfl⟩ : ∃ fewer, listed = fewer + 1 :=
              ⟨listed - 1, by omega⟩
            rw [vsprintfLoop, if_neg ended, if_neg (not_not.mpr percent),
              List.append_assoc, listedOne]
            exact listedRest fewer (by omega) rest'
        · obtain ⟨used, p', q', r', others, onward, shown, listedRest⟩ :=
            induction (by omega) (by omega) (string.tail ended)
              (same.copy format)
              (r := ((r.read position).read position).read position)
          refine ⟨used, p', q', r', ?_, ?_, shown, ?_⟩
          · rw [if_pos percent, readFormat_bind string]
            exact others
          · exact ((twice.then (.read string)).then
              (.step string ended)).then onward
          · intro listed many rest'
            obtain ⟨fewer, rfl⟩ : ∃ fewer, listed = fewer + 1 :=
              ⟨listed - 1, by omega⟩
            rw [vsprintfLoop, if_neg ended, if_pos percent]
            exact listedRest fewer (by omega) rest'

end Calls

/-- `vsprintf` terminates inside the format: for every string, well formed or
not, and all arguments, it returns with `format` at the NUL, has read from the
string only, and has stored what the list of the characters is printed as. -/
theorem vsprintfAt_terminates {mem : Nat → Char} {format stop : Nat}
    {chars : Format} (string : FormatAt mem stop format chars)
    (args : Nat → VaWord) {limit : Nat} (enough : chars.length < limit) :
    ∃ p r, vsprintfAt mem args limit format ⟨[], 0⟩ = .ok (p, stop) r ∧
      (∀ address ∈ r.reads, format ≤ address ∧ address ≤ stop) ∧
      ∃ used printed, vsprintf chars used = some printed ∧
        r.taken = used.length ∧
        (∀ (i : Nat) (h : i < used.length), Views (args i) used[i]) ∧
        printed.output.map Out.char = p.output.map Out.char ∧
        printed.stores = p.stores := by
  obtain ⟨used, p, q, r, returned, reached, shows, listed⟩ :
      ∃ used p' q' r',
        vsprintfLoopAt mem args limit limit format ⟨[], [], []⟩ ⟨[], 0⟩ =
          .ok (p', stop) r' ∧
        Reached mem args stop format ⟨[], 0⟩ used stop [] r' ∧ SameText p' q' ∧
        ∀ listed > chars.length, ∀ others,
          vsprintfLoop listed chars
            ((⟨[], [], []⟩ : Printer).supplied (used ++ others)) =
              some (q'.supplied others) :=
    vsprintfLoopAt_reaches enough (Nat.le_of_lt enough) string ⟨rfl, rfl⟩
  refine ⟨p, r, returned, ?_, used, q.finish, ?_, ?_, ?_, shows.output.symm,
    shows.stores.symm⟩
  · intro address member
    rcases reached.advance.reads address member with before | inside
    · cases before
    · exact inside
  · have loop := listed (chars.length + 1) (Nat.lt_succ_self _) []
    rw [List.append_nil] at loop
    exact congrArg (Option.bind · fun p => some p.finish) loop
  · exact reached.advance.taken.trans (Nat.zero_add _)
  · intro i h
    have view := reached.advance.typed i h
    rwa [Nat.zero_add] at view

/-- The string `%-` at 100, cut in the flags. -/
def cutFormat (address : Nat) : Char :=
  if address = 100 then '%' else if address = 101 then '-' else nul

/-- A zero that points to an empty string. -/
def zeroWord : VaWord where
  value := 0
  text := ⟨[], List.not_mem_nil, by decide⟩

theorem vsprintfAt_terminates_cutFormat :
    ∃ p r, vsprintfAt cutFormat (fun _ => zeroWord) 3 100 ⟨[], 0⟩ =
        .ok (p, 102) r ∧
      ∀ address ∈ r.reads, 100 ≤ address ∧ address ≤ 102 := by
  have string : FormatAt cutFormat 102 100 ['%', '-'] :=
    .char rfl (by decide) (.char rfl (by decide) (.done rfl))
  obtain ⟨p, r, returned, inside, _⟩ :=
    vsprintfAt_terminates string (fun _ => zeroWord) (by decide : 2 < 3)
  exact ⟨p, r, returned, inside⟩

end MiniOS
