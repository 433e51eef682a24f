import MiniOS.Debug.Elf
import MiniOS.Schedule.Ring

/-!
# The name of a thread

`set_proc_name` clears the field and copies up to the NUL of its argument,
wherever that is: nothing bounds the copy, and an argument that lies in the
field or runs into it is changed before it is read.  Here the two strings are
bytes of one memory.
-/

namespace MiniOS

open ByteMemory

def strcpyLoop : Nat → Nat → Nat → Mem → Option Mem
  | 0, _, _, _ => none
  | rounds + 1, p, src, mem =>
      let char := mem src
      let mem := store8 mem p char
      if char ≠ 0 then
        strcpyLoop rounds (uint32 (p + 1)) (uint32 (src + 1)) mem
      else some mem

def strcpyAt (rounds dest src : Nat) (mem : Mem) : Option (Nat × Mem) :=
  (strcpyLoop rounds dest src mem).map fun mem => (dest, mem)

def setProcNameAt (rounds proc name : Nat) (mem : Mem) : Option (Nat × Mem) :=
  strcpyAt rounds (proc + nameOffset) name
    (fill mem (proc + nameOffset) 0 (procNameLen + 1))

def InNameField (proc x : Nat) : Prop :=
  proc + nameOffset ≤ x ∧ x < proc + nameOffset + procNameLen + 1

/-- Of the PCB only the name is new: the characters, cut to the length of the
field, and the NUL behind them. -/
structure NameSet (proc : Nat) (chars : List UInt8) (mem mem' : Mem) :
    Prop where
  fields : ∀ x, proc ≤ x → x < proc + procSize → ¬InNameField proc x →
    mem' x = mem x
  name : StringAt mem' (proc + nameOffset) (chars.take procNameLen)

/-! ## Strings -/

section Strings

variable {mem mem' : Mem} {chars : List UInt8} {address : Nat}

theorem uint32_next (address i : Nat) :
    uint32 (uint32 (address + 1) + i) = uint32 (address + (i + 1)) := by
  simp only [uint32]
  omega

theorem stringAt_iff (small : address < 4294967296) :
    StringAt mem address chars ↔
      (∀ i (bound : i < chars.length),
        mem (uint32 (address + i)) = chars[i]) ∧
      mem (uint32 (address + chars.length)) = 0 := by
  induction chars generalizing address with
  | nil => simp [StringAt, uint32_of_lt small]
  | cons char chars induction =>
      rw [StringAt, induction (uint32_lt _)]
      simp only [uint32_next, List.length_cons]
      constructor
      · rintro ⟨first, others, nul⟩
        refine ⟨?_, nul⟩
        intro i bound
        cases i with
        | zero => rw [Nat.add_zero, uint32_of_lt small, first]; rfl
        | succ i => exact others i (Nat.lt_of_succ_lt_succ bound)
      · rintro ⟨every, nul⟩
        refine ⟨?_, ?_, nul⟩
        · have first := every 0 (Nat.succ_pos _)
          rwa [Nat.add_zero, uint32_of_lt small] at first
        · intro i bound
          exact every (i + 1) (Nat.succ_lt_succ bound)

theorem StringAt.congr (small : address < 4294967296)
    (string : StringAt mem address chars)
    (same : ∀ i ≤ chars.length,
      mem' (uint32 (address + i)) = mem (uint32 (address + i))) :
    StringAt mem' address chars := by
  rw [stringAt_iff small] at string ⊢
  refine ⟨?_, ?_⟩
  · intro i bound
    rw [same i (Nat.le_of_lt bound), string.1 i bound]
  · rw [same _ (Nat.le_refl _), string.2]

end Strings

/-! ## The loop -/

section Loop

variable {mem mem' : Mem} {chars : List UInt8} {dest src rounds : Nat}

theorem strcpyLoop_unique {rounds' : Nat} {left right : Mem}
    (first : strcpyLoop rounds dest src mem = some left)
    (second : strcpyLoop rounds' dest src mem = some right) :
    left = right := by
  induction rounds generalizing rounds' dest src mem with
  | zero => simp [strcpyLoop] at first
  | succ rounds induction =>
      cases rounds' with
      | zero => simp [strcpyLoop] at second
      | succ rounds' =>
          rw [strcpyLoop] at first second
          by_cases last : mem src = 0
          · simp only [last, ne_eq, not_true_eq_false, if_false,
              Option.some.injEq] at first second
            rw [← first, second]
          · simp only [last, ne_eq, not_false_eq_true, if_true]
              at first second
            exact induction first second

/-- The string lies at `dest` as well and nothing else has changed. -/
structure Copied (dest : Nat) (chars : List UInt8) (mem mem' : Mem) :
    Prop where
  string : StringAt mem' dest chars
  others : ∀ x, (∀ i ≤ chars.length, x ≠ uint32 (dest + i)) → mem' x = mem x

theorem strcpyLoop_nul (nul : mem src = 0) :
    strcpyLoop (rounds + 1) dest src mem = some (store8 mem dest 0) := by
  simp [strcpyLoop, nul]

theorem Copied.nul (small : dest < 4294967296) :
    Copied dest [] mem (store8 mem dest 0) := by
  refine ⟨store8_same .., ?_⟩
  intro x outside
  have other := outside 0 (Nat.le_refl 0)
  rw [Nat.add_zero, uint32_of_lt small] at other
  exact store8_other _ _ other

theorem Copied.cons {char : UInt8} (small : dest < 4294967296)
    (few : chars.length + 1 < 4294967296)
    (tail : Copied (uint32 (dest + 1)) chars (store8 mem dest char) mem') :
    Copied dest (char :: chars) mem mem' := by
  refine ⟨⟨?_, tail.string⟩, ?_⟩
  · rw [tail.others dest ?_, store8_same]
    intro i bound
    simp only [uint32]
    omega
  · intro x outside
    have start := outside 0 (Nat.zero_le _)
    rw [Nat.add_zero, uint32_of_lt small] at start
    rw [tail.others x ?_, store8_other _ _ start]
    intro i bound
    rw [uint32_next]
    exact outside (i + 1) (by simpa using bound)

theorem Copied.unique {left right : Mem} (small : dest < 4294967296)
    (first : Copied dest chars mem left)
    (second : Copied dest chars mem right) : left = right := by
  have here := (stringAt_iff small).mp first.string
  have there := (stringAt_iff small).mp second.string
  funext x
  by_cases outside : ∀ i ≤ chars.length, x ≠ uint32 (dest + i)
  · rw [first.others x outside, second.others x outside]
  · push Not at outside
    obtain ⟨i, bound, rfl⟩ := outside
    rcases Nat.eq_or_lt_of_le bound with rfl | bound
    · rw [here.2, there.2]
    · rw [here.1 i bound, there.1 i bound]

/-- `strcpy` of the module on PCBs, which has its source as a list. -/
theorem strcpy_copied (room : dest + chars.length < 4294967296) :
    Copied dest chars mem (strcpy mem dest chars) := by
  induction chars generalizing dest mem with
  | nil => exact .nul room
  | cons char chars induction =>
      rw [List.length_cons] at room
      apply Copied.cons (by omega) (by omega)
      rw [uint32_of_lt (by omega)]
      exact induction (by omega)

/-- A copy that does not begin inside its source runs up to the NUL. -/
theorem strcpyLoop_copies (destSmall : dest < 4294967296)
    (srcSmall : src < 4294967296) (string : StringAt mem src chars)
    (proper : 0 ∉ chars) (few : chars.length < 4294967296)
    (apart : ∀ i ≤ chars.length, uint32 (src + i) ≠ dest) :
    ∃ mem', strcpyLoop (chars.length + 1) dest src mem = some mem' ∧
      Copied dest chars mem mem' := by
  induction chars generalizing dest src mem with
  | nil => exact ⟨_, strcpyLoop_nul string, .nul destSmall⟩
  | cons char chars induction =>
      obtain ⟨first, others⟩ := string
      rw [List.mem_cons, not_or] at proper
      simp only [List.length_cons] at few apart
      have others' : StringAt (store8 mem dest char) (uint32 (src + 1))
          chars := by
        apply others.congr (uint32_lt _)
        intro i bound
        rw [uint32_next]
        exact store8_other _ _ (apart (i + 1) (by omega))
      obtain ⟨mem', returned, copied⟩ := induction (uint32_lt (dest + 1))
        (uint32_lt _) others' proper.2 (by omega) (by
          intro i bound
          have before := apart i (by omega)
          simp only [uint32] at before ⊢
          omega)
      refine ⟨mem', ?_, copied.cons destSmall few⟩
      rw [List.length_cons, strcpyLoop, first, if_pos (Ne.symm proper.1),
        returned]

/-- A copy that begins behind the start of its source overwrites the NUL with
what it has read before, and never meets one. -/
theorem strcpyLoop_chases {ahead : Nat} (srcSmall : src < 4294967296)
    (positive : 0 < ahead) (few : ahead < 4294967296)
    (proper : ∀ i < ahead, mem (uint32 (src + i)) ≠ 0) :
    strcpyLoop rounds (uint32 (src + ahead)) src mem = none := by
  induction rounds generalizing src mem with
  | zero => rfl
  | succ rounds induction =>
      have first := proper 0 positive
      rw [Nat.add_zero, uint32_of_lt srcSmall] at first
      have next : uint32 (uint32 (src + ahead) + 1) =
          uint32 (uint32 (src + 1) + ahead) := by
        simp only [uint32]
        omega
      rw [strcpyLoop, if_pos first, next]
      apply induction (uint32_lt _)
      intro i bound
      rw [uint32_next]
      by_cases last : i + 1 = ahead
      · rw [last, store8_same]
        exact first
      · rw [store8_other _ _ (by simp only [uint32]; omega)]
        exact proper (i + 1) (by omega)

end Loop

/-! ## `set_proc_name` -/

section SetProcName

variable {mem mem' : Mem} {chars : List UInt8} {proc name rounds dest : Nat}

def nameCleared (mem : Mem) (proc : Nat) : Mem :=
  fill mem (proc + nameOffset) 0 (procNameLen + 1)

theorem nameCleared_inside {x : Nat} (inside : InNameField proc x) :
    nameCleared mem proc x = 0 :=
  fill_inside mem 0 inside.1 inside.2

theorem nameCleared_outside {x : Nat} (outside : ¬InNameField proc x) :
    nameCleared mem proc x = mem x := by
  apply fill_outside
  simp only [InNameField] at outside
  omega

theorem setProcNameAt_eq_some :
    setProcNameAt rounds proc name mem = some (dest, mem') ↔
      dest = proc + nameOffset ∧
        strcpyLoop rounds (proc + nameOffset) name (nameCleared mem proc) =
          some mem' := by
  simp only [setProcNameAt, strcpyAt, nameCleared, Option.map_eq_some_iff,
    Prod.mk.injEq]
  constructor
  · rintro ⟨_, copied, rfl, rfl⟩
    exact ⟨rfl, copied⟩
  · rintro ⟨rfl, copied⟩
    exact ⟨_, copied, rfl, rfl⟩

theorem Copied.nameSet (fits : proc + procSize ≤ 4294967296)
    (short : chars.length ≤ procNameLen)
    (copied : Copied (proc + nameOffset) chars (nameCleared mem proc) mem') :
    NameSet proc chars mem mem' where
  fields := by
    intro x lower upper outside
    rw [copied.others x ?_, nameCleared_outside outside]
    intro i bound
    simp only [InNameField, uint32, procSize, procNameLen, nameOffset]
      at fits short outside ⊢
    omega
  name := by
    rw [List.take_of_length_le short]
    exact copied.string

/-- Of a longer name the character in the last place of the field stays
there. -/
theorem Copied.not_nameSet (fits : proc + procSize ≤ 4294967296)
    (proper : 0 ∉ chars) (long : procNameLen < chars.length)
    (copied : Copied (proc + nameOffset) chars (nameCleared mem proc) mem') :
    ¬NameSet proc chars mem mem' := by
  intro set
  have small : proc + nameOffset < 4294967296 := by
    simp only [procSize, nameOffset] at *
    omega
  have nul := ((stringAt_iff small).mp set.name).2
  have char := ((stringAt_iff small).mp copied.string).1 procNameLen long
  rw [List.length_take, Nat.min_eq_left (Nat.le_of_lt long), char] at nul
  exact proper (nul ▸ List.getElem_mem long)

/-- The NUL-terminated string lies beside the field of the PCB. -/
def BesideNameField (proc name length : Nat) : Prop :=
  ∀ i ≤ length, ¬InNameField proc (uint32 (name + i))

theorem setProcName_copies (fits : proc + procSize ≤ 4294967296)
    (small : name < 4294967296) (string : StringAt mem name chars)
    (proper : 0 ∉ chars) (beside : BesideNameField proc name chars.length) :
    ∃ mem', strcpyLoop (chars.length + 1) (proc + nameOffset) name
        (nameCleared mem proc) = some mem' ∧
      Copied (proc + nameOffset) chars (nameCleared mem proc) mem' := by
  simp only [BesideNameField, InNameField, procSize, procNameLen, nameOffset]
    at fits beside ⊢
  apply strcpyLoop_copies (by omega) small ?_ proper ?_ ?_
  · apply string.congr small
    intro i bound
    exact nameCleared_outside (beside i bound)
  · by_contra long
    have reached := beside
      ((proc + 44 + 4294967296 - name) % 4294967296) (by omega)
    simp only [uint32] at reached
    omega
  · intro i bound same
    have outside := beside i bound
    omega

/-- For such a name that fits, the two pointers do what `setProcName` does
with the characters. -/
theorem setProcNameAt_eq (fits : proc + procSize ≤ 4294967296)
    (small : name < 4294967296) (string : StringAt mem name chars)
    (proper : 0 ∉ chars) (short : chars.length ≤ procNameLen)
    (beside : BesideNameField proc name chars.length) :
    setProcNameAt (chars.length + 1) proc name mem =
      some (proc + nameOffset, setProcName mem proc chars) := by
  obtain ⟨mem', returned, copied⟩ :=
    setProcName_copies fits small string proper beside
  have room : proc + nameOffset + chars.length < 4294967296 := by
    simp only [procSize, procNameLen, nameOffset] at *
    omega
  rw [setProcNameAt_eq_some]
  refine ⟨rfl, ?_⟩
  rw [returned, copied.unique (by omega) (strcpy_copied room)]
  rfl

/-- A string that begins in front of the field and runs into it has its
characters up to there overwritten for ever. -/
theorem setProcName_chases (fits : proc + procSize ≤ 4294967296)
    (small : name < 4294967296) (string : StringAt mem name chars)
    (proper : 0 ∉ chars) (outside : ¬InNameField proc name)
    (runsInto : ¬BesideNameField proc name chars.length) :
    strcpyLoop rounds (proc + nameOffset) name (nameCleared mem proc) =
      none := by
  obtain ⟨i, bound, inside⟩ :
      ∃ i ≤ chars.length, InNameField proc (uint32 (name + i)) := by
    simpa [BesideNameField] using runsInto
  simp only [InNameField, procSize, procNameLen, nameOffset] at *
  obtain ⟨ahead, positive, few, start, reached⟩ : ∃ ahead, 0 < ahead ∧
      ahead < 4294967296 ∧ uint32 (name + ahead) = proc + 44 ∧
      ahead ≤ i := by
    refine ⟨(proc + 44 + 4294967296 - name) % 4294967296, ?_, ?_, ?_, ?_⟩ <;>
      simp only [uint32] at * <;> omega
  rw [← start]
  apply strcpyLoop_chases small positive few
  intro j before
  have char := ((stringAt_iff small).mp string).1 j (by omega)
  rw [nameCleared_outside (by
    simp only [InNameField, uint32, procNameLen, nameOffset] at *
    omega), char]
  intro zero
  exact proper (zero ▸ List.getElem_mem _)

/-- `set_proc_name` sets the name and nothing else exactly if the name fits
and lies beside the field; the empty name may lie anywhere. -/
theorem setProcName_iff (fits : proc + procSize ≤ 4294967296)
    (small : name < 4294967296) (string : StringAt mem name chars)
    (proper : 0 ∉ chars) :
    (∃ rounds dest mem', setProcNameAt rounds proc name mem =
        some (dest, mem') ∧ NameSet proc chars mem mem') ↔
      chars = [] ∨ chars.length ≤ procNameLen ∧
        BesideNameField proc name chars.length := by
  have destSmall : proc + nameOffset < 4294967296 := by
    simp only [procSize, nameOffset] at *
    omega
  simp only [setProcNameAt_eq_some]
  constructor
  · rintro ⟨rounds, _, mem', ⟨rfl, returned⟩, set⟩
    cases chars with
    | nil => exact .inl rfl
    | cons char chars =>
        right
        have first : mem' (proc + nameOffset) = char := set.name.1
        by_cases inside : InNameField proc name
        · cases rounds with
          | zero => simp [strcpyLoop] at returned
          | succ rounds =>
              rw [strcpyLoop_nul (nameCleared_inside inside),
                Option.some.injEq] at returned
              rw [← returned, store8_same] at first
              exact absurd (by simp [first]) proper
        · by_cases beside : BesideNameField proc name (char :: chars).length
          · refine ⟨?_, beside⟩
            obtain ⟨mem'', returned', copied⟩ :=
              setProcName_copies fits small string proper beside
            obtain rfl := strcpyLoop_unique returned returned'
            by_contra long
            exact copied.not_nameSet fits proper (by omega) set
          · rw [setProcName_chases fits small string proper inside beside]
              at returned
            cases returned
  · rintro (rfl | ⟨short, beside⟩)
    · have nul : nameCleared mem proc name = 0 := by
        by_cases inside : InNameField proc name
        · exact nameCleared_inside inside
        · rw [nameCleared_outside inside]
          exact string
      exact ⟨1, _, _, ⟨rfl, strcpyLoop_nul nul⟩,
        (Copied.nul destSmall).nameSet fits (Nat.zero_le _)⟩
    · have room : proc + nameOffset + chars.length < 4294967296 := by
        simp only [procSize, procNameLen, nameOffset] at *
        omega
      have returned :=
        setProcNameAt_eq fits small string proper short beside
      exact ⟨_, _, _, setProcNameAt_eq_some.mp returned,
        (strcpy_copied room).nameSet fits short⟩

end SetProcName

/-- A memory with `count` characters at 0x1000 and zeros elsewhere. -/
def charactersAt (count : Nat) : Mem :=
  fun x => if 0x1000 ≤ x ∧ x < 0x1000 + count then 65 else 0

/-- Fifteen characters are the longest name. -/
theorem setProcName_fifteen :
    ∃ rounds dest mem', setProcNameAt rounds 0x2000 0x1000 (charactersAt 15) =
        some (dest, mem') ∧
      NameSet 0x2000 (List.replicate 15 65) (charactersAt 15) mem' := by
  refine (setProcName_iff (by decide) (by decide) (by decide)
    (by decide)).mpr (.inr ⟨by decide, ?_⟩)
  simp only [BesideNameField, InNameField, List.length_replicate, uint32,
    nameOffset, procNameLen]
  omega

/-- With sixteen the field has no NUL; with more the copy goes on through
`flags`, `parent` and the links of the ring. -/
theorem setProcName_thirtyTwo :
    (∃ mem', setProcNameAt 33 0x2000 0x1000 (charactersAt 32) =
        some (0x202C, mem') ∧ procNext (charactersAt 32) 0x2000 = 0 ∧
      procNext mem' 0x2000 = 0x41414141) ∧
    ¬∃ rounds dest mem', setProcNameAt rounds 0x2000 0x1000
        (charactersAt 32) = some (dest, mem') ∧
      NameSet 0x2000 (List.replicate 32 65) (charactersAt 32) mem' := by
  have fits : 0x2000 + procSize ≤ 4294967296 := by decide
  have string : StringAt (charactersAt 32) 0x1000 (List.replicate 32 65) := by
    decide
  have proper : (0 : UInt8) ∉ List.replicate 32 65 := by decide
  have beside : BesideNameField 0x2000 0x1000
      (List.replicate 32 (65 : UInt8)).length := by
    simp only [BesideNameField, InNameField, List.length_replicate, uint32,
      nameOffset, procNameLen]
    omega
  obtain ⟨mem', returned, copied⟩ :=
    setProcName_copies fits (by decide) string proper beside
  have char := ((stringAt_iff (by decide)).mp copied.string).1
  refine ⟨⟨mem', setProcNameAt_eq_some.mpr ⟨rfl, returned⟩, by decide, ?_⟩, ?_⟩
  · have byte : ∀ i < 4, mem' (0x2000 + nextOffset + i) = 65 := by
      intro i bound
      have stored := char (28 + i) (by rw [List.length_replicate]; omega)
      rw [List.getElem_replicate] at stored
      rw [← stored, uint32_of_lt (by simp only [nameOffset]; omega)]
      congr 1
      simp only [nextOffset, nameOffset]
      omega
    rw [procNext, load32, ← Nat.add_zero (0x2000 + nextOffset),
      byte 0 (by decide), Nat.add_zero, byte 1 (by decide), byte 2 (by decide),
      byte 3 (by decide)]
    decide
  · rintro ⟨rounds, dest, mem'', again, set⟩
    obtain ⟨_, again⟩ := setProcNameAt_eq_some.mp again
    obtain rfl := strcpyLoop_unique returned again
    exact copied.not_nameSet fits proper (by decide) set

end MiniOS
