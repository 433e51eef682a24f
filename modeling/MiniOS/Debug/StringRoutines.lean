import MiniOS.Schedule.ProcName

/-!
# String routines (`string.c`)

`strcmp` orders NUL-terminated strings as unsigned bytes, `strcat` appends one
to the other.
-/

namespace MiniOS

open ByteMemory

/-! ## `string.c` -/

def strcmpLoop (mem : Mem) : Nat → Nat → Nat → Option Int
  | 0, _, _ => none
  | rounds + 1, str1, str2 =>
      if mem str1 ≠ 0 ∧ mem str1 = mem str2 then
        strcmpLoop mem rounds (uint32 (str1 + 1)) (uint32 (str2 + 1))
      else some ((mem str1).toNat - (mem str2).toNat)

/-- The loop of `strlen`; `none` also if `cnt` overflows. -/
def strlenLoop (mem : Mem) : Nat → Nat → Nat → Option Nat
  | 0, _, _ => none
  | rounds + 1, s, cnt =>
      if mem s = 0 then some cnt
      else if cnt < 2147483647 then
        strlenLoop mem rounds (uint32 (s + 1)) (cnt + 1)
      else none

/-- `char *strcat(char *dest, const char *src)`: what `strcpy` returns. -/
def strcatAt (rounds dest src : Nat) (mem : Mem) : Option (Nat × Mem) := do
  let length ← strlenLoop mem rounds dest 0
  strcpyAt rounds (uint32 (dest + length)) src mem

/-! ## What they compute -/

section Strings

variable {mem : Mem} {rounds str1 str2 s cnt : Nat}
  {first second chars : List UInt8}

/-- `result` has the sign of the order of the strings. -/
structure Orders (first second : List UInt8) (result : Int) : Prop where
  below : result < 0 ↔ first < second
  same : result = 0 ↔ first = second
  above : 0 < result ↔ second < first

theorem Orders.nil : Orders [] [] 0 := by
  constructor <;> simp

theorem Orders.nil_cons {char : UInt8} (proper : char ≠ 0)
    (chars : List UInt8) : Orders [] (char :: chars) (0 - char.toNat) := by
  have positive : 0 < char.toNat :=
    Nat.pos_of_ne_zero fun zero => proper (UInt8.toNat_inj.mp zero)
  constructor <;> simp <;> omega

theorem Orders.cons_nil {char : UInt8} (proper : char ≠ 0)
    (chars : List UInt8) : Orders (char :: chars) [] char.toNat := by
  have positive : 0 < char.toNat :=
    Nat.pos_of_ne_zero fun zero => proper (UInt8.toNat_inj.mp zero)
  constructor <;> simp <;> omega

theorem Orders.cons_same {result : Int} (char : UInt8)
    (later : Orders first second result) :
    Orders (char :: first) (char :: second) result where
  below := by simp [later.below]
  same := by simp [later.same]
  above := by simp [later.above]

theorem Orders.cons_differ {char other : UInt8} (differ : char ≠ other)
    (first second : List UInt8) :
    Orders (char :: first) (other :: second)
      (char.toNat - other.toNat) := by
  have values : char.toNat ≠ other.toNat := mt UInt8.toNat_inj.mp differ
  constructor
  · rw [List.cons_lt_cons_iff, UInt8.lt_iff_toNat_lt]
    simp only [differ, false_and, or_false]
    omega
  · simp only [List.cons.injEq, differ, false_and, iff_false]
    omega
  · rw [List.cons_lt_cons_iff, UInt8.lt_iff_toNat_lt]
    simp only [differ.symm, false_and, or_false]
    omega

end Strings

/-- `strcmp` returns, and the sign of its result is the order of the strings as
lists of unsigned bytes. -/
theorem strcmpLoop_orders {mem : Mem} {rounds str1 str2 : Nat}
    {first second : List UInt8} (string1 : StringAt mem str1 first)
    (string2 : StringAt mem str2 second) (proper1 : 0 ∉ first)
    (proper2 : 0 ∉ second) (enough : first.length < rounds) :
    ∃ result, strcmpLoop mem rounds str1 str2 = some result ∧
      Orders first second result := by
  induction first generalizing rounds str1 str2 second with
  | nil =>
      obtain ⟨rounds, rfl⟩ := Nat.exists_eq_add_one.mpr enough
      have ended : mem str1 = 0 := string1
      refine ⟨_, if_neg fun goes => goes.1 ended, ?_⟩
      rw [ended]
      cases second with
      | nil =>
          rw [show mem str2 = 0 from string2]
          exact .nil
      | cons other second =>
          rw [show mem str2 = other from string2.1]
          exact .nil_cons (List.ne_of_not_mem_cons proper2).symm second
  | cons char first induction =>
      obtain ⟨rounds, rfl⟩ := Nat.exists_eq_add_one.mpr
        (Nat.lt_of_le_of_lt (Nat.zero_le _) enough)
      have here : mem str1 = char := string1.1
      have nonzero : char ≠ 0 := (List.ne_of_not_mem_cons proper1).symm
      cases second with
      | nil =>
          have ended : mem str2 = 0 := string2
          refine ⟨_, if_neg fun goes => goes.1 (goes.2.trans ended), ?_⟩
          rw [here, ended]
          simpa using Orders.cons_nil nonzero first
      | cons other second =>
          have there : mem str2 = other := string2.1
          by_cases same : char = other
          · subst same
            obtain ⟨result, returned, orders⟩ := induction string1.2 string2.2
              (List.not_mem_of_not_mem_cons proper1)
              (List.not_mem_of_not_mem_cons proper2)
              (Nat.lt_of_succ_lt_succ enough)
            refine ⟨result, ?_, orders.cons_same char⟩
            rw [strcmpLoop, if_pos ⟨here ▸ nonzero, here.trans there.symm⟩]
            exact returned
          · refine ⟨_, if_neg fun goes => same
              (here.symm.trans (goes.2.trans there)), ?_⟩
            rw [here, there]
            exact .cons_differ same first second

/-- The string `tty` at 0x1000, `ttS` at 0x2000. -/
def twoStrings : Mem := fun x =>
  if x = 0x1000 ∨ x = 0x1001 ∨ x = 0x2000 ∨ x = 0x2001 then 116
  else if x = 0x1002 then 121
  else if x = 0x2002 then 83
  else 0

theorem strcmpLoop_orders_twoStrings :
    ∃ result, strcmpLoop twoStrings 4 0x1000 0x2000 = some result ∧
      0 < result := by
  obtain ⟨result, returned, orders⟩ := strcmpLoop_orders
    (show StringAt twoStrings 0x1000 [116, 116, 121] by decide)
    (show StringAt twoStrings 0x2000 [116, 116, 83] by decide)
    (by decide) (by decide) (show 3 < 4 by decide)
  exact ⟨result, returned, orders.above.mpr (by decide)⟩

section Append

variable {mem mem' : Mem} {rounds dest src s cnt address : Nat}
  {first second chars : List UInt8}

theorem strlenLoop_length (string : StringAt mem s chars) (proper : 0 ∉ chars)
    (enough : chars.length < rounds)
    (fits : cnt + chars.length < 2147483648) :
    strlenLoop mem rounds s cnt = some (cnt + chars.length) := by
  induction chars generalizing rounds s cnt with
  | nil =>
      obtain ⟨rounds, rfl⟩ := Nat.exists_eq_add_one.mpr enough
      exact if_pos string
  | cons char chars induction =>
      obtain ⟨rounds, rfl⟩ := Nat.exists_eq_add_one.mpr
        (Nat.lt_of_le_of_lt (Nat.zero_le _) enough)
      have nonzero : mem s ≠ 0 :=
        string.1 ▸ (List.ne_of_not_mem_cons proper).symm
      rw [List.length_cons] at fits ⊢
      rw [strlenLoop, if_neg nonzero, if_pos (by omega), induction string.2
        (List.not_mem_of_not_mem_cons proper)
        (Nat.lt_of_succ_lt_succ enough) (by omega)]
      congr 1
      omega

/-- Once it has returned, `strcpy` returns the same with more rounds. -/
theorem strcpyLoop_more {more : Nat} (fewer : rounds ≤ more)
    (returned : strcpyLoop rounds dest src mem = some mem') :
    strcpyLoop more dest src mem = some mem' := by
  induction rounds generalizing more dest src mem with
  | zero => cases returned
  | succ rounds induction =>
      obtain ⟨more, rfl⟩ := Nat.exists_eq_add_one.mpr
        (Nat.lt_of_lt_of_le (Nat.succ_pos rounds) fewer)
      rw [strcpyLoop] at returned ⊢
      by_cases goes : mem src ≠ 0
      · rw [if_pos goes] at returned ⊢
        exact induction (Nat.le_of_succ_le_succ fewer) returned
      · rw [if_neg goes] at returned ⊢
        exact returned

/-- Characters in front of a string make a longer one. -/
theorem StringAt.append (small : address < 4294967296)
    (front : ∀ i (bound : i < first.length),
      mem (uint32 (address + i)) = first[i])
    (string : StringAt mem (uint32 (address + first.length)) second) :
    StringAt mem address (first ++ second) := by
  induction first generalizing address with
  | nil => simpa [uint32_of_lt small] using string
  | cons char first induction =>
      refine ⟨?_, induction (uint32_lt _) ?_ ?_⟩
      · have here := front 0 (Nat.succ_pos _)
        rwa [Nat.add_zero, uint32_of_lt small] at here
      · intro i bound
        have here := front (i + 1) (Nat.succ_lt_succ bound)
        rwa [uint32_next]
      · rwa [uint32_next]

end Append

/-- `strcat` makes one string of the two at `dest` and changes nothing else,
where no character of `src` is the NUL that it writes over; it returns where
the second begins. -/
theorem strcatAt_appends {mem : Mem} {rounds dest src : Nat}
    {first second : List UInt8} (string1 : StringAt mem dest first)
    (string2 : StringAt mem src second) (proper1 : 0 ∉ first)
    (proper2 : 0 ∉ second) (srcSmall : src < 4294967296)
    (countable : first.length < 2147483648)
    (room : dest + first.length + second.length < 4294967296)
    (apart : ∀ i ≤ second.length, uint32 (src + i) ≠ dest + first.length)
    (enough : first.length < rounds ∧ second.length < rounds) :
    ∃ mem', strcatAt rounds dest src mem =
        some (dest + first.length, mem') ∧
      StringAt mem' dest (first ++ second) ∧
      ∀ x, (x < dest + first.length ∨
        dest + first.length + second.length < x) → mem' x = mem x := by
  have start : uint32 (dest + first.length) = dest + first.length :=
    uint32_of_lt (by omega)
  -- the copy reads ahead of what it writes, so only the old NUL can be lost
  obtain ⟨mem', copies, copied⟩ := strcpyLoop_copies
    (show dest + first.length < 4294967296 by omega) srcSmall string2 proper2
    (by omega) apart
  have others : ∀ x, (x < dest + first.length ∨
      dest + first.length + second.length < x) → mem' x = mem x := by
    intro x outside
    apply copied.others
    intro i bound
    rw [uint32_of_lt (by omega)]
    omega
  refine ⟨mem', ?_, ?_, others⟩
  · have length := @strlenLoop_length mem rounds dest 0 first string1 proper1
      enough.1 (by omega)
    rw [Nat.zero_add] at length
    have copying := strcpyLoop_more enough.2 copies
    simp only [strcatAt, length, Option.bind_eq_bind, Option.bind_some, start,
      strcpyAt, copying, Option.map_some]
  · apply StringAt.append (by omega)
    · intro i bound
      have old := ((stringAt_iff (by omega)).mp string1).1 i bound
      rw [uint32_of_lt (by omega)] at old ⊢
      rw [others _ (.inl (by omega)), old]
    · rw [start]
      exact copied.string

theorem strcatAt_appends_twoStrings :
    ∃ mem', strcatAt 4 0x1000 0x2000 twoStrings = some (0x1003, mem') ∧
      StringAt mem' 0x1000 [116, 116, 121, 116, 116, 83] := by
  obtain ⟨mem', returned, string, _⟩ := strcatAt_appends
    (show StringAt twoStrings 0x1000 [116, 116, 121] by decide)
    (show StringAt twoStrings 0x2000 [116, 116, 83] by decide)
    (by decide) (by decide) (by decide) (by decide) (by decide) (by decide)
    (show 3 < 4 ∧ 3 < 4 by decide)
  exact ⟨mem', returned, string⟩

end MiniOS
