import MiniOS.Driver.Keyboard
import MiniOS.Driver.KeySequence

/-!
# One key

The flags that the second part of `keyboard_read` sets, the key it passes on
and the character it prints.
-/

namespace MiniOS

def Decoder.modifier (d : Decoder) : Modifier → Bool
  | .shiftL => d.shiftL
  | .shiftR => d.shiftR
  | .ctrlL => d.ctrlL
  | .ctrlR => d.ctrlR
  | .altL => d.altL
  | .altR => d.altR

/-- The `switch` assigns to the flag of its key, but `ALT_R` to `alt_l`. -/
theorem Decoder.setModifier_modifier (d : Decoder) (key : Key) (make : Bool)
    (m : Modifier) :
    (d.setModifier key make).modifier m =
      if (key = m.key ∧ m ≠ .altR) ∨ (m = .altL ∧ key = Key.altR) then make
      else d.modifier m := by
  by_cases named : ∃ other : Modifier, key = other.key
  · obtain ⟨other, rfl⟩ := named
    cases other <;> cases m <;> rfl
  · have differs : ∀ other : Modifier, key ≠ other.key :=
      fun other same => named ⟨other, same⟩
    have unchanged : d.setModifier key make = d :=
      calc
        d.setModifier key make = _ := if_neg (differs .shiftL)
        _ = _ := if_neg (differs .shiftR)
        _ = _ := if_neg (differs .ctrlL)
        _ = _ := if_neg (differs .ctrlR)
        _ = _ := if_neg (differs .altL)
        _ = d := if_neg (differs .altR)
    have noFlag : ¬ ((key = m.key ∧ m ≠ .altR) ∨
        (m = .altL ∧ key = Key.altR)) := by
      rintro (⟨same, -⟩ | ⟨-, same⟩)
      · exact differs m same
      · exact differs .altR same
    rw [unchanged, if_neg noFlag]

def Decoder.keyColumn (d : Decoder) : Nat :=
  if d.codeWithE0 then 2 else if d.shiftL || d.shiftR then 1 else 0

theorem Decoder.keyColumn_lt (d : Decoder) : d.keyColumn < 3 := by
  unfold keyColumn
  split
  · decide
  · split <;> decide

theorem Decoder.selectColumn_eq (d : Decoder) :
    d.selectColumn = { d with codeWithE0 := false, column := d.keyColumn } := by
  unfold selectColumn keyColumn
  cases d.codeWithE0 <;> cases d.shiftL <;> cases d.shiftR <;> rfl

@[simp] theorem inProcess_modifier (key : Key) (d : Decoder) (m : Modifier) :
    (inProcess key d).modifier m = d.modifier m := by
  unfold inProcess
  split <;> cases m <;> rfl

theorem decodeKey_modifier (scanCode : BitVec 8) (d : Decoder)
    (m : Modifier) :
    (decodeKey scanCode d).modifier m =
      if (keyAt scanCode d.keyColumn = m.key ∧ m ≠ .altR) ∨
          (m = .altL ∧ keyAt scanCode d.keyColumn = Key.altR) then
        isMake scanCode
      else d.modifier m := by
  have flags : ∀ make, ({ d with codeWithE0 := false, column := d.keyColumn
      }.setModifier (keyAt scanCode d.keyColumn) make).modifier m =
      if (keyAt scanCode d.keyColumn = m.key ∧ m ≠ .altR) ∨
          (m = .altL ∧ keyAt scanCode d.keyColumn = Key.altR) then make
      else d.modifier m := by
    intro make
    rw [Decoder.setModifier_modifier]
    cases m <;> rfl
  simp only [decodeKey, Decoder.selectColumn_eq]
  split
  · rw [inProcess_modifier, flags]
    rfl
  · rw [flags]
    rfl

theorem inProcess_passed (key : Key) (d : Decoder) :
    (inProcess key d).passed = d.passed ++ [key] := by
  unfold inProcess
  split <;> rfl

theorem inProcess_flags (key : Key) (d : Decoder) :
    (inProcess key d).flags = d.flags := by
  unfold inProcess
  split <;> rfl

/-- The flags leave the bits of a character and `FLAG_EXT` free. -/
theorem Decoder.flags_and (d : Decoder) : d.flags &&& 0x1FF = 0 := by
  have all : ∀ shiftL shiftR ctrlL ctrlR altL altR : Bool,
      (flagIf shiftL Key.flagShiftL ||| flagIf shiftR Key.flagShiftR |||
        flagIf ctrlL Key.flagCtrlL ||| flagIf ctrlR Key.flagCtrlR |||
        flagIf altL Key.flagAltL ||| flagIf altR Key.flagAltR) &&& 0x1FF = 0 := by
    decide +kernel
  exact all _ _ _ _ _ _

theorem or_flags_and {flags mask : Key} (free : flags &&& 0x1FF = 0)
    (small : 0x1FF &&& mask = mask) (key : Key) :
    (key ||| flags) &&& mask = key &&& mask := by
  have none : flags &&& mask = 0 := by
    rw [← small, ← BitVec.and_assoc, free]
    exact BitVec.zero_and
  rw [BitVec.and_comm, BitVec.and_or_distrib_left, BitVec.and_comm mask flags,
    none, BitVec.and_comm mask key]
  exact BitVec.or_zero

theorem inProcess_printed {key flags : Key} (free : flags &&& 0x1FF = 0)
    (character : key &&& Key.flagExt = 0 → key.toNat < 128) (d : Decoder) :
    (inProcess (key ||| flags) d).printed =
      d.printed ++
        if key ≠ 0 ∧ key &&& Key.flagExt = 0 then [key.setWidth 8] else [] := by
  have byte : ((key ||| flags) &&& 0xFF).setWidth 8 = key.setWidth 8 := by
    rw [or_flags_and free (by decide), BitVec.setWidth_and]
    exact BitVec.and_allOnes
  unfold inProcess
  rw [or_flags_and free (by decide)]
  by_cases plain : key &&& Key.flagExt = 0
  · have small := character plain
    have zero : key.setWidth 8 = 0 ↔ key = 0 := by
      constructor <;> intro eq <;> bv_omega
    simp only [byte]
    rw [if_pos plain]
    by_cases none : key = 0
    · rw [if_neg (fun printed => printed.1 none), zero.mpr none]
      rfl
    · have visible : key.setWidth 8 ≠ 0 := fun h => none (zero.mp h)
      have line : [key.setWidth 8, 0].takeWhile (· ≠ 0) = [key.setWidth 8] :=
        (List.takeWhile_cons_of_pos (p := fun c : BitVec 8 => c ≠ 0)
          (decide_eq_true visible)).trans rfl
      rw [if_pos ⟨none, plain⟩, line]
  · rw [if_neg plain, if_neg (fun printed => plain printed.2), List.append_nil]
theorem decodeKey_output (scanCode : BitVec 8) (d : Decoder) :
    let key := keyAt scanCode d.keyColumn
    (decodeKey scanCode d).passed = d.passed ++
        (if isMake scanCode then [key ||| (decodeKey scanCode d).flags]
        else []) ∧
      (decodeKey scanCode d).printed = d.printed ++
        if isMake scanCode ∧ key ≠ 0 ∧ key &&& Key.flagExt = 0 then
          [key.setWidth 8]
        else [] := by
  intro key
  have character : key &&& Key.flagExt = 0 → key.toNat < 128 :=
    fun plain => ((keyAt_character scanCode d.keyColumn_lt).1 plain).1
  have kept : ∀ (key : Key) (make : Bool) (d : Decoder),
      (d.setModifier key make).passed = d.passed ∧
        (d.setModifier key make).printed = d.printed := by
    intro key make d
    unfold Decoder.setModifier
    split_ifs <;> exact ⟨rfl, rfl⟩
  simp only [decodeKey, Decoder.selectColumn_eq, isMake]
  by_cases make : scanCode &&& 0x80 = 0
  · simp only [make, decide_true, if_true, true_and]
    rw [inProcess_passed, inProcess_flags,
      inProcess_printed (Decoder.flags_and _) character, (kept _ _ _).1,
      (kept _ _ _).2]
    exact ⟨rfl, rfl⟩
  · simp only [make, decide_false, Bool.false_eq_true, if_false, false_and,
      List.append_nil]
    exact kept _ _ _

/-- The strike that the flag of a key follows: `ALT_R` sets `alt_l`. -/
def Modifier.follows (strike : Modifier → Option Bool) :
    Modifier → Option Bool
  | shiftL => strike shiftL
  | shiftR => strike shiftR
  | ctrlL => strike ctrlL
  | ctrlR => strike ctrlR
  | altL => (strike altL).or (strike altR)
  | altR => none

theorem decodeKey_follows (scanCode : BitVec 8) (d : Decoder) (m : Modifier) :
    (decodeKey scanCode d).modifier m =
      (m.follows (·.struckBy d.codeWithE0 scanCode)).getD (d.modifier m) := by
  have column : decide (d.keyColumn = 2) = d.codeWithE0 := by
    unfold Decoder.keyColumn
    cases d.codeWithE0 <;> cases d.shiftL <;> cases d.shiftR <;> rfl
  have named : ∀ m : Modifier, m.struckBy d.codeWithE0 scanCode =
      if keyAt scanCode d.keyColumn = m.key then some (isMake scanCode)
      else none := by
    intro m
    simp only [Modifier.struckBy, keyAt_modifier m scanCode d.keyColumn_lt,
      column]
  have one : ∀ (key : Key) (before : Bool),
      (if keyAt scanCode d.keyColumn = key then isMake scanCode else before) =
        (if keyAt scanCode d.keyColumn = key then some (isMake scanCode)
          else none).getD before := by
    intro key before
    split <;> rfl
  rw [decodeKey_modifier]
  cases m with
  | altL =>
      simp only [Modifier.follows, named, Modifier.key]
      by_cases left : keyAt scanCode d.keyColumn = Key.altL
      · simp [left]
      · by_cases right : keyAt scanCode d.keyColumn = Key.altR
        · simp [right]
        · simp [left, right]
  | altR => simp [Modifier.follows]
  | _ => simpa [Modifier.follows, named] using one _ _

end MiniOS
