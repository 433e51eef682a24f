import MiniOS.Debug.Number

/-!
# What the text of a number says

The text that `number` stores has five parts.  Its digits are read back here,
and its length and the zeros before the digits are counted, for every base,
flags, width and precision at which no `int` overflows.
-/

namespace MiniOS

def digitValue (small : Bool) (digit : Char) : Nat :=
  (digitTable small).idxOf digit

/-- Digits read in a base, most significant first. -/
def readDigits (small : Bool) (base : Nat) (digits : List Char) : Nat :=
  digits.foldl (fun value digit => value * base + digitValue small digit) 0

/-- The number that the digits stand for. -/
def magnitude (type : Flags) (num : BitVec 32) : Nat :=
  if type.sign then num.toInt.natAbs else num.toNat

/-- What must be shown: the sign, the mark, and the digits up to the
precision. -/
def neededLength (num : BitVec 32) (base : Nat) (precision : Int)
    (type : Flags) (digits : List Char) : Int :=
  (signText type num).length + (markText type base).length +
    max (digits.length : Int) precision

/-- The parts of a text that renders a number. -/
structure NumberText (num : BitVec 32) (base : Nat) (size precision : Int)
    (type : Flags) (text : List Char) (leading zeros : Nat)
    (digits : List Char) (trailing : Nat) : Prop where
  parts : text = List.replicate leading ' ' ++ signText type num ++
    markText type base ++ List.replicate zeros '0' ++ digits ++
      List.replicate trailing ' '
  leading_flags : leading ≠ 0 → type.zeropad = false ∧ type.left = false
  trailing_flags : trailing ≠ 0 → type.left = true
  zeros_eq : (zeros : Int) = max (digits.length : Int) precision -
    digits.length + if type.zeropad = true ∧ type.left = false then
      max 0 (size - neededLength num base precision type digits) else 0
  digits_base : ∀ digit ∈ digits, digit ∈ (digitTable type.small).take base
  reads : readDigits type.small base digits = magnitude type num
  zero : magnitude type num = 0 → digits = ['0']
  no_leading_zero : magnitude type num ≠ 0 → digits.head? ≠ some '0'
  length_eq : (text.length : Int) =
    max size (neededLength num base precision type digits)

/-! ## Digits read back -/

theorem readDigits_eq (small : Bool) (base : Nat) (digits : List Char) :
    readDigits small base digits =
      Nat.ofDigits base ((digits.map (digitValue small)).reverse) := by
  rw [Nat.ofDigits_eq_foldr, List.foldr_reverse, List.foldl_map]
  unfold readDigits
  congr
  funext value digit
  rw [Nat.mul_comm, Nat.add_comm]
  rfl

theorem digitValue_getD (small : Bool) :
    ∀ digit < 36,
      digitValue small ((digitTable small).getD digit nul) = digit := by
  cases small <;> decide

theorem getD_mem_take (small : Bool) {base digit : Nat} (upper : base ≤ 36)
    (below : digit < base) :
    (digitTable small).getD digit nul ∈ (digitTable small).take base := by
  have length : (digitTable small).length = 36 := by cases small <;> decide
  rw [List.mem_take_iff_getElem]
  have inside : digit < min base (digitTable small).length := by omega
  refine ⟨digit, inside, ?_⟩
  rw [List.getD_eq_getElem?_getD, List.getElem?_eq_getElem (by omega)]
  rfl

section Numeral

variable {base : Nat}

theorem numeral_reads (two : 2 ≤ base) (upper : base ≤ 36) (small : Bool)
    (value : BitVec 32) :
    readDigits small base (numeral small base value) = value.toNat := by
  rw [readDigits_eq]
  unfold numeral
  split
  case isTrue zero =>
    subst zero
    cases small <;> simp [digitValue, digitTable]
  case isFalse =>
    have values : ((Nat.digits base value.toNat).map fun digit =>
        (digitTable small).getD digit nul).map (digitValue small) =
          Nat.digits base value.toNat := by
      rw [List.map_map]
      conv_rhs => rw [← List.map_id (Nat.digits base value.toNat)]
      apply List.map_congr_left
      intro digit member
      have below := Nat.digits_lt_base (by omega) member
      exact digitValue_getD small digit (by omega)
    rw [List.map_reverse, List.reverse_reverse, values, Nat.ofDigits_digits]

theorem numeral_base (two : 2 ≤ base) (upper : base ≤ 36) (small : Bool)
    (value : BitVec 32) :
    ∀ digit ∈ numeral small base value,
      digit ∈ (digitTable small).take base := by
  unfold numeral
  split
  case isTrue =>
    intro digit member
    obtain rfl := List.mem_singleton.mp member
    have first : (digitTable small).getD 0 nul ∈
        (digitTable small).take base :=
      getD_mem_take small upper (by omega)
    cases small <;> exact first
  case isFalse =>
    intro digit member
    obtain ⟨index, inDigits, rfl⟩ :=
      List.mem_map.mp (List.mem_reverse.mp member)
    exact getD_mem_take small upper (Nat.digits_lt_base (by omega) inDigits)

theorem numeral_head (two : 2 ≤ base) (upper : base ≤ 36) (small : Bool)
    {value : BitVec 32} (nonzero : value ≠ 0) :
    (numeral small base value).head? ≠ some '0' := by
  have positive : value.toNat ≠ 0 := fun zero =>
    nonzero (BitVec.eq_of_toNat_eq zero)
  have last := Nat.getLast_digit_ne_zero base positive
  have nonempty := Nat.digits_ne_nil_iff_ne_zero (b := base).mpr positive
  have below : (Nat.digits base value.toNat).getLast nonempty < 36 :=
    Nat.lt_of_lt_of_le
      (Nat.digits_lt_base (by omega) (List.getLast_mem nonempty)) upper
  unfold numeral
  rw [if_neg nonzero, List.head?_reverse, List.getLast?_map,
    List.getLast?_eq_some_getLast nonempty]
  intro same
  have same : (digitTable small).getD ((Nat.digits base value.toNat).getLast
      nonempty) nul = '0' := Option.some.inj same
  have shown := digitValue_getD small _ below
  rw [same] at shown
  have zero : digitValue small '0' = 0 := by cases small <;> rfl
  exact last (shown.symm.trans zero)

end Numeral

/-- The digits stand for the absolute value, where there is a sign, also for
the least `int`. -/
theorem digitsText_value (type : Flags) (num : BitVec 32) :
    (if isNegative type num then -num else num).toNat =
      magnitude type num := by
  unfold isNegative magnitude
  cases type.sign with
  | false => simp
  | true =>
      have range := num.isLt
      by_cases negative : num.toInt < 0
      · simp only [Bool.true_and, decide_eq_true_eq, negative, if_true]
        rw [BitVec.toNat_neg]
        rw [BitVec.toInt_eq_toNat_cond] at negative ⊢
        split at negative <;> split <;> omega
      · simp only [Bool.true_and, decide_eq_true_eq, negative, if_true,
          if_false]
        rw [BitVec.toInt_eq_toNat_cond] at negative ⊢
        split at negative <;> split <;> omega

section Render

variable {num : BitVec 32} {base : Nat} {size precision : Int} {type : Flags}

/-- The five parts of a number field; where the filling goes depends on the
flags alone. -/
theorem renderNumber_parts (num : BitVec 32) (base : Nat)
    (size precision : Int) (type : Flags) :
    ∃ leading zeros trailing,
      renderNumber num base size.toNat precision.toNat type =
        List.replicate leading ' ' ++ signText type num ++
          markText type base ++ List.replicate zeros '0' ++
            digitsText type base num ++ List.replicate trailing ' ' ∧
      (leading ≠ 0 → type.zeropad = false ∧ type.left = false) ∧
      (trailing ≠ 0 → type.left = true) ∧
      (zeros : Int) = max ((digitsText type base num).length : Int)
        precision - (digitsText type base num).length +
          if type.zeropad = true ∧ type.left = false then
            max 0 (size - neededLength num base precision type
              (digitsText type base num)) else 0 := by
  unfold renderNumber neededLength
  simp only [List.length_append, List.length_replicate]
  generalize (digitsText type base num) = digits
  generalize room : size.toNat - ((signText type num).length +
    (markText type base).length +
      (precision.toNat - digits.length + digits.length)) = fill
  cases left : type.left with
  | true =>
      refine ⟨0, precision.toNat - digits.length, fill, ?_, ?_, ?_, ?_⟩
      · simp
      · exact fun some => absurd rfl some
      · exact fun _ => rfl
      · simp only [Bool.true_eq_false, and_false, ↓reduceIte, add_zero]
        omega
  | false =>
      cases zeropad : type.zeropad with
      | true =>
          refine ⟨0, fill + (precision.toNat - digits.length), 0, ?_, ?_, ?_,
            ?_⟩
          · simp [← List.replicate_append_replicate]
          · exact fun some => absurd rfl some
          · exact fun some => absurd rfl some
          · simp only [Nat.cast_add, and_self, ↓reduceIte]
            omega
      | false =>
          refine ⟨fill, precision.toNat - digits.length, 0, ?_, ?_, ?_, ?_⟩
          · simp
          · exact fun _ => ⟨rfl, rfl⟩
          · exact fun some => absurd rfl some
          · simp only [Bool.false_eq_true, and_true, ↓reduceIte, add_zero]
            omega

theorem renderNumber_length (num : BitVec 32) (base : Nat)
    (size precision : Int) (type : Flags) :
    ((renderNumber num base size.toNat precision.toNat type).length : Int) =
      max size (neededLength num base precision type
        (digitsText type base num)) := by
  have digits : 1 ≤ (digitsText type base num).length :=
    numeral_length_pos ..
  unfold renderNumber neededLength
  simp only []
  split
  · simp only [List.length_append, List.length_replicate]
    omega
  · split <;> simp only [List.length_append, List.length_replicate] <;> omega

theorem renderNumber_text (lower : 2 ≤ base) (upper : base ≤ 36) :
    ∃ leading zeros trailing,
      NumberText num base size precision type
        (renderNumber num base size.toNat precision.toNat type) leading zeros
        (digitsText type base num) trailing := by
  obtain ⟨leading, zeros, trailing, parts, leadingFlags, trailingFlags,
    zerosEq⟩ := renderNumber_parts num base size precision type
  have shown := digitsText_value type num
  refine ⟨leading, zeros, trailing, parts, leadingFlags, trailingFlags,
    zerosEq, ?_, ?_, ?_, ?_, renderNumber_length ..⟩
  · exact numeral_base lower upper type.small _
  · rw [digitsText, numeral_reads lower upper, shown]
  · intro zero
    have none := BitVec.eq_of_toNat_eq (y := 0) (shown.trans zero)
    unfold digitsText numeral
    rw [if_pos none]
  · intro nonzero
    apply numeral_head lower upper
    intro none
    rw [none] at shown
    exact nonzero shown.symm

/-- `number` renders exactly: for every number, base and flags, and every
width and precision at which no `int` overflows. -/
theorem number_exact (lower : 2 ≤ base) (upper : base ≤ 36)
    (sizeUpper : size ≤ 2147483647) (precisionUpper : precision ≤ 2147483647)
    (fits : NoOverflow num base size precision type) :
    ∃ text leading zeros digits trailing,
      number num base size precision type = some text ∧
        NumberText num base size precision type text leading zeros digits
          trailing := by
  have stored := number_renders lower upper sizeUpper precisionUpper fits
  obtain ⟨leading, zeros, trailing, rendered⟩ : ∃ leading zeros trailing,
      NumberText num base size precision type
        (renderNumber num base size.toNat precision.toNat type) leading zeros
        (digitsText type base num) trailing :=
    renderNumber_text lower upper
  exact ⟨_, leading, zeros, _, trailing, stored, rendered⟩

end Render

/-- The least `int` in a wide field. -/
theorem number_exact_least :
    number 0x80000000#32 10 15 (-1) { sign := true } =
        some "    -2147483648".toList ∧
      ∃ text leading zeros digits trailing,
        number 0x80000000#32 10 15 (-1) { sign := true } = some text ∧
          NumberText 0x80000000#32 10 15 (-1) { sign := true } text leading
            zeros digits trailing := by
  refine ⟨by decide, number_exact (by decide) (by decide) (by decide)
    (by decide) ?_⟩
  have short : (digitsText { sign := true } 10 0x80000000#32).length ≤ 32 :=
    numeral_length (by decide) ..
  have sign : (signText { sign := true } 0x80000000#32).length = 1 := by
    decide
  have mark : (markText { sign := true } 10).length = 0 := rfl
  have loops : sizeLoops { sign := true } = 3 := rfl
  unfold NoOverflow
  omega

end MiniOS
