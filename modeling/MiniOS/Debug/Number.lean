import Mathlib.Data.Nat.Digits.Lemmas
import MiniOS.Debug.Printk

/-!
# What `number` renders

`renderNumber` describes a number field by its parts: sign, base mark, digits
behind zeros up to the precision, and filling up to the width on the side that
the flags ask for.  As long as no `int` overflows, `number` stores exactly
these characters.
-/

namespace MiniOS

/-! ## The parts of a number field -/

def isNegative (type : Flags) (num : BitVec 32) : Bool :=
  type.sign && num.toInt < 0

def signText (type : Flags) (num : BitVec 32) : List Char :=
  if isNegative type num then ['-'] else
    if type.plus then ['+'] else if type.space then [' '] else []

/-- `0`, `0x` or `0X` before the digits. -/
def markText (type : Flags) (base : Nat) : List Char :=
  if type.special then
    if base = 8 then ['0']
    else if base = 16 then ['0', if type.small then 'x' else 'X'] else []
  else []

def numeral (small : Bool) (base : Nat) (value : BitVec 32) : List Char :=
  if value = 0 then ['0']
  else ((Nat.digits base value.toNat).map
    fun digit => (digitTable small).getD digit nul).reverse

/-- The digits of the absolute value, where there is a sign. -/
def digitsText (type : Flags) (base : Nat) (num : BitVec 32) : List Char :=
  numeral type.small base (if isNegative type num then -num else num)

def renderNumber (num : BitVec 32) (base width precision : Nat)
    (type : Flags) : List Char :=
  let sign := signText type num ++ markText type base
  let digits := digitsText type base num
  let body := List.replicate (precision - digits.length) '0' ++ digits
  let room := width - (sign.length + body.length)
  if type.left then sign ++ body ++ List.replicate room ' '
  else if type.zeropad then sign ++ List.replicate room '0' ++ body
  else List.replicate room ' ' ++ sign ++ body

/-! ## The loops -/

theorem int32_of_range {value : Int} (lower : -2147483648 ≤ value)
    (upper : value ≤ 2147483647) : int32 value = value := by
  apply Int.bmod_eq_of_le <;> omega

theorem int32_range (value : Int) :
    -2147483648 ≤ int32 value ∧ int32 value ≤ 2147483647 := by
  have lower := Int.le_bmod (x := value) (m := 4294967296) (by decide)
  have upper := Int.bmod_lt (x := value) (m := 4294967296) (by decide)
  unfold int32
  omega

/-- Below the least `int` it goes on at the greatest. -/
theorem int32_of_below {value : Int} (lower : -6442450944 ≤ value)
    (upper : value < -2147483648) : int32 value = value + 4294967296 := by
  have same : int32 value = int32 (value + 4294967296) := by
    unfold int32
    exact (Int.add_bmod_right value 4294967296).symm
  rw [same]
  exact int32_of_range (by omega) (by omega)

theorem int32_sub (left right : Int) :
    int32 (int32 left - right) = int32 (left - right) :=
  Int.bmod_sub_bmod

/-- Any number of rounds that is enough: the loop stores down to its bound,
and the last decrement may wrap. -/
theorem padLoop_all {c : Char} {bound size : Int} {rounds : Nat}
    (enough : (size - bound).toNat < rounds) (lower : -2147483648 ≤ bound)
    (upper : size ≤ 2147483647) :
    padLoop c bound rounds size =
      (List.replicate (size - bound).toNat c, int32 (min bound size - 1)) := by
  induction rounds generalizing size with
  | zero => omega
  | succ rounds induction =>
      rw [padLoop]
      split
      · rename_i more
        have kept : int32 (size - 1) = size - 1 :=
          int32_of_range (by omega) (by omega)
        have count : (size - bound).toNat = (size - 1 - bound).toNat + 1 := by
          omega
        have last : min bound (size - 1) = min bound size := by omega
        rw [kept, induction (by omega) (by omega), last, count,
          List.replicate_succ]
      · rename_i done
        have none : (size - bound).toNat = 0 := by omega
        have last : size = min bound size := by omega
        rw [none, ← last, List.replicate_zero]

theorem padWhile_all {c : Char} {bound size : Int}
    (lower : -2147483648 ≤ bound) (upper : size ≤ 2147483647) :
    padWhile c bound size =
      (List.replicate (size - bound).toNat c, int32 (min bound size - 1)) :=
  padLoop_all (by omega) lower upper

/-- What `while (bound < size--)` does when no `int` overflows. -/
theorem padWhile_eq {c : Char} {bound size : Int}
    (lower : -2147483648 < min bound size) (upper : size ≤ 2147483647) :
    padWhile c bound size =
      (List.replicate (size - bound).toNat c, min bound size - 1) := by
  have kept : int32 (min bound size - 1) = min bound size - 1 :=
    int32_of_range (by omega) (by omega)
  rw [padWhile_all (by omega) upper, kept]

theorem divLoop_eq {digits : List Char} {base room num : Nat}
    (two : 2 ≤ base) (fits : num < base ^ room) :
    divLoop digits base room num =
      some ((Nat.digits base num).map fun digit => digits.getD digit nul) := by
  induction room generalizing num with
  | zero =>
      obtain rfl : num = 0 := by simpa using fits
      simp [divLoop]
  | succ room induction =>
      rw [divLoop]
      by_cases zero : num = 0
      · simp [zero]
      · have smaller : num / base < base ^ room := by
          apply Nat.div_lt_of_lt_mul
          rwa [Nat.mul_comm, ← Nat.pow_succ]
        have split := Nat.digits_def' (show 1 < base by omega)
          (Nat.pos_of_ne_zero zero)
        rw [if_neg zero, induction smaller, split]
        rfl

theorem toNat_lt_pow {base : Nat} (two : 2 ≤ base) (num : BitVec 32) :
    num.toNat < base ^ 32 :=
  Nat.lt_of_lt_of_le num.isLt (Nat.pow_le_pow_left two 32)

theorem numeral_length {base : Nat} (two : 2 ≤ base) (small : Bool)
    (value : BitVec 32) : (numeral small base value).length ≤ 32 := by
  unfold numeral
  split
  · decide
  · rw [List.length_reverse, List.length_map]
    exact (Nat.digits_length_le_iff (by omega) _).mpr (toNat_lt_pow two value)

theorem numeral_length_pos (small : Bool) (base : Nat) (value : BitVec 32) :
    1 ≤ (numeral small base value).length := by
  unfold numeral
  split
  · decide
  · rename_i nonzero
    rw [List.length_reverse, List.length_map]
    have digits : Nat.digits base value.toNat ≠ [] :=
      Nat.digits_ne_nil_iff_ne_zero.mpr fun zero =>
        nonzero (BitVec.eq_of_toNat_eq zero)
    exact List.length_pos_of_ne_nil digits

theorem tmp_eq {base : Nat} (two : 2 ≤ base) (small : Bool)
    (value : BitVec 32) :
    (if value = 0 then some ['0']
      else divLoop (digitTable small) base 36 value.toNat) =
      some (numeral small base value).reverse := by
  have bound : value.toNat < base ^ 36 :=
    Nat.lt_of_lt_of_le (toNat_lt_pow two value)
      (Nat.pow_le_pow_right (by omega) (by decide))
  rw [divLoop_eq two bound]
  unfold numeral
  split
  · rfl
  · rw [List.reverse_reverse]

/-! ## The whole field -/

/-- The loops of `number` over `size`; each leaves it one lower. -/
def sizeLoops (type : Flags) : Int :=
  if type.left then 1 else if type.zeropad then 2 else 3

/-- The least value of `size` in `number` is an `int`. -/
def NoOverflow (num : BitVec 32) (base : Nat) (size precision : Int)
    (type : Flags) : Prop :=
  -2147483648 + sizeLoops type ≤ size - (signText type num).length -
    (markText type base).length -
      max precision (digitsText type base num).length

/-- The least value of `size` in `number`, three rounds of its loops
included, is an `int`. -/
def SizeFits (num : BitVec 32) (base : Nat) (size precision : Int)
    (type : Flags) : Prop :=
  -2147483648 + 3 ≤ size - (signText type num).length -
    (markText type base).length -
      max precision (digitsText type base num).length

theorem takeSign_eq (type : Flags) (num : BitVec 32) :
    takeSign type num =
      (signText type num, if isNegative type num then -num else num) := by
  unfold takeSign signText isNegative
  split <;> rfl

theorem signText_length (type : Flags) (num : BitVec 32) :
    (signText type num).length ≤ 1 := by
  unfold signText
  split
  · decide
  · split
    · decide
    · split <;> decide

theorem markText_length (type : Flags) (base : Nat) :
    (markText type base).length ≤ 2 := by
  unfold markText
  split
  · split
    · decide
    · split <;> simp
  · decide

theorem mark_eq (type : Flags) (base : Nat) :
    (if type.special then
      if base = 8 then ['0']
      else if base = 16 then ['0', (digitTable type.small).getD 33 nul] else []
      else []) = markText type base := by
  unfold markText
  cases type.small <;> rfl

theorem sizeLoops_pos (type : Flags) : 1 ≤ sizeLoops type := by
  unfold sizeLoops
  split
  · decide
  · split <;> decide

theorem padWhile_nothing {c : Char} {bound size : Int}
    (lower : -2147483648 < size) (upper : size ≤ 2147483647)
    (done : size ≤ bound) : padWhile c bound size = ([], size - 1) := by
  rw [padWhile_eq (by omega) upper]
  have none : (size - bound).toNat = 0 := by omega
  have last : min bound size - 1 = size - 1 := by omega
  rw [none, last, List.replicate_zero]

theorem layout_eq {sign tmp : List Char} {base : Nat} {size precision : Int}
    {type : Flags} (exclusive : type.left = true → type.zeropad = false)
    (sizeUpper : size ≤ 2147483647) (precisionUpper : precision ≤ 2147483647)
    (short : tmp.length ≤ 32)
    (fits : -2147483648 + sizeLoops type ≤
      size - max precision tmp.length) :
    layout (digitTable type.small) sign base size precision type tmp =
      let body := List.replicate (precision.toNat - tmp.length) '0' ++
        tmp.reverse
      let room := size.toNat - body.length
      if type.left then
        sign ++ markText type base ++ body ++ List.replicate room ' '
      else if type.zeropad then
        sign ++ markText type base ++ List.replicate room '0' ++ body
      else List.replicate room ' ' ++ sign ++ markText type base ++ body := by
  have larger : (if (tmp.length : Int) > precision then (tmp.length : Int)
      else precision) = max precision tmp.length := by
    split <;> omega
  have loops := sizeLoops_pos type
  generalize wide : max precision (tmp.length : Int) = total at *
  have shown : int32 (size - total) = size - total :=
    int32_of_range (by omega) (by omega)
  have count : (total - tmp.length).toNat = precision.toNat - tmp.length := by
    omega
  have zeros : (padWhile '0' tmp.length total).1 =
      List.replicate (precision.toNat - tmp.length) '0' := by
    rw [padWhile_eq (by omega) (by omega), count]
  have room : (size - total).toNat =
      size.toNat - (precision.toNat - tmp.length + tmp.length) := by omega
  have first : ∀ c, padWhile c 0 (size - total) =
      (List.replicate (size - total).toNat c, min 0 (size - total) - 1) := by
    intro c
    rw [padWhile_eq (by omega) (by omega), Int.sub_zero]
  have second : 2 ≤ sizeLoops type → ∀ c,
      padWhile c 0 (min 0 (size - total) - 1) =
        ([], min 0 (size - total) - 1 - 1) :=
    fun twice c => padWhile_nothing (by omega) (by omega) (by omega)
  have third : 3 ≤ sizeLoops type → ∀ c,
      padWhile c 0 (min 0 (size - total) - 1 - 1) =
        ([], min 0 (size - total) - 1 - 1 - 1) :=
    fun thrice c => padWhile_nothing (by omega) (by omega) (by omega)
  simp only [layout, larger, shown, mark_eq, zeros]
  cases left : type.left
  · cases zeropad : type.zeropad
    · have thrice : sizeLoops type = 3 := by simp [sizeLoops, left, zeropad]
      simp [first, second (by omega), third (by omega), room]
    · have twice : sizeLoops type = 2 := by simp [sizeLoops, left, zeropad]
      simp [-List.replicate_append_replicate, first, second (by omega), room]
  · simp [exclusive left, first, room]

theorem size_sign {sign : List Char} {size : Int} (short : sign.length ≤ 1)
    (lower : -2147483648 ≤ size) (upper : size ≤ 2147483647) :
    (if sign ≠ [] then int32 (size - 1) else size) =
      int32 (size - sign.length) := by
  cases sign with
  | nil =>
      have kept : int32 size = size := int32_of_range lower upper
      simp [kept]
  | cons c rest =>
      obtain rfl : rest = [] := by simpa using short
      rw [if_pos (List.cons_ne_nil c [])]
      rfl

theorem size_mark (type : Flags) (base : Nat) (size : Int) :
    (if type.special then
      if base = 16 then int32 (int32 size - 2)
      else if base = 8 then int32 (int32 size - 1) else int32 size
      else int32 size) = int32 (size - (markText type base).length) := by
  rw [int32_sub, int32_sub]
  unfold markText
  cases type.special with
  | false => simp
  | true =>
      by_cases hex : base = 16
      · subst hex
        simp
      · by_cases octal : base = 8 <;> simp [hex, octal]

/-- `LEFT` overrides `ZEROPAD`. -/
def Flags.leftFirst (type : Flags) : Flags :=
  if type.left then { type with zeropad := false } else type

section LeftFirst

variable (type : Flags)

@[simp] theorem leftFirst_small : type.leftFirst.small = type.small := by
  unfold Flags.leftFirst
  split <;> rfl

@[simp] theorem leftFirst_left : type.leftFirst.left = type.left := by
  unfold Flags.leftFirst
  split <;> rfl

@[simp] theorem signText_leftFirst (num : BitVec 32) :
    signText type.leftFirst num = signText type num := by
  unfold Flags.leftFirst
  split <;> rfl

@[simp] theorem isNegative_leftFirst (num : BitVec 32) :
    isNegative type.leftFirst num = isNegative type num := by
  unfold Flags.leftFirst
  split <;> rfl

@[simp] theorem markText_leftFirst (base : Nat) :
    markText type.leftFirst base = markText type base := by
  unfold Flags.leftFirst
  split <;> rfl

theorem leftFirst_exclusive :
    type.leftFirst.left = true → type.leftFirst.zeropad = false := by
  intro left
  rw [leftFirst_left] at left
  rw [Flags.leftFirst, if_pos left]

theorem leftFirst_zeropad (notLeft : type.left = false) :
    type.leftFirst.zeropad = type.zeropad := by
  rw [Flags.leftFirst, notLeft]
  rfl

@[simp] theorem sizeLoops_leftFirst :
    sizeLoops type.leftFirst = sizeLoops type := by
  unfold sizeLoops
  rw [leftFirst_left]
  cases left : type.left with
  | true => rfl
  | false => rw [leftFirst_zeropad type left]

end LeftFirst

theorem number_layout {base : Nat} (lower : 2 ≤ base) (upper : base ≤ 36)
    (num : BitVec 32) {size : Int} (sizeLower : -2147483648 ≤ size)
    (sizeUpper : size ≤ 2147483647) (precision : Int) (type : Flags) :
    number num base size precision type =
      some (layout (digitTable type.leftFirst.small) (signText type num) base
        (int32 (size - (signText type num).length -
          (markText type base).length))
        precision type.leftFirst (digitsText type base num).reverse) := by
  have inRange : ¬(base < 2 ∨ 36 < base) := by omega
  have resolved : (if type.left then { type with zeropad := false }
      else type) = type.leftFirst := rfl
  simp only [number, resolved, if_neg inRange, takeSign_eq, tmp_eq lower,
    Option.map_some]
  rw [size_sign (signText_length _ num) sizeLower sizeUpper, size_mark]
  simp only [signText_leftFirst, isNegative_leftFirst, markText_leftFirst,
    leftFirst_small, digitsText]

/-- As long as no `int` overflows, `number` stores the field. -/
theorem number_renders {num : BitVec 32} {base : Nat} {size precision : Int}
    {type : Flags} (lower : 2 ≤ base) (upper : base ≤ 36)
    (sizeUpper : size ≤ 2147483647) (precisionUpper : precision ≤ 2147483647)
    (fits : NoOverflow num base size precision type) :
    number num base size precision type =
      some (renderNumber num base size.toNat precision.toNat type) := by
  have digitsShort : (digitsText type base num).length ≤ 32 :=
    numeral_length lower type.small _
  have digitsPos : 1 ≤ (digitsText type base num).length :=
    numeral_length_pos ..
  have positive := sizeLoops_pos type
  unfold NoOverflow at fits
  have reduced : int32 (size - (signText type num).length -
      (markText type base).length) = size - (signText type num).length -
        (markText type base).length :=
    int32_of_range (by omega) (by omega)
  rw [number_layout lower upper num (by omega) sizeUpper, reduced,
    layout_eq (leftFirst_exclusive type) (by omega) precisionUpper
      (by rwa [List.length_reverse])
      (by rw [List.length_reverse, sizeLoops_leftFirst]; omega)]
  have room : (size - (signText type num).length -
      (markText type base).length).toNat =
      size.toNat - ((signText type num).length +
        (markText type base).length) := by omega
  unfold renderNumber
  cases isLeft : type.left with
  | true => simp [isLeft, room, Nat.sub_sub]
  | false =>
      cases isZero : type.zeropad <;>
        simp [isLeft, leftFirst_zeropad, isZero, room, Nat.sub_sub]

theorem number_eq {num : BitVec 32} {base : Nat} {size precision : Int}
    {type : Flags} (lower : 2 ≤ base) (upper : base ≤ 36)
    (sizeUpper : size ≤ 2147483647) (precisionUpper : precision ≤ 2147483647)
    (fits : SizeFits num base size precision type) :
    number num base size precision type =
      some (renderNumber num base size.toNat precision.toNat type) := by
  have loops : sizeLoops type ≤ 3 := by
    unfold sizeLoops
    split
    · decide
    · split <;> decide
  unfold SizeFits at fits
  exact number_renders lower upper sizeUpper precisionUpper
    (by unfold NoOverflow; omega)

end MiniOS
