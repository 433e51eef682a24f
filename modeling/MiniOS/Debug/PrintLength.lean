import MiniOS.Debug.FormatPointer
import MiniOS.Debug.Directive

/-!
# How much `printk` writes

`printk` and `printk_color` format into a buffer of 1024 bytes, and nothing
compares with its end.  `formatLength` counts what a format and its arguments
ask for, directive by directive; a width that is counted below the least `int`
goes on at the greatest and counts as the whole buffer.
-/

namespace MiniOS

abbrev bufferSize : Nat := 1024

/-- `void printk(const char *format, ...)`: `buff` up to the NUL, as
`console_write` gets it. -/
def printk (format : Format) (args : List Arg) : Option (List Char) := do
  let printed ← vsprintf format args
  let buff := printed.output.map Out.char ++ [nul]
  return buff.set printed.returned nul

/-- `void printk_color(real_color_t back, real_color_t fore, ...)`: what
`console_write_color` gets. -/
def printkColor (back fore : Nat) (format : Format) (args : List Arg) :
    Option (List Char × Nat × Nat) := do
  let printed ← vsprintf format args
  let buff := printed.output.map Out.char ++ [nul]
  return (buff.set printed.returned nul, back, fore)

/-! ## The length that a format asks for -/

/-- A field of some width around what must be shown; `lowest` is the least
value of the counter that a loop still tests. -/
def fieldLength (width needed lowest : Int) : Nat :=
  if lowest < -2147483648 then bufferSize else (max width needed).toNat

def numberLength (base : Nat) (flags : Flags) (width precision : Int)
    (num : BitVec 32) : Nat :=
  let needed : Int := (signText flags num).length +
    (markText flags base).length +
      max ((digitsText flags base num).length : Int) precision
  fieldLength width needed (width - needed - (sizeLoops flags - 1))

def charLength (flags : Flags) (width : Int) : Nat :=
  fieldLength width 1 (width - if flags.left then 1 else 2)

def shownLength (precision : Int) (text : CString) : Int :=
  if precision < 0 then text.chars.length
  else min (text.chars.length : Int) precision

def stringLength (flags : Flags) (width precision : Int) (text : CString) :
    Nat :=
  fieldLength width (shownLength precision text)
    (width - if flags.left then 0 else 1)

def wordLength (measure : BitVec 32 → Nat) : Arg → Nat
  | .word value => measure value
  | _ => 0

/-- What a conversion makes of its argument. -/
def conversionLength (flags : Flags) (width precision : Int) :
    Char → Option (Arg → Nat)
  | 'c' => some fun _ => charLength flags width
  | 's' => some fun
      | .string text => stringLength flags width precision text
      | _ => 0
  | 'o' => some (wordLength (numberLength 8 flags width precision))
  | 'p' =>
      let (width, flags) :=
        if width = -1 then (8, { flags with zeropad := true })
        else (width, flags)
      some (wordLength (numberLength 16 flags width precision))
  | 'x' =>
      let flags := { flags with small := true }
      some (wordLength (numberLength 16 flags width precision))
  | 'X' => some (wordLength (numberLength 16 flags width precision))
  | 'd' | 'i' =>
      let flags := { flags with sign := true }
      some (wordLength (numberLength 10 flags width precision))
  | 'u' => some (wordLength (numberLength 10 flags width precision))
  | 'b' => some (wordLength (numberLength 2 flags width precision))
  | 'n' => some fun _ => 0
  | _ => none

/-- What is copied where no conversion stands: `%%` gives one character, a
directive that is cut off its `%`, any other both its characters. -/
def copyLength (c : Char) : Nat :=
  if c = '%' ∨ c = nul then 1 else 2

/-- The length of a conversion, the format behind it and the arguments left. -/
def shownDirective (flags : Flags) (width precision : Int) (format : Format)
    (args : List Arg) : Option (Nat × Format × List Arg) :=
  match conversionLength flags width precision (deref format) with
  | some measure =>
      args.head?.map fun arg => (measure arg, format.tail, args.tail)
  | none =>
      let rest := if deref format = nul then format else format.tail
      some (copyLength (deref format), rest, args)

/-- The same for a directive from behind its `%`. -/
def directiveLength (format : Format) (args : List Arg) :
    Option (Nat × Format × List Arg) := do
  let (flags, format) := scanFlags {} format
  let (flags, width, format, p) ← scanWidth flags format ⟨args, [], []⟩
  let (precision, format, p) ← scanPrecision format p
  shownDirective flags width precision (skipQualifier format) p.args

def lengthLoop : Nat → Format → List Arg → Nat
  | 0, _, _ => 0
  | rounds + 1, format, args =>
      if deref format = nul then 0
      else if deref format ≠ '%' then lengthLoop rounds format.tail args + 1
      else (directiveLength format.tail args).elim 0
        fun (length, format, args) => length + lengthLoop rounds format args

def formatLength (format : Format) (args : List Arg) : Nat :=
  lengthLoop (format.length + 1) format args

/-! ## The length that is stored -/

/-- The same length, or both fill the buffer. -/
def Agree (stored length : Nat) : Prop :=
  stored = length ∨ bufferSize ≤ stored ∧ bufferSize ≤ length

theorem Agree.fits {stored length : Nat} (agree : Agree stored length) :
    stored < bufferSize ↔ length < bufferSize := by
  rcases agree with rfl | ⟨_, _⟩
  · rfl
  · omega

theorem Agree.add {stored length stored' length' : Nat}
    (first : Agree stored length) (second : Agree stored' length') :
    Agree (stored + stored') (length + length') := by
  rcases first with rfl | ⟨_, _⟩
  · rcases second with rfl | ⟨_, _⟩
    · exact .inl rfl
    · exact .inr ⟨by omega, by omega⟩
  · exact .inr ⟨by omega, by omega⟩

theorem fieldLength_agree {width needed lowest : Int} {stored : Nat}
    (exact : -2147483648 ≤ lowest → (stored : Int) = max width needed)
    (wraps : lowest < -2147483648 → bufferSize ≤ stored) :
    Agree stored (fieldLength width needed lowest) := by
  unfold fieldLength
  split
  case isTrue low => exact .inr ⟨wraps low, Nat.le_refl _⟩
  case isFalse high =>
    have same := exact (by omega)
    exact .inl (by omega)

section Layout

variable {digits sign tmp : List Char} {base : Nat} {size precision : Int}
variable {type : Flags}

/-- What the loops over `size` store: all but the first only when `size` has
wrapped. -/
def fillLength (type : Flags) (size : Int) : Nat :=
  let second := int32 (min 0 size - 1)
  let third := int32 (min 0 second - 1)
  size.toNat + (if type.left then 0 else second.toNat) +
    if !type.left && !type.zeropad then third.toNat else 0

theorem layout_length (exclusive : type.left = true → type.zeropad = false)
    (precisionUpper : precision ≤ 2147483647)
    (nonempty : 1 ≤ tmp.length) (short : tmp.length ≤ 32) :
    ((layout (digitTable type.small) sign base size precision type
      tmp).length : Int) = sign.length + (markText type base).length +
        max (tmp.length : Int) precision +
          fillLength type (int32 (size - max (tmp.length : Int) precision)) := by
  have larger : (if (tmp.length : Int) > precision then (tmp.length : Int)
      else precision) = max (tmp.length : Int) precision := by
    split <;> omega
  generalize wide : max (tmp.length : Int) precision = total at *
  generalize shown : int32 (size - total) = first
  have firstUpper : first ≤ 2147483647 := shown ▸ (int32_range _).2
  generalize again : int32 (min 0 first - 1) = second
  have secondUpper : second ≤ 2147483647 := again ▸ (int32_range _).2
  have thirdUpper := (int32_range (min 0 second - 1)).2
  have loop {c : Char} {bound : Int} (upper : bound ≤ 2147483647) :
      padWhile c 0 bound =
        (List.replicate bound.toNat c, int32 (min 0 bound - 1)) := by
    rw [padWhile_all (by decide) upper, Int.sub_zero]
  have zeros : (padWhile '0' tmp.length total).1 =
      List.replicate (total - tmp.length).toNat '0' := by
    rw [padWhile_all (by omega) (by omega)]
  simp only [layout, larger, mark_eq, zeros, shown]
  cases left : type.left with
  | true =>
      simp only [exclusive left, loop firstUpper, fillLength, left,
        Bool.not_false, Bool.not_true, Bool.and_false, Bool.and_true,
        Bool.false_eq_true, ↓reduceIte, List.nil_append, List.append_nil,
        List.append_assoc, List.length_append, List.length_replicate,
        List.length_reverse, Int.toNat_sub', Nat.cast_add, Int.ofNat_toNat,
        add_zero]
      omega
  | false =>
      cases zeropad : type.zeropad with
      | true =>
          simp only [loop firstUpper, loop secondUpper, again, fillLength,
            left, zeropad, Bool.not_true, Bool.not_false, Bool.and_true,
            Bool.and_false, Bool.false_eq_true, ↓reduceIte, List.nil_append,
            List.append_assoc, List.replicate_append_replicate,
            List.length_append, List.length_replicate, List.length_reverse,
            Int.toNat_sub', Nat.cast_add, Int.ofNat_toNat, add_zero]
          omega
      | false =>
          simp only [loop firstUpper, loop secondUpper, loop thirdUpper,
            again, fillLength, left, zeropad, Bool.not_false, Bool.and_self,
            Bool.false_eq_true, ↓reduceIte, List.append_assoc,
            List.length_append, List.length_replicate, List.length_reverse,
            Int.toNat_sub', Nat.cast_add, Int.ofNat_toNat]
          omega

end Layout

section Fields

variable {flags : Flags} {width precision : Int}

theorem int32_less (counter : Int) (lower : -2147483648 ≤ counter)
    (upper : counter ≤ 2147483647) :
    (-2147483648 < counter ∧ int32 (counter - 1) = counter - 1) ∨
      counter = -2147483648 ∧ int32 (counter - 1) = 2147483647 := by
  by_cases least : counter = -2147483648
  · right
    subst least
    exact ⟨rfl, rfl⟩
  · left
    exact ⟨by omega, int32_of_range (by omega) (by omega)⟩

/-- What the loops of `number` store: up to the width, or more than the buffer
when a tested counter has wrapped. -/
theorem fillLength_spec (flags : Flags) (needed : Int)
    (widthLower : -2147483648 ≤ width) (widthUpper : width ≤ 2147483647)
    (neededLower : 1 ≤ needed) (neededUpper : needed ≤ 2147483650) :
    (-2147483648 ≤ width - needed - (sizeLoops flags - 1) →
      fillLength flags (int32 (width - needed)) = (width - needed).toNat) ∧
    (width - needed - (sizeLoops flags - 1) < -2147483648 →
      (bufferSize : Int) ≤
        needed + fillLength flags (int32 (width - needed))) := by
  have loops := sizeLoops_pos flags
  have first : (-2147483648 ≤ width - needed ∧
      int32 (width - needed) = width - needed) ∨
      width - needed < -2147483648 ∧
        int32 (width - needed) = width - needed + 4294967296 := by
    by_cases wraps : width - needed < -2147483648
    · exact .inr ⟨wraps, int32_of_below (by omega) wraps⟩
    · exact .inl ⟨by omega, int32_of_range (by omega) (by omega)⟩
  have range := int32_range (width - needed)
  generalize int32 (width - needed) = size at first range ⊢
  have second := int32_less (min 0 size) (by omega) (by omega)
  have range' := int32_range (min 0 size - 1)
  unfold fillLength
  simp only []
  generalize int32 (min 0 size - 1) = counter at second range' ⊢
  have third := int32_less (min 0 counter) (by omega) (by omega)
  generalize int32 (min 0 counter - 1) = last at third ⊢
  unfold sizeLoops at loops ⊢
  cases left : flags.left with
  | true =>
      simp only [left, if_true, Bool.not_true, Bool.false_and] at loops ⊢
      constructor <;> intro lowest <;> simp <;> omega
  | false =>
      cases zeropad : flags.zeropad with
      | true =>
          simp only [left, zeropad, Bool.not_false, Bool.not_true,
            Bool.and_false, Bool.false_eq_true, ↓reduceIte,
            Nat.one_le_ofNat, Int.reduceNeg, Int.reduceSub,
            neg_le_sub_iff_le_add, Nat.cast_ofNat, Nat.cast_add,
            Int.ofNat_toNat, add_zero] at loops ⊢
          omega
      | false =>
          simp only [left, zeropad, Bool.not_false, Bool.and_self,
            Bool.false_eq_true, ↓reduceIte, Nat.one_le_ofNat, Int.reduceNeg,
            Int.reduceSub, neg_le_sub_iff_le_add, Nat.cast_ofNat,
            Nat.cast_add, Int.ofNat_toNat] at loops ⊢
          omega

theorem number_length {base : Nat} (lower : 2 ≤ base) (upper : base ≤ 36)
    (widthLower : -2147483648 ≤ width) (widthUpper : width ≤ 2147483647)
    (precisionUpper : precision ≤ 2147483647) {num : BitVec 32}
    {text : List Char}
    (stored : number num base width precision flags = some text) :
    Agree text.length (numberLength base flags width precision num) := by
  have digitsShort : (digitsText flags base num).length ≤ 32 :=
    numeral_length lower flags.small _
  have digitsPos : 1 ≤ (digitsText flags base num).length :=
    numeral_length_pos ..
  have signShort := signText_length flags num
  have markShort := markText_length flags base
  rw [number_layout lower upper num widthLower widthUpper] at stored
  injection stored with stored
  have length : (text.length : Int) = (signText flags num).length +
      (markText flags base).length +
      max ((digitsText flags base num).length : Int) precision +
        fillLength flags.leftFirst (int32 (width -
          ((signText flags num).length + (markText flags base).length +
            max ((digitsText flags base num).length : Int) precision))) := by
    rw [← stored, layout_length (leftFirst_exclusive flags) precisionUpper
      (by rwa [List.length_reverse]) (by rwa [List.length_reverse]),
      List.length_reverse, markText_leftFirst, int32_sub]
    simp only [Int.sub_sub, Int.add_assoc]
  obtain ⟨exact, wraps⟩ := fillLength_spec flags.leftFirst
    ((signText flags num).length + (markText flags base).length +
      max ((digitsText flags base num).length : Int) precision)
    widthLower widthUpper (by omega) (by omega)
  rw [sizeLoops_leftFirst] at exact wraps
  apply fieldLength_agree
  · intro lowest
    rw [length, exact lowest]
    omega
  · intro lowest
    have filled := wraps lowest
    omega

/-- A conversion takes one argument and stores as much as is measured. -/
def Measured (convert : Printer → Option Printer) (measure : Arg → Nat) :
    Prop :=
  ∀ p p', convert p = some p' → ∃ arg args grown, p.args = arg :: args ∧
    p'.args = args ∧ p'.output.length = p.output.length + grown ∧
      Agree grown (measure arg)

theorem emit_length (p : Printer) (text : List Char) :
    (p.emit text).output.length = p.output.length + text.length := by
  simp [Printer.emit]

theorem convertNumber_measured {base : Nat} (lower : 2 ≤ base)
    (upper : base ≤ 36) (widthLower : -2147483648 ≤ width)
    (widthUpper : width ≤ 2147483647)
    (precisionUpper : precision ≤ 2147483647) :
    Measured (convertNumber base flags width precision)
      (wordLength (numberLength base flags width precision)) := by
  intro p p' stored
  obtain ⟨⟨value, q⟩, taken, rest⟩ := Option.bind_eq_some_iff.mp stored
  obtain ⟨text, rendered, emitted⟩ := Option.bind_eq_some_iff.mp rest
  cases emitted
  obtain ⟨shape, output⟩ := vaWord_eq taken
  refine ⟨_, q.args, text.length, shape, rfl, ?_,
    number_length lower upper widthLower widthUpper precisionUpper rendered⟩
  rw [emit_length, output]

theorem convertChar_measured (widthLower : -2147483648 ≤ width)
    (widthUpper : width ≤ 2147483647) :
    Measured (convertChar flags width) fun _ => charLength flags width := by
  intro p p' stored
  have buffer : bufferSize = 1024 := rfl
  have first := int32_less width widthLower widthUpper
  have range := int32_range (width - 1)
  have second := int32_less (min (int32 (width - 1)) 0) (by omega) (by omega)
  have leading : padDown ' ' width = _ := padDown_all widthUpper
  have behind : padDown ' ' (min (int32 (width - 1)) 0) = _ :=
    padDown_all (by omega)
  unfold charLength
  cases left : flags.left with
  | true =>
      simp only [convertChar, left, Bool.not_true, Bool.false_eq_true,
        if_false, leading, List.nil_append] at stored
      obtain ⟨⟨value, q⟩, taken, emitted⟩ := Option.bind_eq_some_iff.mp stored
      obtain rfl := Option.some.inj emitted
      obtain ⟨shape, output⟩ := vaWord_eq taken
      refine ⟨_, q.args, _, shape, rfl, by rw [emit_length, output], ?_⟩
      simp only [List.length_append, List.length_cons, List.length_nil,
        List.length_replicate, if_true]
      apply fieldLength_agree <;> intro lowest <;> omega
  | false =>
      simp only [convertChar, left, Bool.not_false, if_true, leading,
        behind] at stored
      obtain ⟨⟨value, q⟩, taken, emitted⟩ := Option.bind_eq_some_iff.mp stored
      obtain rfl := Option.some.inj emitted
      obtain ⟨shape, output⟩ := vaWord_eq taken
      refine ⟨_, q.args, _, shape, rfl, by rw [emit_length, output], ?_⟩
      simp only [List.length_append, List.length_cons, List.length_nil,
        List.length_replicate, Bool.false_eq_true, if_false]
      apply fieldLength_agree <;> intro lowest <;> omega

theorem shownLength_eq (precision : Int) (text : CString) :
    (if precision < 0 then (text.chars.length : Int)
      else if (text.chars.length : Int) > precision then precision
      else text.chars.length) = shownLength precision text := by
  unfold shownLength
  split
  · rfl
  · split <;> omega

theorem shownLength_range (precision : Int) (text : CString) :
    0 ≤ shownLength precision text ∧
      shownLength precision text ≤ text.chars.length := by
  unfold shownLength
  split <;> omega

theorem convertString_measured (widthLower : -2147483648 ≤ width)
    (widthUpper : width ≤ 2147483647) :
    Measured (convertString flags width precision) fun
      | .string text => stringLength flags width precision text
      | _ => 0 := by
  intro p p' stored
  obtain ⟨⟨text, q⟩, taken, emitted⟩ := Option.bind_eq_some_iff.mp stored
  obtain ⟨shape, output⟩ := vaString_eq taken
  have small := text.fits
  simp only [shownLength_eq] at emitted
  have bounds := shownLength_range precision text
  have measured : stringLength flags width precision text =
      fieldLength width (shownLength precision text)
        (width - if flags.left then 0 else 1) := rfl
  generalize shownLength precision text = len at emitted bounds measured
  have buffer : bufferSize = 1024 := rfl
  have first := int32_less (min len width) (by omega) (by omega)
  have range := int32_range (min len width - 1)
  have leading : padWhile ' ' len width = _ :=
    padWhile_all (by omega) widthUpper
  have behind : padWhile ' ' len (int32 (min len width - 1)) = _ :=
    padWhile_all (by omega) range.2
  cases left : flags.left with
  | true =>
      simp only [left, Bool.not_true, Bool.false_eq_true, if_false, leading,
        List.nil_append] at emitted
      obtain rfl := Option.some.inj emitted
      refine ⟨_, q.args, _, shape, rfl, by rw [emit_length, output], ?_⟩
      simp only [measured, left, List.length_append, List.length_replicate,
        List.length_take, if_true]
      apply fieldLength_agree <;> intro lowest <;> omega
  | false =>
      simp only [left, Bool.not_false, if_true, leading, behind] at emitted
      obtain rfl := Option.some.inj emitted
      refine ⟨_, q.args, _, shape, rfl, by rw [emit_length, output], ?_⟩
      simp only [measured, left, List.length_append, List.length_replicate,
        List.length_take, Bool.false_eq_true, if_false]
      apply fieldLength_agree <;> intro lowest <;> omega

theorem conversionCase_measured (flags : Flags)
    (widthLower : -2147483648 ≤ width)
    (widthUpper : width ≤ 2147483647)
    (precisionUpper : precision ≤ 2147483647) (c : Char) :
    (conversionCase flags width precision c = none ∧
      conversionLength flags width precision c = none) ∨
    ∃ request measure,
      conversionCase flags width precision c = some request ∧
      conversionLength flags width precision c = some measure ∧
      Measured request.conversion measure := by
  unfold conversionCase conversionLength
  split
  case h_1 =>
    exact .inr ⟨_, _, rfl, rfl, convertChar_measured widthLower widthUpper⟩
  case h_2 =>
    exact .inr ⟨_, _, rfl, rfl, convertString_measured widthLower widthUpper⟩
  case h_4 =>
    by_cases auto : width = -1
    · rw [if_pos auto]
      exact .inr ⟨_, _, rfl, rfl, convertNumber_measured (by decide)
        (by decide) (by decide) (by decide) precisionUpper⟩
    · rw [if_neg auto]
      exact .inr ⟨_, _, rfl, rfl, convertNumber_measured (by decide)
        (by decide) widthLower widthUpper precisionUpper⟩
  case h_11 =>
    refine .inr ⟨_, _, rfl, rfl, ?_⟩
    intro p p' stored
    obtain ⟨⟨address, q⟩, taken, emitted⟩ :=
      Option.bind_eq_some_iff.mp stored
    obtain rfl := Option.some.inj emitted
    obtain ⟨shape, output⟩ := vaTarget_eq taken
    exact ⟨_, q.args, 0, shape, rfl, by rw [output]; rfl, .inl rfl⟩
  case h_12 =>
    refine .inl ⟨rfl, ?_⟩
    simp [*]
  all_goals
    refine .inr ⟨_, _, rfl, rfl, ?_⟩
    exact convertNumber_measured (by decide) (by decide) widthLower
      widthUpper precisionUpper

end Fields

/-! ## A whole format -/

def Printer.argsOnly (p : Printer) : Printer := ⟨p.args, [], []⟩

theorem skipAtoi_range {i : Int} (lower : -2147483648 ≤ i)
    (upper : i ≤ 2147483647) (format : Format) :
    -2147483648 ≤ (skipAtoi i format).1 ∧
      (skipAtoi i format).1 ≤ 2147483647 := by
  induction format generalizing i with
  | nil => exact ⟨lower, upper⟩
  | cons c rest induction =>
      unfold skipAtoi
      split
      · exact induction (int32_range _).1 (int32_range _).2
      · exact ⟨lower, upper⟩

theorem toInt_range (value : BitVec 32) :
    -2147483648 ≤ value.toInt ∧ value.toInt ≤ 2147483647 := by
  have lower := BitVec.le_toInt value
  have upper := BitVec.toInt_lt (x := value)
  omega

section Scans

variable {flags flags' : Flags} {format rest : Format} {p p' : Printer}
variable {width precision : Int}

theorem vaWord_argsOnly {value : BitVec 32}
    (taken : p.vaWord = some (value, p')) :
    p.argsOnly.vaWord = some (value, p'.argsOnly) := by
  obtain ⟨shape, _⟩ := vaWord_eq taken
  unfold Printer.vaWord Printer.argsOnly
  simp only [shape]

/-- The width is read from the arguments alone, and is an `int`. -/
theorem scanWidth_argsOnly
    (scanned : scanWidth flags format p = some (flags', width, rest, p')) :
    scanWidth flags format p.argsOnly =
        some (flags', width, rest, p'.argsOnly) ∧
      p'.output = p.output ∧ -2147483648 ≤ width ∧ width ≤ 2147483647 := by
  unfold scanWidth at scanned ⊢
  by_cases digit : isDigit (deref format)
  · rw [if_pos digit] at scanned ⊢
    cases scanned
    exact ⟨rfl, rfl, skipAtoi_range (by decide) (by decide) format⟩
  · rw [if_neg digit] at scanned ⊢
    by_cases star : deref format = '*'
    · rw [if_pos star] at scanned ⊢
      obtain ⟨⟨value, q⟩, taken, result⟩ := Option.bind_eq_some_iff.mp scanned
      have only := vaWord_argsOnly taken
      have output := (vaWord_eq taken).2
      have range := toInt_range value
      rw [only]
      by_cases negative : value.toInt < 0
      · simp only [negative, if_true] at result
        cases result
        refine ⟨if_pos negative, output, int32_range _⟩
      · simp only [negative, if_false] at result
        cases result
        exact ⟨if_neg negative, output, range⟩
    · rw [if_neg star] at scanned ⊢
      cases scanned
      exact ⟨rfl, rfl, by decide, by decide⟩

theorem readPrecision_argsOnly
    (scanned : readPrecision format p = some (precision, rest, p')) :
    readPrecision format p.argsOnly = some (precision, rest, p'.argsOnly) ∧
      p'.output = p.output ∧ precision ≤ 2147483647 := by
  unfold readPrecision at scanned ⊢
  by_cases digit : isDigit (deref format)
  · rw [if_pos digit] at scanned ⊢
    cases scanned
    exact ⟨rfl, rfl, (skipAtoi_range (by decide) (by decide) format).2⟩
  · rw [if_neg digit] at scanned ⊢
    by_cases star : deref format = '*'
    · rw [if_pos star] at scanned ⊢
      obtain ⟨⟨value, q⟩, taken, result⟩ := Option.map_eq_some_iff.mp scanned
      have only := vaWord_argsOnly taken
      have output := (vaWord_eq taken).2
      have range := toInt_range value
      cases result
      rw [only]
      exact ⟨rfl, output, range.2⟩
    · rw [if_neg star] at scanned ⊢
      cases scanned
      exact ⟨rfl, rfl, by decide⟩

theorem scanPrecision_argsOnly
    (scanned : scanPrecision format p = some (precision, rest, p')) :
    scanPrecision format p.argsOnly = some (precision, rest, p'.argsOnly) ∧
      p'.output = p.output ∧ precision ≤ 2147483647 := by
  unfold scanPrecision at scanned ⊢
  by_cases point : deref format = '.'
  · rw [if_pos point] at scanned ⊢
    obtain ⟨⟨value, behind, q⟩, read, result⟩ :=
      Option.map_eq_some_iff.mp scanned
    obtain ⟨only, output, upper⟩ := readPrecision_argsOnly read
    cases result
    rw [only]
    refine ⟨rfl, output, ?_⟩
    split <;> omega
  · rw [if_neg point] at scanned ⊢
    cases scanned
    exact ⟨rfl, rfl, by decide⟩

theorem copyConversion_length (format : Format) (p : Printer) :
    (copyConversion format p).1.args = p.args ∧
      (copyConversion format p).1.output.length =
        p.output.length + copyLength (deref format) ∧
      (copyConversion format p).2 =
        if deref format = nul then format else format.tail := by
  unfold copyConversion copyLength
  by_cases ended : deref format = nul
  · have other : nul ≠ '%' := by decide
    rw [ended, if_pos other, if_neg (not_not.mpr rfl), if_pos (.inr rfl),
      if_pos rfl]
    exact ⟨rfl, emit_length p ['%'], rfl⟩
  · by_cases percent : deref format = '%'
    · have inside : '%' ≠ nul := by decide
      rw [percent, if_neg (not_not.mpr rfl), if_pos inside, if_pos (.inl rfl),
        if_neg inside]
      exact ⟨rfl, by simp [Printer.copy], rfl⟩
    · rw [if_pos percent, if_pos ended, if_neg (by simp [percent, ended]),
        if_neg ended]
      exact ⟨rfl, by simp [Printer.copy, Printer.emit], rfl⟩

theorem convert_length (widthLower : -2147483648 ≤ width)
    (widthUpper : width ≤ 2147483647)
    (precisionUpper : precision ≤ 2147483647)
    (returned : convert flags width precision format p = some (p', rest)) :
    ∃ length grown, shownDirective flags width precision format p.args =
        some (length, rest, p'.args) ∧
      p'.output.length = p.output.length + grown ∧ Agree grown length := by
  rw [convert_case] at returned
  unfold shownDirective
  rcases conversionCase_measured flags widthLower widthUpper precisionUpper
    (deref format) with
    ⟨unknown, unmeasured⟩ | ⟨request, measure, known, measured, stores⟩
  · rw [unknown, Option.elim_none] at returned
    rw [unmeasured]
    obtain ⟨args, length, behind⟩ := copyConversion_length format p
    injection returned with returned
    rw [returned] at args length behind
    dsimp only at args length behind
    refine ⟨_, _, ?_, length, .inl rfl⟩
    rw [args, behind]
  · rw [known, Option.elim_some] at returned
    obtain ⟨q, converted, result⟩ := Option.map_eq_some_iff.mp returned
    cases result
    obtain ⟨arg, args, grown, shape, left, length, agree⟩ :=
      stores p p' converted
    rw [measured]
    refine ⟨measure arg, grown, ?_, length, agree⟩
    simp only [shape, left, List.head?_cons, Option.map_some, List.tail_cons]

theorem directive_length (returned : directive format p = some (p', rest)) :
    ∃ length grown, directiveLength format p.args =
        some (length, rest, p'.args) ∧
      p'.output.length = p.output.length + grown ∧ Agree grown length := by
  obtain ⟨⟨flags', width, rest₁, p₁⟩, widthScan, returned⟩ :=
    Option.bind_eq_some_iff.mp returned
  obtain ⟨⟨precision, rest₂, p₂⟩, precisionScan, converted⟩ :=
    Option.bind_eq_some_iff.mp returned
  obtain ⟨widthOnly, output₁, widthLower, widthUpper⟩ :=
    scanWidth_argsOnly widthScan
  obtain ⟨precisionOnly, output₂, precisionUpper⟩ :=
    scanPrecision_argsOnly precisionScan
  obtain ⟨length, grown, shown, stores, agree⟩ :=
    convert_length widthLower widthUpper precisionUpper converted
  refine ⟨length, grown, ?_, ?_, agree⟩
  · refine Option.bind_eq_some_iff.mpr ⟨_, widthOnly, ?_⟩
    exact Option.bind_eq_some_iff.mpr ⟨_, precisionOnly, shown⟩
  · rw [stores, output₂, output₁]

theorem vsprintfLoop_length {rounds : Nat}
    (returned : vsprintfLoop rounds format p = some p') :
    ∃ grown, p'.output.length = p.output.length + grown ∧
      Agree grown (lengthLoop rounds format p.args) := by
  induction rounds generalizing format p with
  | zero => cases returned
  | succ rounds induction =>
      rw [vsprintfLoop] at returned
      rw [lengthLoop]
      by_cases ended : deref format = nul
      · rw [if_pos ended] at returned ⊢
        cases returned
        exact ⟨0, rfl, .inl rfl⟩
      · rw [if_neg ended] at returned ⊢
        by_cases percent : deref format ≠ '%'
        · rw [if_pos percent] at returned ⊢
          obtain ⟨grown, stores, agree⟩ := induction returned
          refine ⟨grown + 1, ?_, agree.add (.inl rfl)⟩
          rw [stores]
          simp only [Printer.copy, List.length_append, List.length_cons,
            List.length_nil]
          omega
        · rw [if_neg percent] at returned ⊢
          obtain ⟨⟨q, next⟩, one, others⟩ :=
            Option.bind_eq_some_iff.mp returned
          obtain ⟨length, grown, counted, stores, agree⟩ :=
            directive_length one
          obtain ⟨grown', stores', agree'⟩ := induction others
          refine ⟨grown + grown', ?_, ?_⟩
          · rw [stores', stores, Nat.add_assoc]
          · rw [counted, Option.elim_some]
            exact agree.add agree'

end Scans

theorem vsprintf_length {format : Format} {args : List Arg}
    {printed : Printed} (returned : vsprintf format args = some printed) :
    Agree printed.output.length (formatLength format args) := by
  obtain ⟨p, loop, result⟩ := Option.bind_eq_some_iff.mp returned
  cases result
  obtain ⟨grown, stores, agree⟩ := vsprintfLoop_length loop
  have same : p.finish.output.length = grown :=
    stores.trans (Nat.zero_add grown)
  rw [same]
  exact agree

theorem printk_length {format : Format} {args : List Arg} {printed : Printed}
    (returned : vsprintf format args = some printed) :
    ∃ buff, printk format args = some buff ∧
      (∀ back fore, printkColor back fore format args =
        some (buff, back, fore)) ∧
      buff.length = printed.output.length + 1 := by
  refine ⟨(printed.output.map Out.char ++ [nul]).set printed.returned nul,
    ?_, ?_, ?_⟩
  · rw [printk, returned]
    rfl
  · intro back fore
    rw [printkColor, returned]
    rfl
  · rw [List.length_set, List.length_append, List.length_map]
    rfl

/-- A call of `printk` or `printk_color` stores no more than the 1024 bytes of
its buffer, NUL included, exactly when the format asks for fewer characters. -/
theorem printk_fits_iff {format : Format} {args : List Arg} {printed : Printed}
    (returned : vsprintf format args = some printed) :
    ∃ buff, printk format args = some buff ∧
      (∀ back fore, printkColor back fore format args =
        some (buff, back, fore)) ∧
      (buff.length ≤ bufferSize ↔ formatLength format args < bufferSize) := by
  obtain ⟨buff, stored, colored, length⟩ := printk_length returned
  have agree := vsprintf_length returned
  refine ⟨buff, stored, colored, ?_⟩
  rw [length, Nat.succ_le_iff]
  exact agree.fits

theorem printk_fits_char :
    ∃ buff, printk "%5c".toList [.word 65] = some buff ∧
      (∀ back fore, printkColor back fore "%5c".toList [.word 65] =
        some (buff, back, fore)) ∧
      buff.length ≤ bufferSize := by
  obtain ⟨printed, returned⟩ :
      ∃ printed, vsprintf "%5c".toList [.word 65] = some printed := ⟨_, rfl⟩
  obtain ⟨buff, plain, colored, fits⟩ := printk_fits_iff returned
  exact ⟨buff, plain, colored, fits.mpr (by decide)⟩

def longText : CString where
  chars := List.replicate 2000 'a'
  terminated := fun member =>
    absurd (List.eq_of_mem_replicate member) (by decide)
  fits := by
    rw [List.length_replicate]
    decide

theorem vsprintf_string (text : CString) :
    ∃ printed, vsprintf "%s".toList [.string text] = some printed :=
  ⟨_, rfl⟩

theorem formatLength_string (text : CString) :
    formatLength "%s".toList [.string text] = text.chars.length := by
  have field : formatLength "%s".toList [.string text] =
      fieldLength (-1) text.chars.length (-2) + 0 := rfl
  have high : ¬(-2 : Int) < -2147483648 := by decide
  rw [field, fieldLength, if_neg high]
  omega

theorem printk_overruns :
    ∃ buff, printk "%s".toList [.string longText] = some buff ∧
      ¬buff.length ≤ bufferSize := by
  obtain ⟨printed, returned⟩ := vsprintf_string longText
  obtain ⟨buff, stored, _, length⟩ := printk_length returned
  refine ⟨buff, stored, ?_⟩
  rw [length, Nat.succ_le_iff, (vsprintf_length returned).fits,
    formatLength_string, longText, List.length_replicate]
  decide

end MiniOS
