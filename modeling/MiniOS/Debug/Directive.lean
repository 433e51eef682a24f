import MiniOS.Debug.FormatGrammar

/-!
# One directive of `vsprintf`

Without stars the scanner passes exactly the characters of a directive and
leaves what the grammar says.  At a star it takes the argument but does not
pass the star, so that the rest of the directive ends up in the output.
-/

namespace MiniOS

@[simp] theorem deref_cons (c : Char) (format : Format) :
    deref (c :: format) = c := rfl

/-! ## The parts of a directive -/

/-- The characters that can begin a qualifier or a conversion. -/
def conversionStarts : List Char := "hlLcsnopxXdiub%".toList

theorem conversion_char_mem (conversion : Conversion) :
    conversion.char ∈ conversionStarts := by
  cases conversion with
  | number kind => cases kind <;> decide
  | _ => decide

theorem starts_qualifier (d : Directive) (rest : Format) :
    deref (d.qualifierText ++ d.conversion.char :: rest) ∈
      conversionStarts := by
  unfold Directive.qualifierText
  cases d.qualifier with
  | none => exact conversion_char_mem d.conversion
  | some qualifier =>
      have first : ∀ qualifier : Qualifier,
          qualifier.char ∈ conversionStarts := by
        intro qualifier
        cases qualifier <;> decide
      exact first qualifier

theorem starts_plain {c : Char} (start : c ∈ conversionStarts) :
    isDigit c = false ∧ c ≠ '*' ∧ c ≠ '.' := by
  have all : conversionStarts.all (fun c =>
      decide (isDigit c = false ∧ c ≠ '*' ∧ c ≠ '.')) = true := by decide
  exact of_decide_eq_true (List.all_eq_true.mp all c start)

theorem skipQualifier_text (d : Directive) (rest : Format) :
    skipQualifier (d.qualifierText ++ d.conversion.char :: rest) =
      d.conversion.char :: rest := by
  unfold Directive.qualifierText
  cases d.qualifier with
  | none =>
      have noQualifier : ∀ conversion : Conversion, ¬(conversion.char = 'h' ∨
          conversion.char = 'l' ∨ conversion.char = 'L') := by
        intro conversion
        cases conversion with
        | number kind => cases kind <;> decide
        | _ => decide
      exact if_neg (noQualifier d.conversion)
  | some qualifier => cases qualifier <;> rfl

theorem isDigit_digitChar : ∀ digit : Fin 10,
    isDigit (digitChar digit) = true ∧
      (digitChar digit).toNat = '0'.toNat + digit := by
  decide

theorem decimalFrom_le (value : Nat) (digits : List (Fin 10)) :
    value ≤ decimalFrom value digits := by
  induction digits generalizing value with
  | nil => exact Nat.le_refl value
  | cons digit digits induction =>
      have step := induction (value * 10 + digit)
      rw [decimalFrom]
      omega

/-- `skip_atoi` reads the digits up to the first other character. -/
theorem skipAtoi_digits {value : Nat} {digits : List (Fin 10)} {rest : Format}
    (small : decimalFrom value digits ≤ 2147483599)
    (stop : isDigit (deref rest) = false) :
    skipAtoi value (digits.map digitChar ++ rest) =
      ((decimalFrom value digits : Int), rest) := by
  induction digits generalizing value with
  | nil =>
      cases rest with
      | nil => rfl
      | cons c rest =>
          have stop : isDigit c = false := stop
          simp [skipAtoi, stop, decimalFrom]
  | cons digit digits induction =>
      obtain ⟨isDigit, code⟩ := isDigit_digitChar digit
      have grows := decimalFrom_le (value * 10 + digit) digits
      have next : decimalFrom value (digit :: digits) =
          decimalFrom (value * 10 + digit) digits := rfl
      rw [next] at small ⊢
      have bound := digit.isLt
      have zero : '0'.toNat = 48 := rfl
      have scaled : int32 ((value : Int) * 10) = (value : Int) * 10 :=
        int32_of_range (by omega) (by omega)
      have added : int32 ((value : Int) * 10 + (digitChar digit).toNat) =
          (value : Int) * 10 + (digitChar digit).toNat := by
        rw [code, zero]
        exact int32_of_range (by omega) (by omega)
      have digitValue : int32 ((value : Int) * 10 + (digitChar digit).toNat -
          '0'.toNat) = ((value * 10 + digit : Nat) : Int) := by
        rw [code, int32_of_range (by omega) (by omega)]
        omega
      rw [List.map_cons, List.cons_append, skipAtoi, if_pos isDigit]
      simp only [scaled, added, digitValue]
      exact induction small

/-- The flags end where no further flag character stands. -/
theorem scanFlags_text (flags : Flags) (list : List Flag) {rest : Format}
    (stop : deref rest ∉ ['-', '+', ' ', '#', '0']) :
    scanFlags flags (list.map Flag.char ++ rest) =
      (list.foldl Flag.set flags, rest) := by
  induction list generalizing flags with
  | nil =>
      simp only [List.mem_cons, List.not_mem_nil, or_false, not_or] at stop
      cases rest with
      | nil => rfl
      | cons c rest =>
          simp only [deref_cons] at stop
          obtain ⟨minus, plus, space, hash, zero⟩ := stop
          rw [List.map_nil, List.nil_append, scanFlags]
          · rfl
          all_goals
            rintro _ equality
            injection equality
            contradiction
  | cons flag list induction =>
      cases flag <;> exact induction _

/-- An amount that is absent or written in the format. -/
def Bounded (amount : Option Int) : Prop :=
  ∀ value ∈ amount, 0 ≤ value ∧ value ≤ 2147483599

theorem Count.bounded (count : Count) : Bounded (some (count.value : Int)) := by
  intro value member
  cases member
  have small : count.value ≤ 2147483599 := count.small
  omega

section Scan

variable {more : Format} {p : Printer}

theorem scanWidth_text (d : Directive) (flags : Flags)
    (noStar : d.width ≠ some .star) (stop : isDigit (deref more) = false)
    (notStar : deref more ≠ '*') :
    ∃ width, p.take d.width = some (width, p) ∧ Bounded width ∧
      scanWidth flags (d.widthText ++ more) p =
        some (flags, width.getD (-1), more, p) := by
  have leading := d.leading
  unfold Directive.widthText
  cases width : d.width with
  | none =>
      refine ⟨none, rfl, by simp [Bounded], ?_⟩
      simp [scanWidth, stop, notStar]
  | some amount =>
      cases amount with
      | star => exact absurd width noStar
      | count count =>
          refine ⟨some count.value, rfl, count.bounded, ?_⟩
          obtain ⟨digit, digits, first, _⟩ := leading count width
          have atDigit : isDigit (deref (count.digits.map digitChar ++ more)) =
              true := by
            rw [first]
            exact (isDigit_digitChar digit).1
          have read : skipAtoi 0 (count.digits.map digitChar ++ more) =
              ((count.value : Int), more) := skipAtoi_digits count.small stop
          simp [scanWidth, Amount.text, atDigit, read]

theorem scanPrecision_text (d : Directive) (noStar : d.precision ≠ some .star)
    (stop : isDigit (deref more) = false) (notStar : deref more ≠ '*')
    (notDot : deref more ≠ '.') :
    ∃ precision, p.take d.precision = some (precision, p) ∧
      Bounded precision ∧
      scanPrecision (d.precisionText ++ more) p =
        some (precision.getD (-1), more, p) := by
  unfold Directive.precisionText
  cases precision : d.precision with
  | none =>
      refine ⟨none, rfl, by simp [Bounded], ?_⟩
      simp [scanPrecision, notDot]
  | some amount =>
      cases amount with
      | star => exact absurd precision noStar
      | count count =>
          refine ⟨some count.value, rfl, count.bounded, ?_⟩
          have read : skipAtoi 0 (count.digits.map digitChar ++ more) =
              ((count.value : Int), more) := skipAtoi_digits count.small stop
          cases digits : count.digits with
          | nil =>
              have zero : count.value = 0 := by simp [Count.value, digits,
                decimalFrom]
              simp [scanPrecision, readPrecision, Amount.text, digits, stop,
                notStar, zero]
          | cons digit others =>
              have atDigit : isDigit (deref
                  (count.digits.map digitChar ++ more)) = true := by
                rw [digits]
                exact (isDigit_digitChar digit).1
              have positive : ¬((count.value : Int) < 0) := by omega
              simp [scanPrecision, readPrecision, Amount.text, atDigit, read,
                positive]

end Scan

/-! ## The conversions -/

/-- Any number of rounds that is enough: the first decrement may wrap. -/
theorem padBefore_all {c : Char} {rounds : Nat} {size : Int}
    (enough : (int32 (size - 1)).toNat < rounds) (upper : size ≤ 2147483647) :
    padBefore c rounds size =
      (List.replicate (int32 (size - 1)).toNat c, min (int32 (size - 1)) 0) := by
  induction rounds generalizing size with
  | zero => omega
  | succ rounds induction =>
      rw [padBefore]
      have range := int32_range (size - 1)
      generalize int32 (size - 1) = less at enough range ⊢
      split
      · rename_i more
        have kept : int32 (less - 1) = less - 1 :=
          int32_of_range (by omega) (by omega)
        have count : less.toNat = (less - 1).toNat + 1 := by omega
        have last : min (less - 1) 0 = min less 0 := by omega
        rw [induction (by omega) (by omega), kept, last, count,
          List.replicate_succ]
      · rename_i done
        have none : less.toNat = 0 := by omega
        have last : min less 0 = less := by omega
        rw [none, last, List.replicate_zero]

theorem padDown_all {c : Char} {size : Int} (upper : size ≤ 2147483647) :
    padDown c size =
      (List.replicate (int32 (size - 1)).toNat c, min (int32 (size - 1)) 0) :=
  padBefore_all (Nat.lt_succ_self _) upper

section Convert

variable {width precision : Option Int}

theorem Bounded.getD {amount : Option Int} (bounded : Bounded amount) :
    -1 ≤ amount.getD (-1) ∧ amount.getD (-1) ≤ 2147483599 ∧
      (amount.getD (-1)).toNat = (amount.getD 0).toNat := by
  cases amount with
  | none => decide
  | some value =>
      have range := bounded value rfl
      exact ⟨by rw [Option.getD_some]; omega, range.2, rfl⟩

theorem convertChar_eq (widthBounded : Bounded width) (flags : Flags)
    (rest : Format) (p : Printer) :
    convertChar flags (width.getD (-1)) p =
      Conversion.c.render flags width precision rest p := by
  obtain ⟨lower, upper, same⟩ := widthBounded.getD
  generalize width.getD (-1) = fieldWidth at *
  have count : (fieldWidth - 1).toNat = fieldWidth.toNat - 1 := by omega
  have pads : padDown ' ' fieldWidth =
      (List.replicate (fieldWidth.toNat - 1) ' ', min (fieldWidth - 1) 0) := by
    have kept : int32 (fieldWidth - 1) = fieldWidth - 1 :=
      int32_of_range (by omega) (by omega)
    rw [padDown_all (by omega), kept, count]
  have done : padDown ' ' (min (fieldWidth - 1) 0) =
      ([], min (fieldWidth - 1) 0 - 1) := by
    have none : (min (fieldWidth - 1) 0 - 1).toNat = 0 := by omega
    have last : min (min (fieldWidth - 1) 0 - 1) 0 =
        min (fieldWidth - 1) 0 - 1 := by omega
    have kept : int32 (min (fieldWidth - 1) 0 - 1) =
        min (fieldWidth - 1) 0 - 1 := int32_of_range (by omega) (by omega)
    rw [padDown_all (by omega), kept, none, last, List.replicate_zero]
  simp only [convertChar, Conversion.render, ← same]
  cases flags.left with
  | true => simp [pads, pad]
  | false => simp [pads, done, pad]

theorem shownOf_length (bounded : Bounded precision) (text : CString) :
    (if precision.getD (-1) < 0 then (text.chars.length : Int)
      else if (text.chars.length : Int) > precision.getD (-1) then
        precision.getD (-1)
      else text.chars.length) = (shownOf precision text).length := by
  cases precision with
  | none => rfl
  | some most =>
      have range := bounded most rfl
      have positive : ¬most < 0 := by omega
      simp only [shownOf, Option.getD_some, positive, if_false,
        List.length_take]
      split <;> omega

theorem shownOf_take (precision : Option Int) (text : CString) :
    text.chars.take (shownOf precision text).length =
      shownOf precision text := by
  cases precision with
  | none => exact List.take_length
  | some most =>
      simp only [shownOf, List.length_take]
      rw [Nat.min_comm, ← List.take_take]
      exact List.take_of_length_le (List.length_take_le' _ _)

theorem convertString_eq (widthBounded : Bounded width)
    (precisionBounded : Bounded precision) (flags : Flags) (rest : Format)
    (p : Printer) :
    convertString flags (width.getD (-1)) (precision.getD (-1)) p =
      Conversion.s.render flags width precision rest p := by
  obtain ⟨lower, upper, same⟩ := widthBounded.getD
  generalize width.getD (-1) = fieldWidth at *
  simp only [convertString, Conversion.render, ← same]
  cases p.vaString with
  | none => rfl
  | some result =>
      obtain ⟨text, p⟩ := result
      have fits := text.fits
      have shorter : (shownOf precision text).length ≤ text.chars.length := by
        rw [← shownOf_take precision text]
        simp
      have count : (fieldWidth - (shownOf precision text).length).toNat =
          fieldWidth.toNat - (shownOf precision text).length := by omega
      have pads : padWhile ' ' (shownOf precision text).length fieldWidth =
          (List.replicate
              (fieldWidth.toNat - (shownOf precision text).length) ' ',
            min ((shownOf precision text).length : Int) fieldWidth - 1) := by
        rw [padWhile_eq (by omega) (by omega), count]
      have done : padWhile ' ' (shownOf precision text).length
          (min ((shownOf precision text).length : Int) fieldWidth - 1) =
          ([], min ((shownOf precision text).length : Int) fieldWidth - 1 -
            1) :=
        padWhile_nothing (by omega) (by omega) (by omega)
      have taken := shownOf_take precision text
      simp only [Option.bind_eq_bind, Option.bind_some,
        shownOf_length precisionBounded, Int.toNat_natCast, taken, pads]
      cases flags.left with
      | true => simp [pads, pad]
      | false => simp [done, pad]

theorem convertNumber_eq {base : Nat} (lower : 2 ≤ base) (upper : base ≤ 36)
    {size : Int} (sizeLower : -1 ≤ size) (sizeUpper : size ≤ 2147483599)
    (precisionBounded : Bounded precision) (flags : Flags) (p : Printer) :
    convertNumber base flags size (precision.getD (-1)) p =
      p.vaWord.bind fun (value, p) => some (p.emit
        (renderNumber value base size.toNat (precision.getD 0).toNat
          flags)) := by
  obtain ⟨least, most, same⟩ := precisionBounded.getD
  have rendered : ∀ value, number value base size (precision.getD (-1)) flags =
      some (renderNumber value base size.toNat (precision.getD 0).toNat
        flags) := by
    intro value
    have signShort := signText_length flags value
    have markShort := markText_length flags base
    have digitsShort : (digitsText flags base value).length ≤ 32 :=
      numeral_length lower flags.small _
    rw [← same]
    exact number_eq lower upper (by omega) (by omega)
      (by unfold SizeFits; omega)
  unfold convertNumber
  simp only [rendered]
  rfl

theorem NumberConversion.base_range (kind : NumberConversion) :
    2 ≤ kind.base ∧ kind.base ≤ 36 := by
  cases kind <;> decide

theorem convert_number {kind : NumberConversion} (value : kind ≠ .p)
    (flags : Flags) (fieldWidth precision : Int) (rest : Format)
    (p : Printer) :
    convert flags fieldWidth precision (kind.char :: rest) p =
      (convertNumber kind.base (kind.adjust flags) fieldWidth precision p).bind
        fun p => some (p, rest) := by
  cases kind with
  | p => exact absurd rfl value
  | _ => rfl

theorem convert_pointer (flags : Flags) (fieldWidth precision : Int)
    (rest : Format) (p : Printer) :
    convert flags fieldWidth precision (NumberConversion.p.char :: rest) p =
      (if fieldWidth = -1 then
        convertNumber 16 { flags with zeropad := true } 8 precision p
      else convertNumber 16 flags fieldWidth precision p).bind
        fun p => some (p, rest) := by
  by_cases absent : fieldWidth = -1
  · subst absent
    rfl
  · rw [if_neg absent]
    simp only [convert, NumberConversion.char, deref_cons, absent, if_false]
    rfl

theorem convert_eq (conversion : Conversion) (widthBounded : Bounded width)
    (precisionBounded : Bounded precision) (flags : Flags) (rest : Format)
    (p : Printer) :
    convert flags (width.getD (-1)) (precision.getD (-1))
        (conversion.char :: rest) p =
      (conversion.render flags width precision rest p).map
        fun p => (p, rest) := by
  obtain ⟨lower, upper, same⟩ := widthBounded.getD
  cases conversion with
  | c =>
      rw [← convertChar_eq widthBounded, Option.map_eq_bind]
      rfl
  | s =>
      rw [← convertString_eq widthBounded precisionBounded,
        Option.map_eq_bind]
      rfl
  | n =>
      rw [Option.map_eq_bind]
      rfl
  | percent => rfl
  | number kind =>
      by_cases pointer : kind = .p
      · subst pointer
        rw [Conversion.char, convert_pointer]
        cases width with
        | none =>
            simp only [Option.getD_none, if_true, Conversion.render, and_self]
            rw [convertNumber_eq (by decide) (by decide) (by decide)
              (by decide) precisionBounded, Option.map_eq_bind]
            rfl
        | some value =>
            have range := widthBounded value rfl
            have given : value ≠ -1 := by omega
            simp only [Option.getD_some, given, if_false, Conversion.render,
              reduceCtorEq, and_false]
            rw [convertNumber_eq (by decide) (by decide) (by omega) range.2
              precisionBounded, Option.map_eq_bind]
            rfl
      · obtain ⟨two, most⟩ := kind.base_range
        rw [Conversion.char, convert_number pointer,
          convertNumber_eq two most lower upper precisionBounded, same,
          Option.map_eq_bind]
        simp only [Conversion.render, pointer, false_and, if_false]
        rfl

end Convert

/-! ## Directives -/

section Directives

variable {d : Directive} {rest : Format}

theorem starts_precision (d : Directive) (rest : Format) :
    deref (d.precisionText ++ (d.qualifierText ++ d.conversion.char :: rest)) ∈
      '.' :: conversionStarts := by
  unfold Directive.precisionText
  cases d.precision with
  | none => exact List.mem_cons_of_mem _ (starts_qualifier d rest)
  | some amount => exact List.mem_cons_self

theorem starts_neither {c : Char} (start : c ∈ '.' :: conversionStarts) :
    isDigit c = false ∧ c ≠ '*' ∧ c ∉ ['-', '+', ' ', '#', '0'] := by
  have all : ('.' :: conversionStarts).all (fun c => decide
      (isDigit c = false ∧ c ≠ '*' ∧ c ∉ ['-', '+', ' ', '#', '0'])) =
      true := by decide
  exact of_decide_eq_true (List.all_eq_true.mp all c start)

theorem stop_flags (d : Directive) (rest : Format) :
    deref (d.widthText ++ (d.precisionText ++
      (d.qualifierText ++ d.conversion.char :: rest))) ∉
        ['-', '+', ' ', '#', '0'] := by
  have leading := d.leading
  unfold Directive.widthText
  cases width : d.width with
  | none => exact (starts_neither (starts_precision d rest)).2.2
  | some amount =>
      cases amount with
      | star =>
          have noFlag : '*' ∉ ['-', '+', ' ', '#', '0'] := by decide
          exact noFlag
      | count count =>
          have nonzero : ∀ digit : Fin 10, digit ≠ 0 →
              digitChar digit ∉ ['-', '+', ' ', '#', '0'] := by decide
          obtain ⟨digit, others, digits, notZero⟩ := leading count width
          simp only [Option.map_some, Option.getD_some, Amount.text, digits]
          exact nonzero digit notZero

theorem body_append (d : Directive) (rest : Format) :
    d.body ++ rest = d.flags.map Flag.char ++ (d.widthText ++
      (d.precisionText ++ (d.qualifierText ++ d.conversion.char :: rest))) := by
  simp [Directive.body]

theorem Bounded.natAbs {amount : Option Int} (bounded : Bounded amount) :
    amount.map (fun value => (value.natAbs : Int)) = amount ∧
      ¬amount.getD 0 < 0 := by
  cases amount with
  | none => exact ⟨rfl, by decide⟩
  | some value =>
      have range := bounded value rfl
      have same : (value.natAbs : Int) = value := by omega
      refine ⟨congrArg some same, ?_⟩
      rw [Option.getD_some]
      omega

theorem directive_eq (widthGiven : d.width ≠ some .star)
    (precisionGiven : d.precision ≠ some .star) (rest : Format)
    (p : Printer) :
    directive (d.body ++ rest) p =
      (d.render rest p).map fun p => (p, rest) := by
  obtain ⟨noDigit, noStar, noDot⟩ := starts_plain (starts_qualifier d rest)
  obtain ⟨noDigit', noStar', _⟩ := starts_neither (starts_precision d rest)
  obtain ⟨width, takenWidth, widthBounded, scannedWidth⟩ :=
    scanWidth_text (p := p) d (d.flags.foldl Flag.set {}) widthGiven noDigit'
      noStar'
  obtain ⟨precision, takenPrecision, precisionBounded, scannedPrecision⟩ :=
    scanPrecision_text (p := p) d precisionGiven noDigit noStar noDot
  obtain ⟨sameWidth, notNegative⟩ := widthBounded.natAbs
  have converted := convert_eq d.conversion widthBounded precisionBounded
    (d.flags.foldl Flag.set {}) rest p
  simp only [directive, body_append, scanFlags_text _ _ (stop_flags d rest),
    scannedWidth, scannedPrecision, skipQualifier_text, converted,
    Option.bind_eq_bind, Option.bind_some, Directive.render, takenWidth,
    takenPrecision, notNegative, if_false, sameWidth]

/-! ## Arguments -/

theorem vaWord_eq {p q : Printer} {value : BitVec 32}
    (taken : p.vaWord = some (value, q)) :
    p.args = .word value :: q.args ∧ q.output = p.output := by
  unfold Printer.vaWord at taken
  split at taken
  case h_1 args shape =>
    cases taken
    exact ⟨shape, rfl⟩
  case h_2 => cases taken

theorem vaString_eq {p q : Printer} {text : CString}
    (taken : p.vaString = some (text, q)) :
    p.args = .string text :: q.args ∧ q.output = p.output := by
  unfold Printer.vaString at taken
  split at taken
  case h_1 args shape =>
    cases taken
    exact ⟨shape, rfl⟩
  case h_2 => cases taken

theorem vaTarget_eq {p q : Printer} {address : Nat}
    (taken : p.vaTarget = some (address, q)) :
    p.args = .target address :: q.args ∧ q.output = p.output := by
  unfold Printer.vaTarget at taken
  split at taken
  case h_1 args shape =>
    cases taken
    exact ⟨shape, rfl⟩
  case h_2 => cases taken

/-! ## Stars -/

/-- What is printed when `format` points to a star. -/
def LeftStar (p p' : Printer) (format : Format) : Prop :=
  p'.output = p.output ++ [.made '%', .copied ('*' :: format)]

theorem leftStar_copy {p p' : Printer} (format : Format)
    (same : p'.output = p.output) :
    LeftStar p ((p'.emit ['%']).copy ('*' :: format)) format := by
  simp [LeftStar, Printer.emit, Printer.copy, same]

/-- The scanner takes the argument of a star and stays there. -/
theorem scanWidth_star {flags flags' : Flags} {format format' : Format}
    {fieldWidth : Int} {p p' : Printer}
    (scanned : scanWidth flags ('*' :: format) p =
      some (flags', fieldWidth, format', p')) :
    format' = '*' :: format ∧ p'.output = p.output := by
  cases taken : p.vaWord with
  | none => simp [scanWidth, isDigit, taken] at scanned
  | some result =>
      obtain ⟨value, p₁⟩ := result
      have same := (vaWord_eq taken).2
      simp only [scanWidth, isDigit, deref_cons, taken, Option.bind_eq_bind,
        Option.bind_some] at scanned
      by_cases negative : value.toInt < 0
      · simp only [negative, if_true] at scanned
        cases scanned
        exact ⟨rfl, same⟩
      · simp only [negative, if_false] at scanned
        cases scanned
        exact ⟨rfl, same⟩

theorem scanPrecision_star {format format' : Format} {precision : Int}
    {p p' : Printer}
    (scanned : scanPrecision ('.' :: '*' :: format) p =
      some (precision, format', p')) :
    format' = '*' :: format ∧ p'.output = p.output := by
  obtain ⟨⟨_, _, _⟩, read, clamped⟩ := Option.map_eq_some_iff.mp scanned
  obtain ⟨⟨value, p₁⟩, taken, result⟩ := Option.map_eq_some_iff.mp read
  cases clamped
  cases result
  exact ⟨rfl, (vaWord_eq taken).2⟩

theorem directive_widthStar (star : d.width = some .star) {p p' : Printer}
    {next : Format}
    (returned : directive (d.body ++ rest) p = some (p', next)) :
    ∃ format, rest.length ≤ format.length ∧ LeftStar p p' format := by
  have text : d.widthText = ['*'] := by
    unfold Directive.widthText
    rw [star]
    rfl
  have stop := stop_flags d rest
  rw [text] at stop
  rw [directive, body_append, text, scanFlags_text _ _ stop] at returned
  obtain ⟨⟨flags, fieldWidth, format₁, p₁⟩, scanned, continued⟩ :=
    Option.bind_eq_some_iff.mp returned
  obtain ⟨rfl, same⟩ := scanWidth_star scanned
  cases continued
  refine ⟨d.precisionText ++ (d.qualifierText ++ d.conversion.char :: rest),
    ?_, leftStar_copy _ same⟩
  simp only [List.length_append, List.length_cons]
  omega

theorem directive_precisionStar (given : d.width ≠ some .star)
    (star : d.precision = some .star) {p p' : Printer} {next : Format}
    (returned : directive (d.body ++ rest) p = some (p', next)) :
    ∃ format, rest.length ≤ format.length ∧ LeftStar p p' format := by
  have text : d.precisionText = ['.', '*'] := by
    unfold Directive.precisionText
    rw [star]
    rfl
  obtain ⟨noDigit, noStar, _⟩ := starts_neither (starts_precision d rest)
  obtain ⟨width, _, _, scannedWidth⟩ :=
    scanWidth_text (p := p) d (d.flags.foldl Flag.set {}) given noDigit noStar
  simp only [directive, body_append, scanFlags_text _ _ (stop_flags d rest),
    scannedWidth, Option.bind_eq_bind, Option.bind_some] at returned
  rw [text] at returned
  obtain ⟨⟨precision, format₁, p₁⟩, scanned, continued⟩ :=
    Option.bind_eq_some_iff.mp returned
  obtain ⟨rfl, same⟩ := scanPrecision_star scanned
  cases continued
  refine ⟨d.qualifierText ++ d.conversion.char :: rest, ?_,
    leftStar_copy _ same⟩
  simp only [List.length_append, List.length_cons]
  omega

end Directives

end MiniOS
