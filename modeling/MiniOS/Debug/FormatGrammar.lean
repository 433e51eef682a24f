import MiniOS.Debug.Number

/-!
# The format grammar

A format is a sequence of literal characters and directives
`%[-+ #0]*[digits or *][.digits or .*][h l or L][csopxXdiubn%]`.  `expected`
says what such a format produces from its arguments, directive by directive.
-/

namespace MiniOS

inductive Flag where
  | minus | plus | space | hash | zero
  deriving DecidableEq, Repr

def Flag.char : Flag → Char
  | .minus => '-'
  | .plus => '+'
  | .space => ' '
  | .hash => '#'
  | .zero => '0'

def Flag.set (flags : Flags) : Flag → Flags
  | .minus => { flags with left := true }
  | .plus => { flags with plus := true }
  | .space => { flags with space := true }
  | .hash => { flags with special := true }
  | .zero => { flags with zeropad := true }

def decimalFrom (value : Nat) : List (Fin 10) → Nat
  | [] => value
  | digit :: digits => decimalFrom (value * 10 + digit.val) digits

/-- A number written in a format; `skip_atoi` computes it without overflow. -/
structure Count where
  digits : List (Fin 10)
  small : decimalFrom 0 digits ≤ 2147483599

def Count.value (count : Count) : Nat := decimalFrom 0 count.digits

inductive Amount where
  | count (count : Count)
  | star

inductive Qualifier where
  | h | l | upperL
  deriving DecidableEq, Repr

def Qualifier.char : Qualifier → Char
  | .h => 'h'
  | .l => 'l'
  | .upperL => 'L'

/-- The conversions that render a number. -/
inductive NumberConversion where
  | o | p | x | upperX | d | i | u | b
  deriving DecidableEq, Repr

namespace NumberConversion

def char : NumberConversion → Char
  | .o => 'o'
  | .p => 'p'
  | .x => 'x'
  | .upperX => 'X'
  | .d => 'd'
  | .i => 'i'
  | .u => 'u'
  | .b => 'b'

def base : NumberConversion → Nat
  | .o => 8
  | .p | .x | .upperX => 16
  | .d | .i | .u => 10
  | .b => 2

def adjust (flags : Flags) : NumberConversion → Flags
  | .x => { flags with small := true }
  | .d | .i => { flags with sign := true }
  | .o | .p | .upperX | .u | .b => flags

end NumberConversion

inductive Conversion where
  | c | s | n | percent
  | number (kind : NumberConversion)
  deriving DecidableEq, Repr

def Conversion.char : Conversion → Char
  | .c => 'c'
  | .s => 's'
  | .n => 'n'
  | .percent => '%'
  | .number kind => kind.char

/-- A directive; a width does not begin with the digit that is a flag. -/
structure Directive where
  flags : List Flag
  width : Option Amount
  precision : Option Amount
  qualifier : Option Qualifier
  conversion : Conversion
  leading : ∀ count, width = some (.count count) →
    ∃ digit rest, count.digits = digit :: rest ∧ digit ≠ 0

theorem noWidth_leading (count : Count)
    (width : (none : Option Amount) = some (.count count)) :
    ∃ digit rest, count.digits = digit :: rest ∧ digit ≠ 0 :=
  absurd width (Option.some_ne_none _).symm

inductive Piece where
  | literal (c : Char) (plain : c ≠ '%' ∧ c ≠ nul)
  | directive (d : Directive)

/-! ## The text of a format -/

def digitChar (digit : Fin 10) : Char := Char.ofNat (48 + digit)

def Amount.text : Amount → List Char
  | .count number => number.digits.map digitChar
  | .star => ['*']

namespace Directive

variable (d : Directive)

def qualifierText : List Char := (d.qualifier.map Qualifier.char).toList

def precisionText : List Char :=
  (d.precision.map fun amount => '.' :: amount.text).getD []

def widthText : List Char := (d.width.map Amount.text).getD []

/-- The characters of a directive behind its `%`. -/
def body : List Char :=
  d.flags.map Flag.char ++ d.widthText ++ d.precisionText ++
    d.qualifierText ++ [d.conversion.char]

end Directive

def Piece.text : Piece → List Char
  | .literal c _ => [c]
  | .directive d => '%' :: d.body

def textOf (pieces : List Piece) : Format := pieces.flatMap Piece.text

/-! ## What a format produces -/

/-- A width or a precision; a star takes the next argument. -/
def Printer.take (p : Printer) : Option Amount → Option (Option Int × Printer)
  | none => some (none, p)
  | some (.count count) => some (some count.value, p)
  | some .star => do
      let (value, p) ← p.vaWord
      return (some value.toInt, p)

def pad (left : Bool) (width : Nat) (text : List Char) : List Char :=
  let blanks := List.replicate (width - text.length) ' '
  if left then text ++ blanks else blanks ++ text

def shownOf (precision : Option Int) (text : CString) : List Char :=
  match precision with
  | none => text.chars
  | some most => text.chars.take most.toNat

def Conversion.render (flags : Flags) (width precision : Option Int)
    (rest : Format) (p : Printer) : Conversion → Option Printer
  | .c => do
      let (value, p) ← p.vaWord
      let c := Char.ofNat (value.toNat % 256)
      return p.emit (pad flags.left (width.getD 0).toNat [c])
  | .s => do
      let (text, p) ← p.vaString
      return p.emit
        (pad flags.left (width.getD 0).toNat (shownOf precision text))
  | .n => do
      let (ip, p) ← p.vaTarget
      return { p with stores := p.stores ++ [(ip, p.output.length)] }
  | .percent => some (p.copy ('%' :: rest))
  | .number kind => do
      let (value, p) ← p.vaWord
      -- an address is shown with all its digits
      let (flags, width) := if kind = .p ∧ width = none then
          ({ flags with zeropad := true }, 8)
        else (flags, width.getD 0)
      return p.emit (renderNumber value kind.base width.toNat
        (precision.getD 0).toNat (kind.adjust flags))

/-- A directive takes the arguments of its stars and then its own. -/
def Directive.render (d : Directive) (rest : Format) (p : Printer) :
    Option Printer := do
  let flags := d.flags.foldl Flag.set {}
  let (width, p) ← p.take d.width
  let (precision, p) ← p.take d.precision
  let flags := if width.getD 0 < 0 then { flags with left := true } else flags
  let width := width.map fun width => (width.natAbs : Int)
  d.conversion.render flags width precision rest p

/-- The output of the pieces one after the other; `none` where the arguments
are not those that the format asks for. -/
def expected : List Piece → Printer → Option Printer
  | [], p => some p
  | .literal c _ :: pieces, p => expected pieces (p.copy (c :: textOf pieces))
  | .directive d :: pieces, p => do
      let p ← d.render (textOf pieces) p
      expected pieces p

def Directive.HasStar (d : Directive) : Prop :=
  d.width = some .star ∨ d.precision = some .star

def Piece.HasStar : Piece → Prop
  | .literal _ _ => False
  | .directive d => d.HasStar

end MiniOS
