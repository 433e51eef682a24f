import Mathlib.Data.Nat.Notation

/-!
# The formatter of `printk.c`

A pointer into a string is the list of the characters from there to the NUL.
`int` arithmetic is two's complement, `int32` is the conversion after each
operation.  A character of the output carries its origin: `vsprintf` either
makes it or copies it from where `format` points.  `none` stands for a
behaviour that C leaves open: an argument that is not there or not of the type
asked for.
-/

namespace MiniOS

def int32 (value : Int) : Int := value.bmod 4294967296

/-- The pointer to the first of these characters, with the NUL behind. -/
abbrev Format := List Char

abbrev nul : Char := Char.ofNat 0

def deref (format : Format) : Char := format.headD nul

def isDigit (c : Char) : Bool := '0' ≤ c && c ≤ '9'

/-- `skip_atoi` from the partial value `i`. -/
def skipAtoi (i : Int) : Format → Int × Format
  | [] => (i, [])
  | c :: format =>
      if isDigit c then
        let sum := int32 (int32 (i * 10) + c.toNat)
        skipAtoi (int32 (sum - '0'.toNat)) format
      else (i, c :: format)

/-- The bits of `flags`. -/
structure Flags where
  zeropad : Bool := false
  sign : Bool := false
  plus : Bool := false
  space : Bool := false
  left : Bool := false
  special : Bool := false
  small : Bool := false
  deriving DecidableEq, Repr

/-! ## `number` -/

/-- `while (bound < size--) *str++ = c`: what is stored, and `size` after it. -/
def padLoop (c : Char) (bound : Int) : Nat → Int → List Char × Int
  | 0, size => ([], size)
  | rounds + 1, size =>
      if bound < size then
        let (stored, last) := padLoop c bound rounds (int32 (size - 1))
        (c :: stored, last)
      else ([], int32 (size - 1))

/-- The loop tests `size` once more than it stores. -/
def padWhile (c : Char) (bound size : Int) : List Char × Int :=
  padLoop c bound ((size - bound).toNat + 1) size

def digitTable (small : Bool) : List Char :=
  if small then "0123456789abcdefghijklmnopqrstuvwxyz".toList
  else "0123456789ABCDEFGHIJKLMNOPQRSTUVWXYZ".toList

def divLoop (digits : List Char) (base : Nat) : Nat → Nat → Option (List Char)
  | 0, num => if num = 0 then some [] else none
  | room + 1, num =>
      if num = 0 then some []
      else do
        let tmp ← divLoop digits base room (num / base)
        return digits.getD (num % base) nul :: tmp

def takeSign (type : Flags) (num : BitVec 32) : List Char × BitVec 32 :=
  if type.sign && num.toInt < 0 then (['-'], -num)
  else (if type.plus then ['+'] else if type.space then [' '] else [], num)

/-- The stores of `number`, when `size` has been reduced by the sign and the
mark of the base. -/
def layout (digits sign : List Char) (base : Nat) (size precision : Int)
    (type : Flags) (tmp : List Char) : List Char :=
  let c := if type.zeropad then '0' else ' '
  let i : Int := tmp.length
  let precision := if i > precision then i else precision
  let size := int32 (size - precision)
  let (blanks, size) :=
    if !type.zeropad && !type.left then padWhile ' ' 0 size else ([], size)
  let mark := if type.special then
    if base = 8 then ['0']
    else if base = 16 then ['0', digits.getD 33 nul] else []
    else []
  let (filler, size) := if !type.left then padWhile c 0 size else ([], size)
  let (zeros, _) := padWhile '0' i precision
  let (trailing, _) := padWhile ' ' 0 size
  blanks ++ sign ++ mark ++ filler ++ zeros ++ tmp.reverse ++ trailing

/-- `number`: what it stores from `str` on. -/
def number (num : BitVec 32) (base : Nat) (size precision : Int)
    (type : Flags) : Option (List Char) :=
  let digits := digitTable type.small
  let type := if type.left then { type with zeropad := false } else type
  if base < 2 ∨ 36 < base then none
  else
    let (sign, num) := takeSign type num
    let size := if sign ≠ [] then int32 (size - 1) else size
    let size := if type.special then
      if base = 16 then int32 (size - 2)
      else if base = 8 then int32 (size - 1) else size
      else size
    let tmp := if num = 0 then some ['0']
      else divLoop digits base 36 num.toNat
    tmp.map (layout digits sign base size precision type)

/-! ## Arguments and output -/

/-- A string argument: its characters before the NUL, no more than an `int`
counts. -/
structure CString where
  chars : List Char
  terminated : nul ∉ chars
  fits : chars.length < 2147483648

/-- A word of the variable arguments, with what it points to. -/
inductive Arg where
  | word (value : BitVec 32)
  | string (text : CString)
  /-- A pointer to an `int`. -/
  | target (address : Nat)

/-- A character of the output. -/
inductive Out where
  /-- Stored by the formatter on its own account. -/
  | made (c : Char)
  /-- Stored by `*str++ = *format`. -/
  | copied (format : Format)
  deriving DecidableEq

def Out.char : Out → Char
  | .made c => c
  | .copied format => deref format

/-- The state of a call: the arguments left, the characters from `buff` to
`str`, and what `%n` has stored. -/
structure Printer where
  args : List Arg
  output : List Out
  stores : List (Nat × Nat)

namespace Printer

def emit (p : Printer) (chars : List Char) : Printer :=
  { p with output := p.output ++ chars.map .made }

def copy (p : Printer) (format : Format) : Printer :=
  { p with output := p.output ++ [.copied format] }

/-- `va_arg(args, int)` and the other integer types. -/
def vaWord (p : Printer) : Option (BitVec 32 × Printer) :=
  match p.args with
  | .word value :: args => some (value, { p with args := args })
  | _ => none

/-- `va_arg(args, char *)`. -/
def vaString (p : Printer) : Option (CString × Printer) :=
  match p.args with
  | .string text :: args => some (text, { p with args := args })
  | _ => none

/-- `va_arg(args, int *)`. -/
def vaTarget (p : Printer) : Option (Nat × Printer) :=
  match p.args with
  | .target address :: args => some (address, { p with args := args })
  | _ => none

end Printer

/-! ## The parts of a directive -/

/-- The jumps to `repeat`. -/
def scanFlags (flags : Flags) : Format → Flags × Format
  | '-' :: format => scanFlags { flags with left := true } format
  | '+' :: format => scanFlags { flags with plus := true } format
  | ' ' :: format => scanFlags { flags with space := true } format
  | '#' :: format => scanFlags { flags with special := true } format
  | '0' :: format => scanFlags { flags with zeropad := true } format
  | format => (flags, format)

def scanWidth (flags : Flags) (format : Format) (p : Printer) :
    Option (Flags × Int × Format × Printer) :=
  if isDigit (deref format) then
    let (fieldWidth, format) := skipAtoi 0 format
    some (flags, fieldWidth, format, p)
  else if deref format = '*' then do
    let (value, p) ← p.vaWord
    -- `format` still points to the star
    if value.toInt < 0 then
      some ({ flags with left := true }, int32 (-value.toInt), format, p)
    else some (flags, value.toInt, format, p)
  else some (flags, -1, format, p)

def readPrecision (format : Format) (p : Printer) :
    Option (Int × Format × Printer) :=
  if isDigit (deref format) then
    let (precision, format) := skipAtoi 0 format
    some (precision, format, p)
  else if deref format = '*' then
    -- `format` still points to the star
    p.vaWord.map fun (value, p) => (value.toInt, format, p)
  else some (-1, format, p)

def scanPrecision (format : Format) (p : Printer) :
    Option (Int × Format × Printer) :=
  if deref format = '.' then
    (readPrecision format.tail p).map fun (precision, format, p) =>
      (if precision < 0 then 0 else precision, format, p)
  else some (-1, format, p)

def skipQualifier (format : Format) : Format :=
  if deref format = 'h' ∨ deref format = 'l' ∨ deref format = 'L' then
    format.tail
  else format

/-- `while (--size > 0) *str++ = c`: what is stored, and `size` after it. -/
def padBefore (c : Char) : Nat → Int → List Char × Int
  | 0, size => ([], size)
  | rounds + 1, size =>
      let size := int32 (size - 1)
      if 0 < size then
        let (stored, last) := padBefore c rounds size
        (c :: stored, last)
      else ([], size)

/-- The loop tests `size` once more than it stores; below the least `int` it
goes on at the greatest. -/
def padDown (c : Char) (size : Int) : List Char × Int :=
  padBefore c ((int32 (size - 1)).toNat + 1) size

def convertChar (flags : Flags) (fieldWidth : Int) (p : Printer) :
    Option Printer := do
  let (leading, fieldWidth) :=
    if !flags.left then padDown ' ' fieldWidth else ([], fieldWidth)
  let (value, p) ← p.vaWord
  let (trailing, _) := padDown ' ' fieldWidth
  return p.emit (leading ++ [Char.ofNat (value.toNat % 256)] ++ trailing)

def convertString (flags : Flags) (fieldWidth precision : Int) (p : Printer) :
    Option Printer := do
  let (s, p) ← p.vaString
  let len : Int := s.chars.length
  let len := if precision < 0 then len
    else if len > precision then precision else len
  let (leading, fieldWidth) :=
    if !flags.left then padWhile ' ' len fieldWidth else ([], fieldWidth)
  let (trailing, _) := padWhile ' ' len fieldWidth
  return p.emit (leading ++ s.chars.take len.toNat ++ trailing)

def convertNumber (base : Nat) (flags : Flags) (fieldWidth precision : Int)
    (p : Printer) : Option Printer := do
  let (value, p) ← p.vaWord
  let text ← number value base fieldWidth precision flags
  return p.emit text

def convertCount (p : Printer) : Option Printer := do
  let (ip, p) ← p.vaTarget
  return { p with stores := p.stores ++ [(ip, p.output.length)] }

def copyConversion (format : Format) (p : Printer) : Printer × Format :=
  let p := if deref format ≠ '%' then p.emit ['%'] else p
  if deref format ≠ nul then (p.copy format, format.tail)
  -- `--format` here and `++format` of the loop
  else (p, format)

/-- The last `switch`; the format returned is the one after `++format` of the
loop. -/
def convert (flags : Flags) (fieldWidth precision : Int) (format : Format)
    (p : Printer) : Option (Printer × Format) := do
  let done (p : Printer) : Printer × Format := (p, format.tail)
  match deref format with
  | 'c' => return done (← convertChar flags fieldWidth p)
  | 's' => return done (← convertString flags fieldWidth precision p)
  | 'o' => return done (← convertNumber 8 flags fieldWidth precision p)
  | 'p' =>
      let (fieldWidth, flags) :=
        if fieldWidth = -1 then (8, { flags with zeropad := true })
        else (fieldWidth, flags)
      return done (← convertNumber 16 flags fieldWidth precision p)
  | 'x' =>
      let flags := { flags with small := true }
      return done (← convertNumber 16 flags fieldWidth precision p)
  | 'X' => return done (← convertNumber 16 flags fieldWidth precision p)
  | 'd' | 'i' =>
      let flags := { flags with sign := true }
      return done (← convertNumber 10 flags fieldWidth precision p)
  | 'u' => return done (← convertNumber 10 flags fieldWidth precision p)
  | 'b' => return done (← convertNumber 2 flags fieldWidth precision p)
  | 'n' => return done (← convertCount p)
  | _ => return copyConversion format p

def directive (format : Format) (p : Printer) :
    Option (Printer × Format) := do
  let (flags, format) := scanFlags {} format
  let (flags, fieldWidth, format, p) ← scanWidth flags format p
  let (precision, format, p) ← scanPrecision format p
  convert flags fieldWidth precision (skipQualifier format) p

def vsprintfLoop : Nat → Format → Printer → Option Printer
  | 0, _, _ => none
  | rounds + 1, format, p =>
      if deref format = nul then some p
      else if deref format ≠ '%' then
        vsprintfLoop rounds format.tail (p.copy format)
      else do
        let (p, format) ← directive format.tail p
        vsprintfLoop rounds format p

/-- What a call leaves in `buff` and at the targets of `%n`, and its value. -/
structure Printed where
  output : List Out
  stores : List (Nat × Nat)
  returned : Nat

def Printer.finish (p : Printer) : Printed :=
  ⟨p.output, p.stores, p.output.length⟩

/-- A call of `printk` as its caller makes it: the format and the words behind
it. -/
structure PrintkCall where
  format : Format
  args : List Nat
  deriving DecidableEq

/-- `vsprintf`: each round of the loop passes a character of the format. -/
def vsprintf (format : Format) (args : List Arg) : Option Printed := do
  let p ← vsprintfLoop (format.length + 1) format ⟨args, [], []⟩
  return p.finish

end MiniOS
