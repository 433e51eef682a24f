import MiniOS.Driver.KeyboardBuffer
import MiniOS.Driver.Keymap

/-!
# Decoding scan codes (`keyboard.c`, `tty.c`)

`keyboard_read` asks for the bytes of one sequence and passes a key to the
tty.  The static variables live on from call to call, with a record of what
was passed and printed.
-/

namespace MiniOS

open Scan

/-- The static variables of `keyboard.c` that are read, and the output. -/
structure Decoder where
  codeWithE0 : Bool
  shiftL : Bool
  shiftR : Bool
  altL : Bool
  altR : Bool
  ctrlL : Bool
  ctrlR : Bool
  column : Nat
  /-- The keys passed to `in_process`, the oldest first. -/
  passed : List Key
  /-- The characters that `printk` was given to print, the oldest first. -/
  printed : List (BitVec 8)
  deriving DecidableEq

def Decoder.zero : Decoder :=
  ⟨false, false, false, false, false, false, false, 0, [], []⟩

/-- The flags after `init_keyboard`, with nothing passed on so far. -/
def initDecoder (d : Decoder) : Decoder :=
  { d with
    shiftL := false
    shiftR := false
    altL := false
    altR := false
    ctrlL := false
    ctrlR := false
    passed := []
    printed := [] }

/-- `in_process`: `printk("%s", output)` for a string of one character. -/
def inProcess (key : Key) (d : Decoder) : Decoder :=
  let d := { d with passed := d.passed ++ [key] }
  if key &&& Key.flagExt = 0 then
    let output := [(key &&& 0xFF).setWidth 8, 0]
    { d with printed := d.printed ++ output.takeWhile (· ≠ 0) }
  else d

def Decoder.setModifier (key : Key) (make : Bool) (d : Decoder) : Decoder :=
  if key = Key.shiftL then { d with shiftL := make }
  else if key = Key.shiftR then { d with shiftR := make }
  else if key = Key.ctrlL then { d with ctrlL := make }
  else if key = Key.ctrlR then { d with ctrlR := make }
  else if key = Key.altL then { d with altL := make }
  else if key = Key.altR then { d with altL := make }
  else d

def flagIf (held : Bool) (flag : Key) : Key := if held then flag else 0

def Decoder.flags (d : Decoder) : Key :=
  flagIf d.shiftL Key.flagShiftL ||| flagIf d.shiftR Key.flagShiftR |||
    flagIf d.ctrlL Key.flagCtrlL ||| flagIf d.ctrlR Key.flagCtrlR |||
    flagIf d.altL Key.flagAltL ||| flagIf d.altR Key.flagAltR

def Decoder.selectColumn (d : Decoder) : Decoder :=
  let d := { d with column := 0 }
  let d := if d.shiftL || d.shiftR then { d with column := 1 } else d
  if d.codeWithE0 then { d with column := 2, codeWithE0 := false } else d

/-- The second part of `keyboard_read`: a key other than Pause and
PrintScreen. -/
def decodeKey (scanCode : BitVec 8) (d : Decoder) : Decoder :=
  let make := decide (scanCode &&& 0x80 = 0)
  let d := d.selectColumn
  let key := keyAt scanCode d.column
  let d := d.setModifier key make
  if make then inProcess (key ||| d.flags) d else d

/-- `keyboard_read` once a byte is waiting. -/
def keyboardRead (d : Decoder) : ByteScan Decoder :=
  let d := { d with codeWithE0 := false }
  .get fun scanCode =>
    if scanCode = 0xE1 then
      (expect [0x1D, 0x45, 0xE1, 0x9D, 0xC5]).andThen fun isPausebreak =>
        .done (if isPausebreak then d else decodeKey scanCode d)
    else if scanCode = 0xE0 then
      .get fun scanCode =>
        if scanCode = 0x2A then
          (expect [0xE0, 0x37]).andThen fun isPrintscreen =>
            .done (if isPrintscreen then d
              else decodeKey scanCode { d with codeWithE0 := true })
        else if scanCode = 0xB7 then
          (expect [0xE0, 0xAA]).andThen fun isPrintscreen =>
            .done (if isPrintscreen then d
              else decodeKey scanCode { d with codeWithE0 := true })
        else .done (decodeKey scanCode { d with codeWithE0 := true })
    else .done (decodeKey scanCode d)

end MiniOS
