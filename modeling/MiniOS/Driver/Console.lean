import MiniOS.Lib.RecordedArray

/-!
# The console (`console.c`)

Video memory is an array of 16-bit cells whose stores are recorded, the ports
of the display controller a log of the bytes sent.  The cursor is kept in two
variables of type `uint8_t`.
-/

namespace MiniOS

open RecordedArray

/-- `enum real_color` -/
inductive RealColor where
  | black
  | blue
  | green
  | cyan
  | red
  | magenta
  | brown
  | lightGrey
  | darkGrey
  | lightBlue
  | lightGreen
  | lightCyan
  | lightRed
  | lightMagenta
  | lightBrown
  | white
  deriving DecidableEq, Repr

namespace RealColor

def code : RealColor → BitVec 8
  | black => 0
  | blue => 1
  | green => 2
  | cyan => 3
  | red => 4
  | magenta => 5
  | brown => 6
  | lightGrey => 7
  | darkGrey => 8
  | lightBlue => 9
  | lightGreen => 10
  | lightCyan => 11
  | lightRed => 12
  | lightMagenta => 13
  | lightBrown => 14
  | white => 15

end RealColor

def uint8 (value : Nat) : Nat := value % 256

structure Console where
  videoMemory : Recorded (BitVec 16)
  cursorX : Nat
  cursorY : Nat
  /-- The calls `outb(port, value)`, the latest first. -/
  ports : List (Nat × Nat)

namespace Console

def outb (port value : Nat) (s : Console) : Console :=
  { s with ports := (port, uint8 value) :: s.ports }

def moveCursor (s : Console) : Console :=
  let cursorLocation := (s.cursorY * 80 + s.cursorX) % 65536
  let s := s.outb 0x3D4 14
  let s := s.outb 0x3D5 (cursorLocation / 256)
  let s := s.outb 0x3D4 15
  s.outb 0x3D5 cursorLocation

def blank : BitVec 16 :=
  let attributeByte : BitVec 8 := (0 <<< 4) ||| (15 &&& 0x0F)
  0x20 ||| (attributeByte.setWidth 16 <<< 8)

def scroll (s : Console) : Console :=
  if 25 ≤ s.cursorY then
    { s with
      videoMemory :=
        (s.videoMemory.copyDown 80 (24 * 80)).fillFrom blank (24 * 80) 80
      cursorY := 24 }
  else s

end Console

open Console

def consoleClear (s : Console) : Console :=
  let s := { s with videoMemory := s.videoMemory.fillFrom blank 0 (80 * 25) }
  let s := { s with cursorX := 0, cursorY := 0 }
  s.moveCursor

/-- The cell of a printable character: `c | attribute`. -/
def Console.cell (c : BitVec 8) (back fore : RealColor) : BitVec 16 :=
  let attributeByte : BitVec 8 := (back.code <<< 4) ||| (fore.code &&& 0x0F)
  let attributeWord : BitVec 16 := attributeByte.setWidth 16 <<< 8
  c.signExtend 16 ||| attributeWord

/-- The first part of `console_putc_color`: the character itself. -/
def Console.typeChar (c : BitVec 8) (back fore : RealColor) (s : Console) :
    Console :=
  if c.toInt = 0x08 ∧ s.cursorX ≠ 0 then
    { s with cursorX := uint8 (s.cursorX - 1) }
  else if c.toInt = 0x09 then
    { s with cursorX := uint8 ((s.cursorX + 8) &&& 0xFFFFFFF8) }
  else if c.toInt = 13 then { s with cursorX := 0 }
  else if c.toInt = 10 then
    { s with cursorX := 0, cursorY := uint8 (s.cursorY + 1) }
  else if 32 ≤ c.toInt then
    { s with
      videoMemory :=
        s.videoMemory.store (s.cursorY * 80 + s.cursorX) (cell c back fore)
      cursorX := uint8 (s.cursorX + 1) }
  else s

/-- The second part: to the next line at the right edge. -/
def Console.wrapLine (s : Console) : Console :=
  if 80 ≤ s.cursorX then
    { s with cursorX := 0, cursorY := uint8 (s.cursorY + 1) }
  else s

def consolePutcColor (c : BitVec 8) (back fore : RealColor) (s : Console) :
    Console :=
  (s.typeChar c back fore).wrapLine.scroll.moveCursor

/-- `console_write_color` of a string with the characters `cstr` before its
NUL. -/
def consoleWriteColor (cstr : List (BitVec 8)) (back fore : RealColor)
    (s : Console) : Console :=
  cstr.foldl (fun s c => consolePutcColor c back fore s) s

def consoleWrite (cstr : List (BitVec 8)) (s : Console) : Console :=
  consoleWriteColor cstr .black .white s

end MiniOS
