import Mathlib.Data.List.Basic

/-!
# The keymap (`keyboard.h`, `keymap.h`)

A key is the 32-bit code passed to the tty: a character, or a number with
`FLAG_EXT`, and the flags of the modifiers.
-/

namespace MiniOS

abbrev Key := BitVec 32

namespace Key

abbrev flagExt : Key := 0x0100
abbrev flagShiftL : Key := 0x0200
abbrev flagShiftR : Key := 0x0400
abbrev flagCtrlL : Key := 0x0800
abbrev flagCtrlR : Key := 0x1000
abbrev flagAltL : Key := 0x2000
abbrev flagAltR : Key := 0x4000

abbrev esc : Key := 0x01 + flagExt
abbrev tab : Key := 0x02 + flagExt
abbrev enter : Key := 0x03 + flagExt
abbrev backspace : Key := 0x04 + flagExt
abbrev guiL : Key := 0x05 + flagExt
abbrev guiR : Key := 0x06 + flagExt
abbrev apps : Key := 0x07 + flagExt
abbrev shiftL : Key := 0x08 + flagExt
abbrev shiftR : Key := 0x09 + flagExt
abbrev ctrlL : Key := 0x0A + flagExt
abbrev ctrlR : Key := 0x0B + flagExt
abbrev altL : Key := 0x0C + flagExt
abbrev altR : Key := 0x0D + flagExt
abbrev capsLock : Key := 0x0E + flagExt
abbrev numLock : Key := 0x0F + flagExt
abbrev scrollLock : Key := 0x10 + flagExt
abbrev f1 : Key := 0x11 + flagExt
abbrev f2 : Key := 0x12 + flagExt
abbrev f3 : Key := 0x13 + flagExt
abbrev f4 : Key := 0x14 + flagExt
abbrev f5 : Key := 0x15 + flagExt
abbrev f6 : Key := 0x16 + flagExt
abbrev f7 : Key := 0x17 + flagExt
abbrev f8 : Key := 0x18 + flagExt
abbrev f9 : Key := 0x19 + flagExt
abbrev f10 : Key := 0x1A + flagExt
abbrev f11 : Key := 0x1B + flagExt
abbrev f12 : Key := 0x1C + flagExt
abbrev pausebreak : Key := 0x1E + flagExt
abbrev insert : Key := 0x1F + flagExt
abbrev delete : Key := 0x20 + flagExt
abbrev home : Key := 0x21 + flagExt
abbrev endKey : Key := 0x22 + flagExt
abbrev pageup : Key := 0x23 + flagExt
abbrev pagedown : Key := 0x24 + flagExt
abbrev up : Key := 0x25 + flagExt
abbrev down : Key := 0x26 + flagExt
abbrev left : Key := 0x27 + flagExt
abbrev right : Key := 0x28 + flagExt
abbrev padSlash : Key := 0x2C + flagExt
abbrev padMinus : Key := 0x2E + flagExt
abbrev padPlus : Key := 0x2F + flagExt
abbrev padEnter : Key := 0x30 + flagExt
abbrev padDot : Key := 0x31 + flagExt
abbrev pad0 : Key := 0x32 + flagExt
abbrev pad1 : Key := 0x33 + flagExt
abbrev pad2 : Key := 0x34 + flagExt
abbrev pad3 : Key := 0x35 + flagExt
abbrev pad4 : Key := 0x36 + flagExt
abbrev pad5 : Key := 0x37 + flagExt
abbrev pad6 : Key := 0x38 + flagExt
abbrev pad7 : Key := 0x39 + flagExt
abbrev pad8 : Key := 0x3A + flagExt
abbrev pad9 : Key := 0x3B + flagExt

abbrev padUp : Key := pad8
abbrev padDown : Key := pad2
abbrev padLeft : Key := pad4
abbrev padRight : Key := pad6
abbrev padHome : Key := pad7
abbrev padEnd : Key := pad1
abbrev padPageup : Key := pad9
abbrev padPagedown : Key := pad3
abbrev padIns : Key := pad0
abbrev padMid : Key := pad5

end Key

abbrev ascii (c : Char) : Key := BitVec.ofNat 32 c.toNat

/-- The rows of scan codes 0x00 to 0x7F: plain, shifted, after 0xE0. -/
def keymap : List Key := [
  -- 0x00
  0, 0, 0,
  .esc, .esc, 0,
  ascii '1', ascii '!', 0,
  ascii '2', ascii '@', 0,
  ascii '3', ascii '#', 0,
  ascii '4', ascii '$', 0,
  ascii '5', ascii '%', 0,
  ascii '6', ascii '^', 0,
  ascii '7', ascii '&', 0,
  ascii '8', ascii '*', 0,
  ascii '9', ascii '(', 0,
  ascii '0', ascii ')', 0,
  ascii '-', ascii '_', 0,
  ascii '=', ascii '+', 0,
  .backspace, .backspace, 0,
  .tab, .tab, 0,
  -- 0x10
  ascii 'q', ascii 'Q', 0,
  ascii 'w', ascii 'W', 0,
  ascii 'e', ascii 'E', 0,
  ascii 'r', ascii 'R', 0,
  ascii 't', ascii 'T', 0,
  ascii 'y', ascii 'Y', 0,
  ascii 'u', ascii 'U', 0,
  ascii 'i', ascii 'I', 0,
  ascii 'o', ascii 'O', 0,
  ascii 'p', ascii 'P', 0,
  ascii '[', 0x7B, 0,
  ascii ']', 0x7D, 0,
  .enter, .enter, .padEnter,
  .ctrlL, .ctrlL, .ctrlR,
  ascii 'a', ascii 'A', 0,
  ascii 's', ascii 'S', 0,
  -- 0x20
  ascii 'd', ascii 'D', 0,
  ascii 'f', ascii 'F', 0,
  ascii 'g', ascii 'G', 0,
  ascii 'h', ascii 'H', 0,
  ascii 'j', ascii 'J', 0,
  ascii 'k', ascii 'K', 0,
  ascii 'l', ascii 'L', 0,
  ascii ';', ascii ':', 0,
  0x27, 0x22, 0,
  0x60, ascii '~', 0,
  .shiftL, .shiftL, 0,
  0x5C, ascii '|', 0,
  ascii 'z', ascii 'Z', 0,
  ascii 'x', ascii 'X', 0,
  ascii 'c', ascii 'C', 0,
  ascii 'v', ascii 'V', 0,
  -- 0x30
  ascii 'b', ascii 'B', 0,
  ascii 'n', ascii 'N', 0,
  ascii 'm', ascii 'M', 0,
  ascii ',', ascii '<', 0,
  ascii '.', ascii '>', 0,
  ascii '/', ascii '?', .padSlash,
  .shiftR, .shiftR, 0,
  ascii '*', ascii '*', 0,
  .altL, .altL, .altR,
  ascii ' ', ascii ' ', 0,
  .capsLock, .capsLock, 0,
  .f1, .f1, 0,
  .f2, .f2, 0,
  .f3, .f3, 0,
  .f4, .f4, 0,
  .f5, .f5, 0,
  -- 0x40
  .f6, .f6, 0,
  .f7, .f7, 0,
  .f8, .f8, 0,
  .f9, .f9, 0,
  .f10, .f10, 0,
  .numLock, .numLock, 0,
  .scrollLock, .scrollLock, 0,
  .padHome, ascii '7', .home,
  .padUp, ascii '8', .up,
  .padPageup, ascii '9', .pageup,
  .padMinus, ascii '-', 0,
  .padLeft, ascii '4', .left,
  .padMid, ascii '5', 0,
  .padRight, ascii '6', .right,
  .padPlus, ascii '+', 0,
  .padEnd, ascii '1', .endKey,
  -- 0x50
  .padDown, ascii '2', .down,
  .padPagedown, ascii '3', .pagedown,
  .padIns, ascii '0', .insert,
  .padDot, ascii '.', .delete,
  0, 0, 0,
  0, 0, 0,
  0, 0, 0,
  .f11, .f11, 0,
  .f12, .f12, 0,
  0, 0, 0,
  0, 0, 0,
  0, 0, .guiL,
  0, 0, .guiR,
  0, 0, .apps,
  0, 0, 0,
  0, 0, 0,
  -- 0x60
  0, 0, 0,
  0, 0, 0,
  0, 0, 0,
  0, 0, 0,
  0, 0, 0,
  0, 0, 0,
  0, 0, 0,
  0, 0, 0,
  0, 0, 0,
  0, 0, 0,
  0, 0, 0,
  0, 0, 0,
  0, 0, 0,
  0, 0, 0,
  0, 0, 0,
  0, 0, 0,
  -- 0x70
  0, 0, 0,
  0, 0, 0,
  0, 0, 0,
  0, 0, 0,
  0, 0, 0,
  0, 0, 0,
  0, 0, 0,
  0, 0, 0,
  0, 0, 0,
  0, 0, 0,
  0, 0, 0,
  0, 0, 0,
  0, 0, 0,
  0, 0, 0,
  0, 0, 0,
  0, 0, 0]

/-- The key of a row, with the break bit of the scan code masked. -/
def keyAt (scanCode : BitVec 8) (column : Nat) : Key :=
  keymap.getD ((scanCode &&& 0x7F).toNat * 3 + column) 0

/-- What a pass over the table finds of each row and column. -/
theorem keyAt_of_all (p : Nat → Nat → Key → Bool)
    (checked : keymap.zipIdx.all (fun entry =>
      p (entry.2 / 3) (entry.2 % 3) entry.1) = true)
    (scanCode : BitVec 8) {column : Nat} (inside : column < 3) :
    p (scanCode &&& 0x7F).toNat column (keyAt scanCode column) = true := by
  have row : (scanCode &&& 0x7F).toNat < 128 := by
    rw [BitVec.toNat_and]
    exact Nat.lt_of_le_of_lt Nat.and_le_right (by decide)
  have length : keymap.length = 384 := by decide +kernel
  have below : (scanCode &&& 0x7F).toNat * 3 + column < keymap.length := by
    omega
  have entry := List.all_eq_true.mp checked
    (keymap[(scanCode &&& 0x7F).toNat * 3 + column],
      (scanCode &&& 0x7F).toNat * 3 + column)
    (List.mk_mem_zipIdx_iff_getElem?.mpr (List.getElem?_eq_getElem below))
  have rowEq : ((scanCode &&& 0x7F).toNat * 3 + column) / 3 =
      (scanCode &&& 0x7F).toNat := by omega
  have columnEq : ((scanCode &&& 0x7F).toNat * 3 + column) % 3 = column := by
    omega
  simp only [rowEq, columnEq] at entry
  rwa [keyAt, List.getD_eq_getElem?_getD, List.getElem?_eq_getElem below]

end MiniOS
