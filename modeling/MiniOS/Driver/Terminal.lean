import MiniOS.Driver.Console

/-!
# The console as a window on a terminal

`Terminal` is what the console stands for: lines of 80 columns without end,
blank at first, that never scroll, each place holding a character and its two
colours.  Video memory shows the 25 lines that end with the cursor's, or the
first 25; what one of its cells shows is the display's own reading of its 16
bits, not the way `console.c` puts them together.
-/

namespace MiniOS

open Console RecordedArray

/-- A character with its colours. -/
structure ColoredChar where
  char : BitVec 8
  back : RealColor
  fore : RealColor
  deriving DecidableEq

/-! ## What a cell shows -/

/-- The sixteen colours in the order of the display's palette. -/
def palette : Vector RealColor 16 :=
  #v[.black, .blue, .green, .cyan, .red, .magenta, .brown, .lightGrey,
    .darkGrey, .lightBlue, .lightGreen, .lightCyan, .lightRed, .lightMagenta,
    .lightBrown, .white]

def paletteColor (number : Nat) : RealColor :=
  palette[number % 16]

/-- A cell of the text mode: the character in bits 0 to 7, the number of the
foreground in bits 8 to 11 and of the background in bits 12 to 15. -/
def displayed (value : BitVec 16) : ColoredChar where
  char := .ofNat 8 value.toNat
  back := paletteColor (value.toNat / 4096)
  fore := paletteColor (value.toNat / 256)

theorem attribute_colors (back fore : RealColor) :
    let attributeByte := (back.code <<< 4) ||| (fore.code &&& 0x0F)
    paletteColor (attributeByte.toNat / 16) = back ∧
      paletteColor attributeByte.toNat = fore := by
  cases back <;> cases fore <;> exact ⟨rfl, rfl⟩

/-- A character below 128 in the low byte under an attribute in the high
byte. -/
theorem cell_toNat {c : BitVec 8} (printable : 32 ≤ c.toInt)
    (back fore : RealColor) :
    (cell c back fore).toNat =
      ((back.code <<< 4) ||| (fore.code &&& 0x0F)).toNat * 256 + c.toNat := by
  simp only [cell]
  generalize (back.code <<< 4) ||| (fore.code &&& 0x0F) = attributeByte
  have small : c.toNat < 128 := by
    rw [BitVec.toInt_eq_toNat_cond] at printable
    split at printable <;> omega
  have low : (c.signExtend 16).toNat = c.toNat := by
    rw [BitVec.signExtend_eq_setWidth_of_msb_false
      (BitVec.msb_eq_false_iff_two_mul_lt.mpr (by omega)),
      BitVec.toNat_setWidth, Nat.mod_eq_of_lt (by omega)]
  have high : (attributeByte.setWidth 16 <<< 8).toNat =
      attributeByte.toNat <<< 8 := by
    have byte := attributeByte.isLt
    rw [BitVec.toNat_shiftLeft, BitVec.toNat_setWidth,
      Nat.mod_eq_of_lt (b := 2 ^ 16) (by omega), Nat.shiftLeft_eq,
      Nat.shiftLeft_eq, Nat.mod_eq_of_lt (by omega)]
  rw [BitVec.toNat_or, low, high, Nat.or_comm,
    ← Nat.shiftLeft_add_eq_or_of_lt (show c.toNat < 2 ^ 8 by omega),
    Nat.shiftLeft_eq]

/-- The cell that `console_putc_color` stores shows its character in its
colours. -/
theorem displayed_cell {c : BitVec 8} (printable : 32 ≤ c.toInt)
    (back fore : RealColor) :
    displayed (cell c back fore) = ⟨c, back, fore⟩ := by
  obtain ⟨backShown, foreShown⟩ := attribute_colors back fore
  have byte := c.isLt
  have char : BitVec.ofNat 8 (cell c back fore).toNat = c := by
    rw [cell_toNat printable]
    exact BitVec.eq_of_toNat_eq (by
      rw [BitVec.toNat_ofNat]
      omega)
  have foreNumber : (cell c back fore).toNat / 256 =
      ((back.code <<< 4) ||| (fore.code &&& 0x0F)).toNat := by
    rw [cell_toNat printable]
    omega
  have backNumber : (cell c back fore).toNat / 4096 =
      ((back.code <<< 4) ||| (fore.code &&& 0x0F)).toNat / 16 := by
    rw [cell_toNat printable]
    omega
  simp only [displayed, char, foreNumber, backNumber, backShown, foreShown]

/-! ## The terminal -/

/-- The cursor, and what stands at each line and column. -/
structure Terminal where
  line : Nat
  column : Nat
  cells : Nat → Nat → ColoredChar

namespace Terminal

/-- The first line of the window. -/
def top (t : Terminal) : Nat := t.line - 24

/-- A space, white on black. -/
def space : ColoredChar := ⟨0x20, .black, .white⟩

def clear : Terminal := ⟨0, 0, fun _ _ => space⟩

/-- Column 80 is the beginning of the next line. -/
def moveTo (column : Nat) (t : Terminal) : Terminal :=
  if column < 80 then { t with column := column }
  else { t with line := t.line + 1, column := 0 }

def put (value : ColoredChar) (t : Terminal) : Terminal :=
  { t with
    cells := Function.update t.cells t.line
      (Function.update (t.cells t.line) t.column value) }

/-- One character: BS, TAB, CR, LF or a printable one. -/
def write (c : BitVec 8) (back fore : RealColor) (t : Terminal) : Terminal :=
  if c.toInt = 8 then { t with column := t.column - 1 }
  else if c.toInt = 9 then t.moveTo ((t.column / 8 + 1) * 8)
  else if c.toInt = 13 then { t with column := 0 }
  else if c.toInt = 10 then { t with line := t.line + 1, column := 0 }
  else if 32 ≤ c.toInt then (t.put ⟨c, back, fore⟩).moveTo (t.column + 1)
  else t

end Terminal

/-- The console after a text. -/
def Console.type (text : List ColoredChar) (s : Console) : Console :=
  text.foldl (fun s c => consolePutcColor c.char c.back c.fore s) s

theorem consoleWriteColor_eq_type (cstr : List (BitVec 8))
    (back fore : RealColor) (s : Console) :
    consoleWriteColor cstr back fore s =
      s.type (cstr.map fun c => ⟨c, back, fore⟩) := by
  simp only [consoleWriteColor, Console.type, List.foldl_map]

/-- The terminal after a text. -/
def Terminal.type (text : List ColoredChar) (t : Terminal) : Terminal :=
  text.foldl (fun t c => t.write c.char c.back c.fore) t

/-! ## The simulation -/

theorem displayed_blank : displayed blank = Terminal.space := by
  decide

/-- The console shows the lines from `top` on; its cursor may still be below
the last row. -/
structure ShowsFrom (top : Nat) (s : Console) (t : Terminal) : Prop where
  column : s.cursorX = t.column
  column_lt : t.column < 80
  row : top + s.cursorY = t.line
  row_le : s.cursorY ≤ 25
  scrolled : top = 0 ∨ 24 ≤ s.cursorY
  cells : ∀ row < 25, ∀ column < 80,
    displayed (s.videoMemory.cells (row * 80 + column)) =
      t.cells (top + row) column
  below : ∀ line ≥ top + 25, ∀ column, t.cells line column = Terminal.space
  stores : s.videoMemory.Within 2000

/-- The console shows the window of the terminal. -/
structure Shows (s : Console) (t : Terminal) : Prop
    extends ShowsFrom t.top s t where
  row_lt : s.cursorY < 25

section Simulation

variable {top : Nat} {s : Console} {t : Terminal}

theorem uint8_of_lt {value : Nat} (small : value < 256) :
    uint8 value = value :=
  Nat.mod_eq_of_lt small

/-- `(x + 8) & ~(8 - 1)` is the next tab stop. -/
theorem tab_eq {x : Nat} (inLine : x < 80) :
    (x + 8) &&& 0xFFFFFFF8 = (x / 8 + 1) * 8 := by
  have all : ∀ x < 80, (x + 8) &&& 0xFFFFFFF8 = (x / 8 + 1) * 8 := by decide
  exact all x inLine

/-- `if (cursor_x >= 80)` moves both cursors to the next line. -/
theorem ShowsFrom.wrapLine (shows : ShowsFrom top s t) (column : Nat)
    (row : s.cursorY ≤ 24) :
    ShowsFrom top { s with cursorX := column }.wrapLine (t.moveTo column) := by
  unfold Console.wrapLine Terminal.moveTo
  by_cases inLine : column < 80
  · rw [if_pos inLine, if_neg (by simpa using inLine)]
    exact { shows with column := rfl, column_lt := inLine }
  · have nextRow : uint8 (s.cursorY + 1) = s.cursorY + 1 :=
      uint8_of_lt (by omega)
    have rowEq := shows.row
    rw [if_neg inLine, if_pos (by simpa using inLine)]
    exact {
      shows with
      column := rfl
      column_lt := show 0 < 80 by decide
      row := by
        simp only [nextRow]
        omega
      row_le := by
        simp only [nextRow]
        omega
      scrolled := by
        have scrolled := shows.scrolled
        simp only [nextRow]
        omega }

/-- A printable character goes to the same place in both. -/
theorem ShowsFrom.put (shows : ShowsFrom top s t) (row : s.cursorY ≤ 24)
    (value : BitVec 16) :
    ShowsFrom top { s with
      videoMemory :=
        s.videoMemory.store (s.cursorY * 80 + s.cursorX) value }
      (t.put (displayed value)) := by
  have rowEq := shows.row
  have columnEq := shows.column
  have columnLt := shows.column_lt
  refine { shows with cells := ?_, below := ?_, stores := ?_ }
  · intro other otherLt column inLine
    simp only [Recorded.store, Terminal.put]
    by_cases sameRow : other = s.cursorY
    · subst sameRow
      rw [rowEq, Function.update_self]
      by_cases sameColumn : column = t.column
      · subst sameColumn
        rw [columnEq, Function.update_self, Function.update_self]
      · rw [Function.update_of_ne sameColumn,
          Function.update_of_ne (by omega), ← rowEq]
        exact shows.cells _ otherLt column inLine
    · rw [Function.update_of_ne (by omega), Function.update_of_ne (by omega)]
      exact shows.cells other otherLt column inLine
  · intro line lower column
    simp only [Terminal.put]
    rw [Function.update_of_ne (by omega)]
    exact shows.below line lower column
  · exact shows.stores.store (by omega) value

/-- The character itself, up to the move to the next line. -/
theorem ShowsFrom.typeChar (shows : ShowsFrom top s t) (row : s.cursorY ≤ 24)
    (c : BitVec 8) (back fore : RealColor) :
    ShowsFrom top (s.typeChar c back fore).wrapLine (t.write c back fore) := by
  have columnEq := shows.column
  have columnLt := shows.column_lt
  have moved : ∀ column < 80,
      ShowsFrom top { s with cursorX := column }.wrapLine
        { t with column := column } := by
    intro column inLine
    have wrapped := shows.wrapLine column row
    rwa [Terminal.moveTo, if_pos inLine] at wrapped
  have stays : ShowsFrom top s.wrapLine t := by
    rwa [Console.wrapLine, if_neg (by omega)]
  unfold Console.typeChar Terminal.write
  by_cases backspace : c.toInt = 8
  · rw [if_pos backspace]
    by_cases start : s.cursorX = 0
    · have other : ∀ code : Int, code ≠ 8 → c.toInt ≠ code := by omega
      have same : t.column - 1 = t.column := by omega
      rw [if_neg (by simp [start]), if_neg (other _ (by decide)),
        if_neg (other _ (by decide)), if_neg (other _ (by decide)),
        if_neg (by omega), same]
      exact stays
    · rw [if_pos ⟨backspace, start⟩, columnEq, uint8_of_lt (by omega)]
      exact moved _ (by omega)
  rw [if_neg (by simp [backspace]), if_neg backspace]
  by_cases tab : c.toInt = 9
  · rw [if_pos tab, if_pos tab, columnEq, tab_eq columnLt,
      uint8_of_lt (by omega)]
    exact shows.wrapLine _ row
  rw [if_neg tab, if_neg tab]
  by_cases carriageReturn : c.toInt = 13
  · rw [if_pos carriageReturn, if_pos carriageReturn]
    exact moved 0 (by decide)
  rw [if_neg carriageReturn, if_neg carriageReturn]
  by_cases lineFeed : c.toInt = 10
  · rw [if_pos lineFeed, if_pos lineFeed]
    exact shows.wrapLine 80 row
  rw [if_neg lineFeed, if_neg lineFeed]
  by_cases printable : 32 ≤ c.toInt
  · rw [if_pos printable, if_pos printable, columnEq, uint8_of_lt (by omega)]
    have written := shows.put row (cell c back fore)
    rw [columnEq, displayed_cell printable] at written
    exact written.wrapLine _ row
  · rw [if_neg printable, if_neg printable]
    exact stays

theorem ShowsFrom.scroll (shows : ShowsFrom top s t) : Shows s.scroll t := by
  have rowEq := shows.row
  have rowLe := shows.row_le
  have scrolled := shows.scrolled
  unfold Console.scroll
  by_cases out : 25 ≤ s.cursorY
  · have topEq : t.top = top + 1 := by
      unfold Terminal.top
      omega
    rw [if_pos out]
    have shifted : ∀ row < 25, ∀ column < 80,
        displayed (((s.videoMemory.copyDown 80 (24 * 80)).fillFrom blank
          (24 * 80) 80).cells (row * 80 + column)) =
            t.cells (t.top + row) column := by
      intro row rowLt column inLine
      simp only [Recorded.fillFrom_cells,
        Recorded.copyDown_cells _ (show 0 < 80 by decide)]
      by_cases last : row = 24
      · rw [if_pos (by omega), shows.below (t.top + row) (by omega) column,
          displayed_blank]
      · have next : top + (row + 1) = t.top + row := by omega
        rw [if_neg (by omega), if_pos (by omega),
          show row * 80 + column + 80 = (row + 1) * 80 + column by omega,
          shows.cells (row + 1) (by omega) column inLine, next]
    exact {
      shows with
      row := show t.top + 24 = t.line by omega
      row_le := show 24 ≤ 25 by decide
      scrolled := .inr (Nat.le_refl 24)
      cells := shifted
      below := fun line lower => shows.below line (by omega)
      stores :=
        (shows.stores.copyDown 80 (by decide)).fillFrom blank (by decide)
      row_lt := show 24 < 25 by decide }
  · have topEq : top = t.top := by
      unfold Terminal.top
      omega
    rw [if_neg out]
    subst topEq
    exact ⟨shows, by omega⟩

theorem Shows.moveCursor (shows : Shows s t) : Shows s.moveCursor t :=
  { shows with }

theorem Shows.consolePutcColor (shows : Shows s t) (c : BitVec 8)
    (back fore : RealColor) :
    Shows (consolePutcColor c back fore s) (t.write c back fore) := by
  have row := shows.row_lt
  exact ((shows.typeChar (by omega) c back fore).scroll).moveCursor

theorem Shows.type (shows : Shows s t) (text : List ColoredChar) :
    Shows (s.type text) (t.type text) := by
  induction text generalizing s t with
  | nil => exact shows
  | cons c text induction =>
      exact induction (shows.consolePutcColor c.char c.back c.fore)

theorem consoleClear_videoMemory :
    (consoleClear s).videoMemory =
      s.videoMemory.fillFrom blank 0 (80 * 25) := by
  simp only [consoleClear, Console.moveCursor, Console.outb]

theorem Shows.consoleWriteColor (shows : Shows s t) (cstr : List (BitVec 8))
    (back fore : RealColor) :
    Shows (consoleWriteColor cstr back fore s)
      (t.type (cstr.map fun c => ⟨c, back, fore⟩)) := by
  rw [consoleWriteColor_eq_type]
  exact shows.type _

/-- `console_clear` starts the terminal. -/
theorem consoleClear_shows (start : s.videoMemory.stores = []) :
    Shows (consoleClear s) .clear := by
  have untouched : s.videoMemory.Within 2000 := by
    simp [Recorded.Within, start]
  exact {
    column := rfl
    column_lt := show 0 < 80 by decide
    row := rfl
    row_le := show 0 ≤ 25 by decide
    scrolled := .inl rfl
    cells := by
      intro row rowLt column inLine
      rw [consoleClear_videoMemory, Recorded.fillFrom_cells,
        if_pos (by omega), displayed_blank]
      rfl
    below := fun _ _ _ => rfl
    stores := by
      rw [consoleClear_videoMemory]
      exact untouched.fillFrom blank (by decide)
    row_lt := show 0 < 25 by decide }

end Simulation

/-- Whatever is written after `console_clear`, the cells show the window of the
terminal that ends with the cursor's line, and no store leaves the screen. -/
theorem console_window (s : Console) (text : List ColoredChar) :
    let shown := (consoleClear
      { s with videoMemory := ⟨s.videoMemory.cells, []⟩ }).type text
    let terminal := Terminal.clear.type text
    shown.cursorX < 80 ∧ shown.cursorY < 25 ∧
      (∀ index ∈ shown.videoMemory.stores, index < 80 * 25) ∧
      (∀ row < 25, ∀ column < 80,
        displayed (shown.videoMemory.cells (row * 80 + column)) =
          terminal.cells (terminal.line - 24 + row) column) ∧
      shown.cursorX = terminal.column ∧
      terminal.line - 24 + shown.cursorY = terminal.line := by
  intro shown terminal
  have shows : Shows shown terminal := (consoleClear_shows rfl).type text
  have inLine : shown.cursorX < 80 := shows.column ▸ shows.column_lt
  exact ⟨inLine, shows.row_lt, shows.stores, shows.cells, shows.column,
    shows.row⟩

end MiniOS
