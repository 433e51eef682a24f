import MiniOS.Driver.Keymap

/-!
# Key sequences

The sequences of scan codes that a keyboard sends, which modifiers they strike
and what they print: what the decoder is for, said without a decoder.
-/

namespace MiniOS

/-- A well-formed sequence. -/
inductive KeySequence where
  /-- A make code or a break code. -/
  | plain (scanCode : BitVec 8) (single : scanCode ≠ 0xE0 ∧ scanCode ≠ 0xE1)
  | extended (scanCode : BitVec 8)
      (single : scanCode ≠ 0x2A ∧ scanCode ≠ 0xB7)
  | printscreenMake
  | printscreenBreak
  | pausebreak
  deriving DecidableEq

def isMake (scanCode : BitVec 8) : Bool := decide (scanCode &&& 0x80 = 0)

/-- The keys that the decoder keeps a flag for. -/
inductive Modifier where
  | shiftL
  | shiftR
  | ctrlL
  | ctrlR
  | altL
  | altR
  deriving DecidableEq, Repr

namespace Modifier

def scanCode : Modifier → BitVec 8
  | shiftL => 0x2A
  | shiftR => 0x36
  | ctrlL => 0x1D
  | ctrlR => 0x1D
  | altL => 0x38
  | altR => 0x38

def extended : Modifier → Bool
  | shiftL => false
  | shiftR => false
  | ctrlL => false
  | ctrlR => true
  | altL => false
  | altR => true

def key : Modifier → Key
  | shiftL => Key.shiftL
  | shiftR => Key.shiftR
  | ctrlL => Key.ctrlL
  | ctrlR => Key.ctrlR
  | altL => Key.altL
  | altR => Key.altR

/-- Whether a scan code, after 0xE0 or not, is the make code or the break code
of the key. -/
def struckBy (m : Modifier) (extended : Bool) (scanCode : BitVec 8) :
    Option Bool :=
  if m.extended = extended ∧ scanCode &&& 0x7F = m.scanCode then
    some (isMake scanCode)
  else none

def strike (m : Modifier) : KeySequence → Option Bool
  | .plain scanCode _ => m.struckBy false scanCode
  | .extended scanCode _ => m.struckBy true scanCode
  | .printscreenMake => none
  | .printscreenBreak => none
  | .pausebreak => none

/-- Whether the latest code of the key was a make code. -/
def held (m : Modifier) (sequences : List KeySequence) : Bool :=
  (sequences.filterMap m.strike).getLast?.getD false

@[simp] theorem held_nil (m : Modifier) : m.held [] = false := rfl

theorem held_concat (m : Modifier) (before : List KeySequence)
    (sequence : KeySequence) :
    m.held (before ++ [sequence]) =
      (m.strike sequence).getD (m.held before) := by
  cases strike : m.strike sequence <;>
    simp [held, List.filterMap_append, strike]

end Modifier

namespace KeySequence

def bytes : KeySequence → List (BitVec 8)
  | plain scanCode _ => [scanCode]
  | extended scanCode _ => [0xE0, scanCode]
  | printscreenMake => [0xE0, 0x2A, 0xE0, 0x37]
  | printscreenBreak => [0xE0, 0xB7, 0xE0, 0xAA]
  | pausebreak => [0xE1, 0x1D, 0x45, 0xE1, 0x9D, 0xC5]

/-- What a sequence prints: the character of a plain make code. -/
def prints (shifted : Bool) : KeySequence → List (BitVec 8)
  | plain scanCode _ =>
      let key := keyAt scanCode (if shifted then 1 else 0)
      if isMake scanCode ∧ key ≠ 0 ∧ key &&& Key.flagExt = 0 then
        [key.setWidth 8]
      else []
  | extended _ _ => []
  | printscreenMake => []
  | printscreenBreak => []
  | pausebreak => []

/-- What sequences print after others. -/
def printsFrom (before : List KeySequence) :
    List KeySequence → List (BitVec 8)
  | [] => []
  | sequence :: rest =>
      sequence.prints
          (Modifier.shiftL.held before || Modifier.shiftR.held before) ++
        printsFrom (before ++ [sequence]) rest

theorem printsFrom_concat (before sequences : List KeySequence)
    (sequence : KeySequence) :
    printsFrom before (sequences ++ [sequence]) =
      printsFrom before sequences ++
        sequence.prints
          (Modifier.shiftL.held (before ++ sequences) ||
            Modifier.shiftR.held (before ++ sequences)) := by
  induction sequences generalizing before with
  | nil => simp [printsFrom]
  | cons first sequences induction =>
      simp only [List.cons_append, printsFrom, induction, List.append_assoc,
        List.nil_append]

end KeySequence

/-! ## The keymap -/

/-- The last column names the extended keys, the others those that are not. -/
theorem keyAt_modifier (m : Modifier) (scanCode : BitVec 8) {column : Nat}
    (inside : column < 3) :
    keyAt scanCode column = m.key ↔
      (m.extended = decide (column = 2) ∧ scanCode &&& 0x7F = m.scanCode) := by
  have found := keyAt_of_all (fun row column key =>
    decide (key = m.key ↔
      (m.extended = decide (column = 2) ∧ row = m.scanCode.toNat)))
    (by cases m <;> decide +kernel) scanCode inside
  rw [decide_eq_true_eq] at found
  rw [found, BitVec.toNat_inj]

/-- An entry without `FLAG_EXT` is a character, and the last column has
none; no entry holds the flag of a modifier. -/
theorem keyAt_character (scanCode : BitVec 8) {column : Nat}
    (inside : column < 3) :
    (keyAt scanCode column &&& Key.flagExt = 0 →
      (keyAt scanCode column).toNat < 128 ∧
        (column = 2 → keyAt scanCode column = 0)) ∧
      keyAt scanCode column &&& 0x7E00 = 0 := by
  have found := keyAt_of_all (fun _ column key =>
    decide ((key &&& Key.flagExt = 0 →
      key.toNat < 128 ∧ (column = 2 → key = 0)) ∧ key &&& 0x7E00 = 0))
    (by decide +kernel) scanCode inside
  exact of_decide_eq_true found

end MiniOS
