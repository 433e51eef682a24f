import Mathlib.Logic.Function.Basic

/-!
# The 8254 interval timer

Three counters, each programmed by a control word and the bytes of a count.
Reading a counter back is left out: the control words that ask for it change
nothing here.
-/

namespace Pit8254

/-- The bytes of a count that are written. -/
inductive Access where
  | low | high | both
  deriving DecidableEq, Repr

def Access.ofBits (bits : BitVec 2) : Option Access :=
  if bits = 1 then some .low
  else if bits = 2 then some .high
  else if bits = 3 then some .both
  else none

structure Counter where
  access : Access
  mode : BitVec 3
  bcd : Bool
  /-- The low byte, when the high byte is still to come. -/
  pending : Option (BitVec 8)
  count : Option (BitVec 16)
  deriving DecidableEq, Repr

namespace Counter

/-- A control word makes the counter wait for a count. -/
def program (word : BitVec 8) (access : Access) : Counter where
  access := access
  mode := word.extractLsb' 1 3
  bcd := word.getLsbD 0
  pending := none
  count := none

/-- A byte for the data port. -/
def write (byte : BitVec 8) (counter : Counter) : Counter :=
  match counter.access, counter.pending with
  | .low, _ => { counter with count := some (0#8 ++ byte) }
  | .high, _ => { counter with count := some (byte ++ 0#8) }
  | .both, none => { counter with pending := some byte }
  | .both, some low =>
      { counter with pending := none, count := some (byte ++ low) }

/-- The value of four decimal digits. -/
def decimal (count : BitVec 16) : Nat :=
  (count.extractLsb' 12 4).toNat * 1000 + (count.extractLsb' 8 4).toNat * 100 +
    (count.extractLsb' 4 4).toNat * 10 + (count.extractLsb' 0 4).toNat

/-- Clocks from one pulse to the next; zero stands for the largest count. -/
def period (counter : Counter) : Option Nat :=
  counter.count.map fun count =>
    if counter.bcd then if count = 0 then 10000 else decimal count
    else if count = 0 then 65536 else count.toNat

/-- The count written in two bytes, the low one first. -/
theorem period_write_both {counter : Counter} (both : counter.access = .both)
    (binary : counter.bcd = false) (fresh : counter.pending = none)
    (low high : BitVec 8) :
    ((counter.write low).write high).period =
      some (if high ++ low = 0#16 then 65536 else (high ++ low).toNat) := by
  simp [write, period, both, binary, fresh]

end Counter

abbrev Chip := Fin 3 → Counter

/-- A byte for the control port. -/
def control (word : BitVec 8) (chip : Chip) : Chip :=
  let select := (word.extractLsb' 6 2).toNat
  match Access.ofBits (word.extractLsb' 4 2) with
  | some access =>
      if inside : select < 3 then
        Function.update chip ⟨select, inside⟩ (.program word access)
      else chip
  | none => chip

end Pit8254
