import Mathlib.Data.List.FinRange
import Mathlib.Logic.Function.Basic

/-!
# The 8259A interrupt controller

Two chips in cascade on a PC: edge-triggered requests, fixed priorities, fully
nested mode.  A command byte goes to the even port of a chip, a data byte to
the odd one.  Rotating priorities, the status reads of OCW3 and level-triggered
requests are left out: a byte that asks for them is refused.
-/

namespace Pic8259

/-! ## Request lines -/

/-- A bit for each of the eight lines of a chip. -/
abbrev Lines := Fin 8 → Bool

def noLines : Lines := fun _ => false

/-- The line of highest priority. -/
def highest (lines : Lines) : Option (Fin 8) :=
  (List.finRange 8).find? lines

def AtMostOne (lines : Lines) : Prop :=
  ∃ i, ∀ j, lines j = true → j = i

theorem highest_some {lines : Lines} {i : Fin 8}
    (found : highest lines = some i) : lines i = true :=
  List.find?_some found

theorem highest_none {lines : Lines} (missing : highest lines = none) :
    lines = noLines := by
  funext i
  have clear := List.find?_eq_none.mp missing i (List.mem_finRange i)
  simpa [noLines] using clear

theorem exists_highest {lines : Lines} {i : Fin 8} (set : lines i = true) :
    ∃ j, highest lines = some j := by
  cases found : highest lines with
  | none => simp [highest_none found, noLines] at set
  | some j => exact ⟨j, rfl⟩

@[simp] theorem highest_noLines : highest noLines = none := by decide

/-! ## One chip -/

/-- Which byte of the initialization the odd port expects. -/
inductive Stage where
  | icw2 | icw3 | icw4
  /-- Operation commands. -/
  | ready
  deriving DecidableEq, Repr

structure Chip where
  stage : Stage
  single : Bool
  withIcw4 : Bool
  vectorBase : BitVec 8
  cascade : BitVec 8
  mode8086 : Bool
  autoEoi : Bool
  /-- Interrupt request register. -/
  irr : Lines
  /-- In-service register. -/
  isr : Lines
  /-- Interrupt mask register. -/
  imr : Lines

namespace Chip

/-- Non-specific end of interrupt. -/
def endOfInterrupt (chip : Chip) : Chip :=
  match highest chip.isr with
  | none => chip
  | some i => { chip with isr := Function.update chip.isr i false }

/-- ICW1: edge detection and mask start anew. -/
def icw1 (byte : BitVec 8) (chip : Chip) : Chip := { chip with
  stage := .icw2
  single := byte.getLsbD 1
  withIcw4 := byte.getLsbD 0
  mode8086 := chip.mode8086 && byte.getLsbD 0
  autoEoi := chip.autoEoi && byte.getLsbD 0
  irr := noLines
  imr := noLines }

/-- A byte for the even port. -/
def command (byte : BitVec 8) (chip : Chip) : Option Chip :=
  if byte.getLsbD 4 then
    if byte.getLsbD 3 then none else some (chip.icw1 byte)
  else if byte.getLsbD 3 then none
  else if byte.extractLsb' 5 3 = 1 then some chip.endOfInterrupt
  else none

def afterIcw3 (chip : Chip) : Stage := if chip.withIcw4 then .icw4 else .ready

/-- A byte for the odd port. -/
def data (byte : BitVec 8) (chip : Chip) : Chip :=
  match chip.stage with
  | .icw2 => { chip with
      vectorBase := byte &&& 0xF8
      stage := if chip.single then chip.afterIcw3 else .icw3 }
  | .icw3 => { chip with cascade := byte, stage := chip.afterIcw3 }
  | .icw4 => { chip with
      mode8086 := byte.getLsbD 0
      autoEoi := byte.getLsbD 1
      stage := .ready }
  | .ready => { chip with imr := fun i => byte.getLsbD i }

/-- The requests that neither the mask nor an interrupt in service of the same
or a higher priority holds back. -/
def eligible (requests : Lines) (chip : Chip) : Lines := fun i =>
  requests i && !chip.imr i &&
    (List.finRange 8).all fun j => !(chip.isr j && j ≤ i)

/-- The request that the chip presents. -/
def request (requests : Lines) (chip : Chip) : Option (Fin 8) :=
  if chip.stage = .ready then highest (chip.eligible requests) else none

def acknowledge (i : Fin 8) (chip : Chip) : Chip := { chip with
  irr := Function.update chip.irr i false
  isr := if chip.autoEoi then chip.isr
    else Function.update chip.isr i true }

def vector (i : Fin 8) (chip : Chip) : BitVec 8 :=
  chip.vectorBase + BitVec.ofNat 8 i

variable {chip : Chip}

theorem endOfInterrupt_isr (one : AtMostOne chip.isr) :
    chip.endOfInterrupt.isr = noLines := by
  obtain ⟨i, only⟩ := one
  unfold endOfInterrupt
  split
  · rename_i missing
    exact highest_none missing
  · rename_i j found
    have same := only j (highest_some found)
    funext k
    by_cases last : k = j
    · simp [last, noLines]
    · have clear : chip.isr k = false := by
        by_contra set
        exact last ((only k (by simpa using set)).trans same.symm)
      simp [Function.update_of_ne last, clear, noLines]

theorem endOfInterrupt_eq (chip : Chip) :
    chip.endOfInterrupt = { chip with isr := chip.endOfInterrupt.isr } := by
  unfold endOfInterrupt
  cases highest chip.isr <;> rfl

theorem eligible_of_idle {requests : Lines} (mask : chip.imr = noLines)
    (idle : chip.isr = noLines) : chip.eligible requests = requests := by
  funext i
  simp [eligible, mask, idle, noLines]

theorem request_of_idle {requests : Lines} (ready : chip.stage = .ready)
    (mask : chip.imr = noLines) (idle : chip.isr = noLines) :
    chip.request requests = highest requests := by
  rw [request, if_pos ready, eligible_of_idle mask idle]

theorem request_some {requests : Lines} {i : Fin 8}
    (found : chip.request requests = some i) :
    requests i = true ∧ chip.imr i = false := by
  unfold request at found
  split at found
  · have set := highest_some found
    simp only [eligible, Bool.and_eq_true, Bool.not_eq_true'] at set
    exact set.1
  · cases found

end Chip

/-- Ready, with these registers, no mask and explicit ends of interrupts. -/
structure Chip.Programmed (vectorBase cascade : BitVec 8) (chip : Chip) :
    Prop where
  ready : chip.stage = .ready
  base : chip.vectorBase = vectorBase
  cascade : chip.cascade = cascade
  autoEoi : chip.autoEoi = false
  mask : chip.imr = noLines

/-- Requests and interrupts in service are not part of it. -/
theorem Chip.Programmed.setLines {vectorBase cascade : BitVec 8} {chip : Chip}
    (programmed : chip.Programmed vectorBase cascade) (irr isr : Lines) :
    Chip.Programmed vectorBase cascade { chip with irr := irr, isr := isr } :=
  ⟨programmed.ready, programmed.base, programmed.cascade, programmed.autoEoi,
    programmed.mask⟩

theorem Chip.Programmed.endOfInterrupt {vectorBase cascade : BitVec 8}
    {chip : Chip} (programmed : chip.Programmed vectorBase cascade) :
    chip.endOfInterrupt.Programmed vectorBase cascade := by
  rw [chip.endOfInterrupt_eq]
  exact programmed.setLines _ _

/-! ## Two chips -/

/-- The request output of the slave is line 2 of the master. -/
structure Pair where
  master : Chip
  slave : Chip

/-- A line that a device can drive. -/
inductive Line where
  | master (i : Fin 8)
  | slave (i : Fin 8)
  deriving DecidableEq, Repr

/-- The line of the master that carries the slave. -/
abbrev cascadeLine : Fin 8 := 2

namespace Pair

variable (pair : Pair)

def irr : Line → Bool
  | .master i => pair.master.irr i
  | .slave i => pair.slave.irr i

def setIrr (value : Bool) : Line → Pair
  | .master i => { pair with
      master.irr := Function.update pair.master.irr i value }
  | .slave i => { pair with
      slave.irr := Function.update pair.slave.irr i value }

/-- The slave drops its output at every acknowledgement, so that a further
request of its own is a new edge. -/
def masterRequests : Lines := fun i =>
  if i = cascadeLine then (pair.slave.request pair.slave.irr).isSome
  else pair.master.irr i

/-- The line for which the processor would get a vector now. -/
def pending : Option Line :=
  match pair.master.request pair.masterRequests with
  | none => none
  | some i =>
      if i = cascadeLine ∧ pair.master.cascade.getLsbD i then
        if pair.slave.cascade.extractLsb' 0 3 = 2 then
          (pair.slave.request pair.slave.irr).map .slave
        else none
      else some (.master i)

/-- The two pulses of INTA. -/
def acknowledge : Line → Pair
  | .master i => { pair with master := pair.master.acknowledge i }
  | .slave i =>
      ⟨pair.master.acknowledge cascadeLine, pair.slave.acknowledge i⟩

/-- The request of the slave is gone between the two pulses. -/
def acknowledgeSpuriousSlave : Pair :=
  { pair with master := pair.master.acknowledge cascadeLine }

def vector : Line → BitVec 8
  | .master i => pair.master.vector i
  | .slave i => pair.slave.vector i

theorem setIrr_irr (value : Bool) (line other : Line) :
    (pair.setIrr value line).irr other =
      if other = line then value else pair.irr other := by
  cases line <;> cases other <;>
    simp [Pair.setIrr, Pair.irr, Function.update_apply]

/-- Only the request that is acknowledged is taken. -/
theorem acknowledge_irr {pair : Pair}
    (cascade : pair.master.irr cascadeLine = false) (line other : Line) :
    (pair.acknowledge line).irr other =
      if other = line then false else pair.irr other := by
  have unchanged :
      Function.update pair.master.irr cascadeLine false = pair.master.irr :=
    Function.update_eq_self_iff.mpr cascade.symm
  cases line <;> cases other <;>
    simp [Pair.acknowledge, Pair.irr, Chip.acknowledge, Function.update_apply,
      unchanged]

theorem pending_slave {j : Fin 8} {pair : Pair}
    (pending : pair.pending = some (.slave j)) : pair.slave.irr j = true := by
  unfold Pair.pending at pending
  split at pending
  · cases pending
  · split at pending
    · split at pending
      · obtain ⟨i, found, same⟩ := Option.map_eq_some_iff.mp pending
        cases same
        exact (Chip.request_some found).1
      · cases pending
    · cases pending

theorem pending_master {i : Fin 8} {pair : Pair}
    (wired : pair.master.cascade.getLsbD cascadeLine = true)
    (pending : pair.pending = some (.master i)) :
    i ≠ cascadeLine ∧ pair.master.irr i = true := by
  unfold Pair.pending at pending
  split at pending
  · cases pending
  · rename_i k found
    split at pending
    · split at pending
      · simp at pending
      · cases pending
    · rename_i other
      cases pending
      have different : i ≠ cascadeLine := by
        rintro rfl
        exact other ⟨rfl, wired⟩
      have set := (Chip.request_some found).1
      rw [masterRequests, if_neg different] at set
      exact ⟨different, set⟩

/-- With no mask and nothing in service some request gets through. -/
theorem exists_pending {pair : Pair} {base base' : BitVec 8}
    (master : pair.master.Programmed base 0x04)
    (slave : pair.slave.Programmed base' 0x02)
    (masterIdle : pair.master.isr = noLines)
    (slaveIdle : pair.slave.isr = noLines) {line : Line}
    (device : line ≠ .master cascadeLine) (set : pair.irr line = true) :
    ∃ first, pair.pending = some first := by
  have requests : ∃ i, pair.masterRequests i = true := by
    cases line with
    | master i =>
        have different : i ≠ cascadeLine := fun same => device (same ▸ rfl)
        exact ⟨i, (if_neg different).trans set⟩
    | slave j =>
        obtain ⟨k, found⟩ := exists_highest set
        refine ⟨cascadeLine, (if_pos rfl).trans ?_⟩
        rw [Chip.request_of_idle slave.ready slave.mask slaveIdle, found]
        rfl
  obtain ⟨i, set⟩ := requests
  obtain ⟨k, found⟩ := exists_highest set
  rw [Pair.pending, Chip.request_of_idle master.ready master.mask masterIdle,
    found]
  by_cases cascade : k = cascadeLine
  · have asked := highest_some found
    rw [masterRequests, if_pos cascade] at asked
    obtain ⟨j, request⟩ := Option.isSome_iff_exists.mp asked
    refine ⟨.slave j, ?_⟩
    simp only [cascade, master.cascade, slave.cascade, request]
    rw [if_pos ⟨trivial, by decide⟩, if_pos (by decide), Option.map_some]
  · exact ⟨.master k, by simp [cascade]⟩

end Pair

end Pic8259
