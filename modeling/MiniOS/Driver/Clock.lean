import MiniOS.Lib.Pit8254
import MiniOS.Trap.Interrupts

/-!
# The timer (`clock.c`)

`init_timer` asks for so many ticks a second.  The counter divides its input
clock by a whole number below 65536, so only some rates can be had.
-/

namespace MiniOS

open Pit8254

/-! ## `clock.c` -/

def timerOutb (port : Nat) (byte : BitVec 8) (chip : Chip) : Chip :=
  if port = 0x43 then control byte chip
  else if port = 0x40 then Function.update chip 0 ((chip 0).write byte)
  else if port = 0x41 then Function.update chip 1 ((chip 1).write byte)
  else if port = 0x42 then Function.update chip 2 ((chip 2).write byte)
  else chip

theorem timerOutb_counter (byte : BitVec 8) (chip : Chip) :
    timerOutb 0x40 byte chip =
      Function.update chip 0 ((chip 0).write byte) := rfl

def timerOutbs (writes : PortWrites) (chip : Chip) : Chip :=
  writes.foldl (fun chip (port, byte) => timerOutb port byte chip) chip

def inputRate : Nat := 1193182

/-- `uint32_t divisor`; `none` is the divide error. -/
def timerDivisor (frequency : BitVec 32) : Option (BitVec 32) :=
  if frequency = 0 then none
  else some ((BitVec.ofNat 32 inputRate + frequency / 2) / frequency)

/-- `void init_timer(uint32_t frequency)` -/
def initTimer (timerCallback : X86.Word) (frequency : BitVec 32)
    (interruptHandlers : InterruptHandlers) (chip : Chip) :
    Option (InterruptHandlers × Chip) := do
  let interruptHandlers :=
    registerInterruptHandler 32 timerCallback interruptHandlers
  let divisor ← timerDivisor frequency
  return (interruptHandlers, timerOutbs [
    (0x43, 0x36),
    (0x40, (divisor % 256).setWidth 8),
    (0x40, (divisor / 256).setWidth 8)] chip)

/-! ## The rate -/

/-- How far `period` clocks are from `1 / frequency` seconds, as a multiple of
`1 / frequency` clocks. -/
def periodError (frequency period : Nat) : Nat :=
  ((period * frequency : Nat) - (inputRate : Int)).natAbs

/-- No other number of clocks comes closer to the length of a tick. -/
def NearestPeriod (frequency period : Nat) : Prop :=
  ∀ other, periodError frequency period ≤ periodError frequency other

theorem nearestPeriod_iff_half {frequency : Nat} (positive : 0 < frequency)
    (period : Nat) :
    NearestPeriod frequency period ↔
      2 * periodError frequency period ≤ frequency := by
  constructor
  · intro nearest
    have next := nearest (period + 1)
    have previous := nearest (period - 1)
    cases period with
    | zero =>
        simp only [periodError, Nat.add_mul, Nat.one_mul, Nat.zero_mul] at *
        omega
    | succ fewer =>
        simp only [periodError, Nat.add_mul, Nat.one_mul,
          Nat.add_sub_cancel] at *
        omega
  · intro half other
    rcases Nat.lt_trichotomy other period with below | rfl | above
    · have apart := Nat.mul_le_mul_right frequency (Nat.succ_le_of_lt below)
      rw [Nat.succ_mul] at apart
      simp only [periodError] at *
      omega
    · exact Nat.le_refl _
    · have apart := Nat.mul_le_mul_right frequency (Nat.succ_le_of_lt above)
      rw [Nat.succ_mul] at apart
      simp only [periodError] at *
      omega

/-- The period that two bytes of the divisor make. -/
def periodOf (divisor : Nat) : Nat :=
  if divisor % 65536 = 0 then 65536 else divisor % 65536

section Rate

variable {frequency : BitVec 32}

theorem timerDivisor_eq (nonzero : frequency ≠ 0) :
    ∃ divisor, timerDivisor frequency = some divisor ∧ divisor.toNat =
      (inputRate + frequency.toNat / 2) / frequency.toNat := by
  have bound := frequency.isLt
  refine ⟨_, if_neg nonzero, ?_⟩
  have sum : (BitVec.ofNat 32 inputRate + frequency / 2).toNat =
      inputRate + frequency.toNat / 2 := by
    have two : (2 : BitVec 32).toNat = 2 := rfl
    rw [BitVec.toNat_add, BitVec.toNat_udiv, BitVec.toNat_ofNat, two,
      inputRate]
    omega
  rw [BitVec.toNat_udiv, sum]

theorem nearestPeriod_quotient {frequency : Nat} (positive : 0 < frequency) :
    NearestPeriod frequency
      ((inputRate + frequency / 2) / frequency) := by
  have split := Nat.div_add_mod (inputRate + frequency / 2) frequency
  have small := Nat.mod_lt (inputRate + frequency / 2) positive
  rw [Nat.mul_comm] at split
  rw [nearestPeriod_iff_half positive, periodError]
  omega

/-- The two bytes of the divisor lose what is above 16 bits. -/
theorem bytes_toNat (divisor : BitVec 32) :
    ((divisor / 256).setWidth 8 ++ (divisor % 256).setWidth 8 :
      BitVec 16).toNat = divisor.toNat % 65536 := by
  have base : (256 : BitVec 32).toNat = 256 := rfl
  rw [BitVec.toNat_append, ← Nat.shiftLeft_add_eq_or_of_lt (BitVec.isLt _),
    BitVec.toNat_setWidth, BitVec.toNat_setWidth, BitVec.toNat_udiv,
    BitVec.toNat_umod, base, Nat.shiftLeft_eq]
  omega

/-- After its three writes the counter runs with the divisor, cut to 16 bits. -/
theorem timerOutbs_period (divisor : BitVec 32) (chip : Chip) :
    let chip' := timerOutbs [
      (0x43, 0x36),
      (0x40, (divisor % 256).setWidth 8),
      (0x40, (divisor / 256).setWidth 8)] chip
    (chip' 0).period = some (periodOf divisor.toNat) ∧ (chip' 0).mode = 3 ∧
      ∀ i ≠ 0, chip' i = chip i := by
  intro chip'
  have programmed : chip' = Function.update chip 0
      (((Counter.program 0x36 .both).write
        ((divisor % 256).setWidth 8)).write
          ((divisor / 256).setWidth 8)) := by
    have word : timerOutb 0x43 0x36 chip =
        Function.update chip 0 (.program 0x36 .both) := rfl
    change timerOutb 0x40 _ (timerOutb 0x40 _ (timerOutb 0x43 0x36 chip)) = _
    rw [word, timerOutb_counter, timerOutb_counter, Function.update_self,
      Function.update_self, Function.update_idem, Function.update_idem]
  rw [programmed]
  refine ⟨?_, ?_, fun i other => Function.update_of_ne other _ _⟩
  · rw [Function.update_self, Counter.period_write_both rfl rfl rfl,
      periodOf, ← bytes_toNat]
    have zero : ((divisor / 256).setWidth 8 ++ (divisor % 256).setWidth 8 :
        BitVec 16) = 0#16 ↔ ((divisor / 256).setWidth 8 ++
          (divisor % 256).setWidth 8 : BitVec 16).toNat = 0 := by
      rw [← BitVec.toNat_inj]
      rfl
    simp only [zero]
  · rw [Function.update_self]
    rfl

/-- A divisor that is cut, or is zero, gives a wrong rate. -/
theorem nearestPeriod_iff {frequency : Nat} (positive : 0 < frequency) :
    NearestPeriod frequency
        (periodOf ((inputRate + frequency / 2) / frequency)) ↔
      19 ≤ frequency ∧ frequency ≤ 2 * inputRate := by
  constructor
  · intro nearest
    by_contra outside
    rcases Nat.lt_or_ge frequency 19 with slow | fast
    · -- the divisor does not fit in 16 bits
      have wrong : ∀ frequency < 19, 0 < frequency →
          frequency < 2 * periodError frequency
            (periodOf ((inputRate + frequency / 2) / frequency)) := by
        decide
      exact Nat.not_lt.mpr ((nearestPeriod_iff_half positive _).mp nearest)
        (wrong frequency slow positive)
    · -- the divisor is zero, and the counter takes the largest count
      have zero : (inputRate + frequency / 2) / frequency = 0 := by
        apply Nat.div_eq_of_lt
        omega
      have largest : periodOf 0 = 65536 := rfl
      rw [zero, largest, nearestPeriod_iff_half positive, periodError]
        at nearest
      simp only [inputRate] at *
      omega
  · intro ⟨lower, upper⟩
    have whole : 1 ≤ (inputRate + frequency / 2) / frequency :=
      (Nat.le_div_iff_mul_le positive).mpr (by omega)
    have cut : (inputRate + frequency / 2) / frequency < 65536 := by
      rw [Nat.div_lt_iff_lt_mul positive]
      simp only [inputRate] at *
      omega
    rw [periodOf, Nat.mod_eq_of_lt cut, if_neg (Nat.ne_of_gt whole)]
    exact nearestPeriod_quotient positive

end Rate

/-- `init_timer` registers the handler and programs the divisor, cut to 16
bits; that period is nearest to the length of a tick exactly from 19 Hz to
twice the rate of the clock. -/
theorem initTimer_rate (timerCallback : X86.Word) (frequency : BitVec 32)
    (interruptHandlers : InterruptHandlers) (chip : Chip)
    (nonzero : frequency ≠ 0) :
    ∃ chip' period,
      initTimer timerCallback frequency interruptHandlers chip = some
        (Function.update interruptHandlers 32 timerCallback, chip') ∧
      (chip' 0).mode = 3 ∧ (chip' 0).period = some period ∧
      period = periodOf
        ((inputRate + frequency.toNat / 2) / frequency.toNat) ∧
      (∀ i ≠ 0, chip' i = chip i) ∧
      (NearestPeriod frequency.toNat period ↔
        19 ≤ frequency.toNat ∧ frequency.toNat ≤ 2 * inputRate) := by
  obtain ⟨divisor, divided, value⟩ := timerDivisor_eq nonzero
  obtain ⟨period, mode, others⟩ := timerOutbs_period divisor chip
  have positive : 0 < frequency.toNat :=
    Nat.pos_of_ne_zero fun zero => nonzero (BitVec.eq_of_toNat_eq zero)
  rw [value] at period
  refine ⟨_, _, ?_, mode, period, rfl, others, nearestPeriod_iff positive⟩
  simp only [initTimer, divided]
  rfl

/-- `kern_init` asks for 100 Hz. -/
theorem initTimer_rate_kernInit :
    ∃ chip', initTimer 0xC0100700 100 initHandlers
        (fun _ => .program 0 .low) =
          some (Function.update initHandlers 32 0xC0100700, chip') ∧
      (chip' 0).period = some 11932 ∧ NearestPeriod 100 11932 := by
  obtain ⟨chip', period, started, _, runs, rfl, _, nearest⟩ := initTimer_rate
    0xC0100700 100 initHandlers (fun _ => .program 0 .low) (by decide)
  exact ⟨chip', started, runs, nearest.mpr (by decide)⟩

end MiniOS
