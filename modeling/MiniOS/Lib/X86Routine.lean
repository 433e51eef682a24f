import Mathlib.Data.Set.Function
import Mathlib.Data.Set.Lattice
import Mathlib.Order.CompletePartialOrder
import MiniOS.Lib.X86

/-!
# Routines that move words

What a routine without interrupts needs beside the instructions of a stack
frame: moves between registers and memory, the flags on the stack, and `ret`.
A range of bytes is the set of its addresses, so that what a store leaves
alone is a statement about disjoint sets.
-/

namespace X86

/-! ## Ranges of bytes -/

/-- The `size` addresses from `start` on. -/
def bytes (start : Word) (size : Nat) : Set Word :=
  {x | (x - start).toNat < size}

section Bytes

variable {mem left right : Memory} {start other value : Word} {size : Nat}

theorem bytes_part {offset : Word} {part : Nat}
    (inside : offset.toNat + part ≤ size) :
    bytes (start + offset) part ⊆ bytes start size := by
  intro x member
  simp only [bytes, Set.mem_ofPred_eq] at *
  bv_omega

theorem bytes_front {part : Nat} (shorter : part ≤ size) :
    bytes start part ⊆ bytes start size :=
  fun _ member => Nat.lt_of_lt_of_le member shorter

theorem bytes_apart {offset : Word} {part : Nat}
    (behind : size ≤ offset.toNat)
    (room : offset.toNat + part ≤ 4294967296) :
    Disjoint (bytes start size) (bytes (start + offset) part) := by
  apply Set.disjoint_left.mpr
  intro x member other
  simp only [bytes, Set.mem_ofPred_eq] at *
  bv_omega

theorem load_eqOn (same : Set.EqOn left right (bytes start 4)) :
    load left start = load right start :=
  load_congr fun _ inside => same inside

theorem store_eqOn {kept : Set Word} (apart : Disjoint kept (bytes start 4)) :
    Set.EqOn (store mem start value) mem kept := by
  intro x member
  apply store_outside
  have outside := Set.disjoint_left.mp apart member
  simp only [bytes, Set.mem_ofPred_eq] at outside
  omega

theorem load_store_apart (apart : Disjoint (bytes other 4) (bytes start 4)) :
    load (store mem start value) other = load mem other :=
  load_eqOn (store_eqOn apart)

end Bytes

/-- Words one behind the other. -/
def storeWords (mem : Memory) : Word → List Word → Memory
  | _, [] => mem
  | address, word :: words =>
      storeWords (store mem address word) (address + 4) words

section Words

variable {mem left right : Memory} {address : Word} {words : List Word}

theorem Holds.eqOn (holds : Holds left address words)
    (few : 4 * words.length ≤ 4294967296)
    (same : Set.EqOn right left (bytes address (4 * words.length))) :
    Holds right address words :=
  holds.congr few fun _ inside => same inside

theorem storeWords_eqOn {kept : Set Word}
    (few : 4 * words.length ≤ 4294967296)
    (apart : Disjoint kept (bytes address (4 * words.length))) :
    Set.EqOn (storeWords mem address words) mem kept := by
  induction words generalizing mem address with
  | nil => exact Set.eqOn_refl mem kept
  | cons word words induction =>
      rw [List.length_cons] at few apart
      exact (induction (by omega) (apart.mono_right (bytes_part (by
        simp only [BitVec.reduceToNat]
        omega)))).trans
        (store_eqOn (apart.mono_right (bytes_front (by omega))))

theorem storeWords_holds (few : 4 * words.length ≤ 4294967296) :
    Holds (storeWords mem address words) address words := by
  induction words generalizing mem address with
  | nil => exact trivial
  | cons word words induction =>
      rw [List.length_cons] at few
      refine ⟨?_, induction (by omega)⟩
      have apart : Disjoint (bytes address 4)
          (bytes (address + 4) (4 * words.length)) :=
        bytes_apart (Nat.le_refl 4) (by simp only [BitVec.reduceToNat]; omega)
      rw [storeWords, load_eqOn (storeWords_eqOn (by omega) apart)]
      exact load_store_same

theorem Holds.concat {word : Word} (holds : Holds mem address words)
    (last : load mem (address + BitVec.ofNat 32 (4 * words.length)) = word) :
    Holds mem address (words ++ [word]) :=
  Holds.append.mpr ⟨holds, last, trivial⟩

end Words

/-! ## Flags on the stack -/

/-- `pushf` stores these as zero. -/
abbrev hiddenFlags : Word := resumeFlag ||| virtual8086

/-- VIF and VIP. -/
abbrev virtualInterrupts : Word := 0x180000

/-- `popf` of ring 0 takes these from the stack. -/
abbrev poppedFlags : Word :=
  ~~~(hiddenFlags ||| virtualInterrupts ||| fixedFlags)

/-- The flags after `popf` of a word; RF is cleared. -/
def Eflags.popf (flags : Eflags) (word : Word) : Eflags :=
  flags.assign (poppedFlags ||| resumeFlag) (word &&& ~~~resumeFlag)

theorem Eflags.assign_inside (flags : Eflags) {mask value kept : Word}
    (inside : kept &&& ~~~(mask &&& ~~~fixedFlags) = 0) :
    (flags.assign mask value).bits &&& kept = value &&& kept := by
  change ((value &&& (mask &&& ~~~fixedFlags)) |||
    (flags.bits &&& ~~~(mask &&& ~~~fixedFlags))) &&& kept = value &&& kept
  generalize mask &&& ~~~fixedFlags = mask at inside ⊢
  ext i bound
  have bit := congrArg (fun word : Word => word[i]) inside
  simp only [BitVec.getElem_and, BitVec.getElem_or, BitVec.getElem_not,
    BitVec.ofNat_eq_ofNat, BitVec.getElem_zero] at bit ⊢
  revert bit
  cases mask[i] <;> simp +contextual

theorem Eflags.popf_and (flags : Eflags) (word : Word) :
    (flags.popf word).bits &&& poppedFlags = word &&& poppedFlags := by
  rw [Eflags.popf, Eflags.assign_inside _ (by decide), BitVec.and_assoc]
  congr 1

namespace State

def pushf (s : State) : State := s.push (s.eflags.bits &&& ~~~hiddenFlags)

def popf (s : State) : State :=
  { s.pop.2 with eflags := s.eflags.popf s.pop.1 }

end State

/-! ## Instructions -/

namespace Routine

inductive Move where
  | basic (op : Op)
  /-- `mov r, [base + offset]` -/
  | load (r base : Reg) (offset : Word)
  /-- `mov [base + offset], r` -/
  | store (base : Reg) (offset : Word) (r : Reg)
  | pushf
  | popf
  deriving DecidableEq, Repr

def Move.exec (move : Move) (s : State) : State :=
  match move with
  | .basic op => op.exec s
  | .load r base offset => s.setReg r (X86.load s.mem (s.reg base + offset))
  | .store base offset r =>
      { s with mem := X86.store s.mem (s.reg base + offset) (s.reg r) }
  | .pushf => s.pushf
  | .popf => s.popf

inductive Instr where
  | move (move : Move)
  | ret
  deriving DecidableEq, Repr

instance : InstrSet Instr where
  exec
    | .move move, behind, s => some (behind, move.exec s)
    | .ret, _, s => some s.pop

abbrev Code := CodeOf Instr

/-- A routine that ends with `ret`. -/
theorem ret_steps {code : Code} {address : Word} (moves : List Move)
    (s : State) (loaded : Loaded code address (moves.map Instr.move ++ [.ret])) :
    Steps code (address, s) (runLine Move.exec moves s).pop := by
  obtain ⟨behind, loaded, steps⟩ := loaded.line (fun _ _ _ => rfl) moves s
  obtain ⟨_, -, goes⟩ := loaded.first (runLine Move.exec moves s)
  exact steps.trans (goes _ rfl)

end Routine

end X86
