import Mathlib.Logic.Function.Basic
import Mathlib.Logic.Relation

/-!
# Stack frames of the 32-bit processor

Code of ring 0 on flat segments, as far as the stack is concerned: the
instructions that push, pop and switch segment registers, calls, interrupt
gates and the return from them.  Addresses are words and wrap.  The encoding
of an instruction is left out; of its length only the address of the next
instruction is known.  How code is fetched and runs is the same for every set
of instructions on this state.
-/

namespace X86

abbrev Word := BitVec 32

abbrev Memory := Word → BitVec 8

/-! ## Memory -/

section Memory

def load (mem : Memory) (address : Word) : Word :=
  mem (address + 3) ++ mem (address + 2) ++ mem (address + 1) ++ mem address

def store (mem : Memory) (address value : Word) : Memory := fun x =>
  if (x - address).toNat < 4 then
    value.extractLsb' (8 * (x - address).toNat) 8
  else mem x

/-- The words lie one behind the other from the address on. -/
def Holds (mem : Memory) : Word → List Word → Prop
  | _, [] => True
  | address, word :: words =>
      load mem address = word ∧ Holds mem (address + 4) words

variable {mem left right : Memory} {address other value : Word}

theorem load_congr
    (same : ∀ x, (x - address).toNat < 4 → left x = right x) :
    load left address = load right address := by
  unfold load
  rw [same (address + 3) (by bv_omega), same (address + 2) (by bv_omega),
    same (address + 1) (by bv_omega), same address (by bv_omega)]

theorem store_outside {x : Word} (outside : 4 ≤ (x - address).toNat) :
    store mem address value x = mem x :=
  if_neg (by omega)

theorem load_store_same : load (store mem address value) address = value := by
  have byte : ∀ i : Word, i.toNat < 4 →
      store mem address value (address + i) =
        value.extractLsb' (8 * i.toNat) 8 := by
    intro i inside
    rw [store, BitVec.add_comm, BitVec.add_sub_cancel, if_pos inside]
  have first : store mem address value address = value.extractLsb' 0 8 := by
    simpa using byte 0 (by decide)
  rw [load, byte 3 (by decide), byte 2 (by decide), byte 1 (by decide), first,
    BitVec.extractLsb'_append_extractLsb'_eq_extractLsb' (by rfl),
    BitVec.extractLsb'_append_extractLsb'_eq_extractLsb' (by rfl),
    BitVec.extractLsb'_append_extractLsb'_eq_extractLsb' (by rfl)]
  exact BitVec.extractLsb'_eq_self

theorem Holds.congr {words : List Word} (holds : Holds left address words)
    (few : 4 * words.length ≤ 4294967296)
    (same : ∀ x, (x - address).toNat < 4 * words.length → right x = left x) :
    Holds right address words := by
  induction words generalizing address with
  | nil => exact trivial
  | cons word words induction =>
      rw [List.length_cons] at few same
      refine ⟨?_, induction holds.2 (by omega) ?_⟩
      · rw [← holds.1]
        exact load_congr fun x inside => same x (by omega)
      · intro x inside
        exact same x (by bv_omega)

/-- A word stored right below them, if the address space has room for it. -/
theorem Holds.store {words : List Word} (holds : Holds mem address words)
    (room : 4 * (words.length + 1) ≤ 4294967296) :
    Holds (store mem (address - 4) value) (address - 4) (value :: words) := by
  refine ⟨load_store_same, ?_⟩
  rw [BitVec.sub_add_cancel]
  apply holds.congr (by omega)
  intro x inside
  apply store_outside
  bv_omega

theorem Holds.get {words : List Word} (holds : Holds mem address words)
    (i : Nat) (word : words[i]? = some value) :
    load mem (address + BitVec.ofNat 32 (4 * i)) = value := by
  induction words generalizing address i with
  | nil => simp at word
  | cons first words induction =>
      cases i with
      | zero =>
          rw [List.getElem?_cons_zero, Option.some.injEq] at word
          simpa [word] using holds.1
      | succ i =>
          rw [← induction holds.2 i word]
          congr 1
          bv_omega

theorem Holds.append {front back : List Word} :
    Holds mem address (front ++ back) ↔
      Holds mem address front ∧
        Holds mem (address + BitVec.ofNat 32 (4 * front.length)) back := by
  induction front generalizing address with
  | nil => simp [Holds]
  | cons word front induction =>
      have behind : address + BitVec.ofNat 32 (4 * (word :: front).length) =
          address + 4 + BitVec.ofNat 32 (4 * front.length) := by
        rw [List.length_cons]
        bv_omega
      rw [List.cons_append, Holds, induction, Holds, behind, and_assoc]

end Memory

/-! ## Registers and flags -/

/-- The general registers in the order of `pusha`. -/
inductive Reg where
  | eax | ecx | edx | ebx | esp | ebp | esi | edi
  deriving DecidableEq, Repr

/-- The segment registers of data. -/
inductive SegReg where
  | ds | es | fs | gs | ss
  deriving DecidableEq, Repr

abbrev interruptFlag : Word := 0x200
abbrev trapFlag : Word := 0x100
abbrev nestedTask : Word := 0x4000
abbrev resumeFlag : Word := 0x10000
abbrev virtual8086 : Word := 0x20000

/-- CF, PF, AF, ZF, SF and OF. -/
abbrev arithmeticFlags : Word := 0x8D5

/-- The bits of EFLAGS that no instruction changes. -/
abbrev fixedFlags : Word := 0xFFC0802A

structure Eflags where
  bits : Word
  fixed : bits &&& fixedFlags = 2

section Eflags

theorem merge_and {mask kept old new : Word} (apart : mask &&& kept = 0) :
    ((new &&& mask) ||| (old &&& ~~~mask)) &&& kept = old &&& kept := by
  ext i bound
  have bit := congrArg (fun word : Word => word[i]) apart
  simp only [BitVec.getElem_and, BitVec.ofNat_eq_ofNat, BitVec.getElem_zero]
    at bit
  simp only [BitVec.getElem_and, BitVec.getElem_or, BitVec.getElem_not]
  revert bit
  cases mask[i] <;> simp +contextual

theorem merge_eq {mask kept old new : Word}
    (outside : old &&& ~~~mask = new &&& ~~~mask)
    (inside : old &&& kept = new &&& kept) :
    (new &&& (mask &&& ~~~kept)) ||| (old &&& ~~~(mask &&& ~~~kept)) = new := by
  ext i bound
  have outer := congrArg (fun word : Word => word[i]) outside
  have inner := congrArg (fun word : Word => word[i]) inside
  simp only [BitVec.getElem_and, BitVec.getElem_or, BitVec.getElem_not] at *
  revert outer inner
  cases mask[i] <;> cases kept[i] <;> simp

/-- The flags under the mask come from the word. -/
def Eflags.assign (flags : Eflags) (mask value : Word) : Eflags where
  bits := (value &&& (mask &&& ~~~fixedFlags)) |||
    (flags.bits &&& ~~~(mask &&& ~~~fixedFlags))
  fixed := by
    rw [merge_and, flags.fixed]
    rw [BitVec.and_assoc, BitVec.and_comm (~~~_), BitVec.and_not_self]
    exact BitVec.and_zero

theorem Eflags.assign_and (flags : Eflags) {mask value kept : Word}
    (apart : mask &&& kept = 0) :
    (flags.assign mask value).bits &&& kept = flags.bits &&& kept := by
  apply merge_and
  rw [BitVec.and_assoc, BitVec.and_comm (~~~_), ← BitVec.and_assoc, apart]
  exact BitVec.zero_and

theorem Eflags.assign_zero_and (flags : Eflags) {mask kept : Word}
    (inside : ~~~(mask &&& ~~~fixedFlags) &&& kept = 0) :
    (flags.assign mask 0).bits &&& kept = 0 := by
  change ((0#32 &&& _) ||| (flags.bits &&& _)) &&& kept = 0
  rw [BitVec.zero_and, BitVec.zero_or, BitVec.and_assoc, inside]
  exact BitVec.and_zero

theorem Eflags.assign_eq {flags new : Eflags} {mask : Word}
    (same : flags.bits &&& ~~~mask = new.bits &&& ~~~mask) :
    flags.assign mask new.bits = new := by
  have bits : (flags.assign mask new.bits).bits = new.bits :=
    merge_eq same (by rw [flags.fixed, new.fixed])
  cases new
  cases h : flags.assign mask _
  rw [h] at bits
  cases bits
  rfl

end Eflags

/-! ## The state -/

/-- All of the state but `eip`. -/
structure State where
  mem : Memory
  reg : Reg → Word
  seg : SegReg → BitVec 16
  cs : BitVec 16
  eflags : Eflags

namespace State

def setReg (r : Reg) (value : Word) (s : State) : State :=
  { s with reg := Function.update s.reg r value }

/-- The low half of a register, `ax` of `eax`. -/
def low (r : Reg) (s : State) : BitVec 16 := (s.reg r).setWidth 16

def setLow (r : Reg) (value : BitVec 16) (s : State) : State :=
  s.setReg r ((s.reg r).extractLsb' 16 16 ++ value)

def push (value : Word) (s : State) : State :=
  { s with
    mem := store s.mem (s.reg .esp - 4) value
    reg := Function.update s.reg .esp (s.reg .esp - 4) }

def pushAll : List Word → State → State
  | [], s => s
  | value :: values, s => (s.push value).pushAll values

def pop (s : State) : Word × State :=
  (load s.mem (s.reg .esp), s.setReg .esp (s.reg .esp + 4))

def popReg (r : Reg) (s : State) : State := s.pop.2.setReg r s.pop.1

def pusha (s : State) : State :=
  s.pushAll ([.eax, .ecx, .edx, .ebx, .esp, .ebp, .esi, .edi].map s.reg)

/-- The word that `pusha` has stored for `esp` is skipped. -/
def popa (s : State) : State :=
  let s := ((s.popReg .edi).popReg .esi).popReg .ebp
  let s := s.setReg .esp (s.reg .esp + 4)
  (((s.popReg .ebx).popReg .edx).popReg .ecx).popReg .eax

end State

/-! ## Code -/

/-- A set of instructions: where the processor goes on after one of them, from
the address behind it. -/
class InstrSet (I : Type) where
  exec : I → Word → State → Option (Word × State)

/-- The instruction at an address and the address behind it. -/
abbrev CodeOf (I : Type) := Word → Option (I × Word)

section Code

variable {I : Type}

/-- The processor at `eip` goes on by one instruction. -/
def step [InstrSet I] (code : CodeOf I) :
    Word × State → Option (Word × State)
  | (eip, s) =>
      match code eip with
      | none => none
      | some (instr, behind) => InstrSet.exec instr behind s

def Steps [InstrSet I] (code : CodeOf I) : Word × State → Word × State → Prop :=
  Relation.ReflTransGen fun now after => step code now = some after

/-- The instructions lie one behind the other from the address on. -/
def Loaded (code : CodeOf I) : Word → List I → Prop
  | _, [] => True
  | address, instr :: rest =>
      ∃ behind, code address = some (instr, behind) ∧ Loaded code behind rest

instance decidableLoaded [DecidableEq I] (code : CodeOf I) :
    (address : Word) → (listing : List I) →
      Decidable (Loaded code address listing)
  | _, [] => isTrue trivial
  | address, instr :: rest =>
      match fetched : code address with
      | none => isFalse (by rintro ⟨_, found, _⟩; simp [fetched] at found)
      | some (found, behind) =>
          have := decidableLoaded code behind rest
          decidable_of_iff (found = instr ∧ Loaded code behind rest) (by
            constructor
            · rintro ⟨rfl, loaded⟩
              exact ⟨behind, fetched, loaded⟩
            · rintro ⟨_, again, loaded⟩
              rw [fetched, Option.some.injEq, Prod.mk.injEq] at again
              exact ⟨again.1, again.2 ▸ loaded⟩)

/-- Instructions after which the next one follows, one after the other. -/
def runLine {Line : Type} (run : Line → State → State) :
    List Line → State → State
  | [], s => s
  | line :: lines, s => runLine run lines (run line s)

theorem runLine_append {Line : Type} (run : Line → State → State)
    (front back : List Line) (s : State) :
    runLine run (front ++ back) s = runLine run back (runLine run front s) := by
  induction front generalizing s with
  | nil => rfl
  | cons line front induction => exact induction (run line s)

variable {code : CodeOf I} {address : Word} {instr : I} {rest : List I}

/-- One instruction. -/
theorem Loaded.first [InstrSet I] (s : State)
    (loaded : Loaded code address (instr :: rest)) :
    ∃ behind, Loaded code behind rest ∧
      ∀ after, InstrSet.exec instr behind s = some after →
        Steps code (address, s) after := by
  obtain ⟨behind, fetched, loaded⟩ := loaded
  refine ⟨behind, loaded, fun after executed => .single ?_⟩
  rw [step, fetched]
  exact executed

/-- A line of instructions that do not jump. -/
theorem Loaded.line [InstrSet I] {Line : Type} {instr : Line → I}
    {run : Line → State → State}
    (next : ∀ line behind s,
      InstrSet.exec (instr line) behind s = some (behind, run line s))
    (lines : List Line) (s : State)
    (loaded : Loaded code address (lines.map instr ++ rest)) :
    ∃ behind, Loaded code behind rest ∧
      Steps code (address, s) (behind, runLine run lines s) := by
  induction lines generalizing s address with
  | nil => exact ⟨address, loaded, .refl⟩
  | cons line lines induction =>
      obtain ⟨behind, loaded, goes⟩ := loaded.first s
      obtain ⟨last, loaded, steps⟩ := induction (run line s) loaded
      exact ⟨last, loaded, (goes _ (next line behind s)).trans steps⟩

/-- A listing in memory of its own, from address 0 on, with one address for
each instruction. -/
def codeOf (listing : List I) : CodeOf I := fun address =>
  listing[address.toNat]?.map fun instr => (instr, address + 1)

theorem codeOf_loaded (listing : List I)
    (short : listing.length < 4294967296) :
    Loaded (codeOf listing) 0 listing := by
  have part : ∀ back front, listing = front ++ back →
      Loaded (codeOf listing) (BitVec.ofNat 32 front.length) back := by
    intro back
    induction back with
    | nil => exact fun _ _ => trivial
    | cons instr back induction =>
        intro front split
        have there : (BitVec.ofNat 32 front.length).toNat = front.length := by
          rw [split, List.length_append] at short
          rw [BitVec.toNat_ofNat, Nat.mod_eq_of_lt (by omega)]
        refine ⟨BitVec.ofNat 32 (front ++ [instr]).length, ?_,
          induction (front ++ [instr]) (by simp [split])⟩
        simp only [codeOf, there]
        rw [split, List.getElem?_append_right (Nat.le_refl _), Nat.sub_self,
          List.length_append, BitVec.ofNat_add]
        rfl
  exact part listing [] rfl

end Code

/-! ## Instructions -/

def flagAt (position : Nat) (set : Bool) : Word :=
  if set then 1 <<< position else 0

/-- The flags that an addition sets. -/
def addFlags (a b : Word) : Word :=
  let sum := a + b
  flagAt 0 (BitVec.uaddOverflow a b) |||
    flagAt 2 (((List.range 8).countP sum.getLsbD) % 2 == 0) |||
    flagAt 4 ((a ^^^ b ^^^ sum).getLsbD 4) |||
    flagAt 6 (sum == 0) |||
    flagAt 7 sum.msb |||
    flagAt 11 (BitVec.saddOverflow a b)

/-- The instructions after which the next one follows.  Loading a segment
register takes the low half of a general register. -/
inductive Op where
  | cli
  | pushImm (value : Word)
  | push (r : Reg)
  | pop (r : Reg)
  | pusha
  | popa
  | movImm16 (r : Reg) (value : BitVec 16)
  | movFromSeg (r : Reg) (sr : SegReg)
  | movToSeg (sr : SegReg) (r : Reg)
  | addImm (r : Reg) (value : Word)
  deriving DecidableEq, Repr

def Op.exec (op : Op) (s : State) : State :=
  match op with
  | .cli => { s with eflags := s.eflags.assign interruptFlag 0 }
  | .pushImm value => s.push value
  | .push r => s.push (s.reg r)
  | .pop r => s.popReg r
  | .pusha => s.pusha
  | .popa => s.popa
  | .movImm16 r value => s.setLow r value
  | .movFromSeg r sr => s.setLow r (s.seg sr)
  | .movToSeg sr r => { s with seg := Function.update s.seg sr (s.low r) }
  | .addImm r value =>
      { s.setReg r (s.reg r + value) with
        eflags := s.eflags.assign arithmeticFlags (addFlags (s.reg r) value) }

inductive Instr where
  | op (op : Op)
  | jmp (target : Word)
  | call (target : Word)
  | iret
  deriving DecidableEq, Repr

instance : Coe Op Instr := ⟨Instr.op⟩

/-- The privilege level that a selector of code stands for. -/
def ring (selector : BitVec 16) : BitVec 2 := selector.setWidth 2

/-- `iret` to the same ring.  Returns to an outer ring, to another task and to
virtual-8086 mode are left out. -/
def State.iret (s : State) : Option (Word × State) :=
  let (eip, popped) := s.pop
  let (cs, popped) := popped.pop
  let (flags, popped) := popped.pop
  let cs := cs.setWidth 16
  if ring s.cs = 0 ∧ ring cs = 0 ∧ s.eflags.bits &&& nestedTask = 0 ∧
      flags &&& virtual8086 = 0 then
    some (eip, {
      popped with
      cs := cs
      eflags := s.eflags.assign (~~~virtual8086) flags })
  else none

instance : InstrSet Instr where
  exec
    | .op op, behind, s => some (behind, op.exec s)
    | .jmp target, _, s => some (target, s)
    | .call target, behind, s => some (target, s.push behind)
    | .iret, _, s => s.iret

abbrev Code := CodeOf Instr

/-- What an interrupt gate says. -/
structure Gate where
  offset : Word
  selector : BitVec 16
  deriving DecidableEq, Repr

/-- The flags that the processor clears on its way through an interrupt
gate. -/
abbrev gateFlags : Word :=
  interruptFlag ||| trapFlag ||| nestedTask ||| resumeFlag ||| virtual8086

/-- The processor takes an interrupt of ring 0 through a gate to ring 0.
`eip` and `eflags` are those that it stores. -/
def interrupt (gate : Gate) (errorCode : Option Word) :
    Word × State → Word × State
  | (eip, s) => (gate.offset, {
      s.pushAll ([s.eflags.bits, s.cs.setWidth 32, eip] ++ errorCode.toList) with
      cs := gate.selector
      eflags := s.eflags.assign gateFlags 0 })

/-! ## What is on the stack -/

section Stack

variable {s s' s'' : State} {words : List Word} {value : Word} {r : Reg}

/-- The second state has the words on top of the stack of the first one, and
no other byte has changed. -/
structure Pushed (s : State) (words : List Word) (s' : State) : Prop where
  esp : s'.reg .esp = s.reg .esp - BitVec.ofNat 32 (4 * words.length)
  holds : Holds s'.mem (s'.reg .esp) words
  others : ∀ x, 4 * words.length ≤ (x - s'.reg .esp).toNat → s'.mem x = s.mem x

theorem Pushed.refl (s : State) : Pushed s [] s :=
  ⟨by simp, trivial, fun _ _ => rfl⟩

theorem Pushed.congr (pushed : Pushed s words s') (mem : s''.mem = s'.mem)
    (esp : s''.reg .esp = s'.reg .esp) : Pushed s words s'' := by
  obtain ⟨at_esp, holds, others⟩ := pushed
  rw [← mem, ← esp] at *
  exact ⟨at_esp, holds, others⟩

theorem Pushed.push (pushed : Pushed s words s')
    (room : 4 * (words.length + 1) ≤ 4294967296) (value : Word) :
    Pushed s (value :: words) (s'.push value) where
  esp := by
    simp only [State.push, Function.update_self, pushed.esp, List.length_cons]
    bv_omega
  holds := by
    simp only [State.push, Function.update_self]
    exact pushed.holds.store room
  others := by
    intro x outside
    simp only [State.push, Function.update_self, List.length_cons] at *
    rw [store_outside (by omega), pushed.others x (by bv_omega)]

theorem Pushed.pushAll (pushed : Pushed s words s') (values : List Word)
    (room : 4 * (values.length + words.length) ≤ 4294967296) :
    Pushed s (values.reverse ++ words) (s'.pushAll values) := by
  induction values generalizing words s' with
  | nil => exact pushed
  | cons value values induction =>
      rw [List.length_cons] at room
      rw [List.reverse_cons, List.append_assoc]
      exact induction (pushed.push (by omega) value)
        (by simp only [List.singleton_append, List.length_cons]; omega)

theorem State.push_reg (different : r ≠ .esp) :
    (s.push value).reg r = s.reg r :=
  Function.update_of_ne different ..

theorem State.setLow_reg {other : Reg} (half : BitVec 16)
    (different : other ≠ r) : (s.setLow r half).reg other = s.reg other :=
  Function.update_of_ne different ..

theorem State.setLow_low (half : BitVec 16) :
    (s.setLow r half).low r = half := by
  simp only [State.low, State.setLow, State.setReg, Function.update_self]
  exact BitVec.setWidth_append_eq_right

/-- Apart from memory and `esp` nothing changes. -/
theorem State.pushAll_eq (values : List Word) :
    s.pushAll values = { s with
      mem := (s.pushAll values).mem
      reg := Function.update s.reg .esp ((s.pushAll values).reg .esp) } := by
  induction values generalizing s with
  | nil => simp [State.pushAll]
  | cons value values induction =>
      refine induction.trans ?_
      simp only [State.push, Function.update_idem]
      rfl

theorem interrupt_pushed (gate : Gate) (errorCode : Option Word) (eip : Word)
    (s : State) :
    Pushed s (errorCode.toList ++ [eip, s.cs.setWidth 32, s.eflags.bits])
      (interrupt gate errorCode (eip, s)).2 := by
  have pushed := (Pushed.refl s).pushAll
    ([s.eflags.bits, s.cs.setWidth 32, eip] ++ errorCode.toList)
    (by cases errorCode <;> simp)
  cases errorCode <;> exact pushed.congr rfl rfl

/-- `popa` undoes `pusha` but for `esp`. -/
theorem State.popa_eq {saved : Reg → Word}
    (holds : Holds s.mem (s.reg .esp)
      ([.edi, .esi, .ebp, .esp, .ebx, .edx, .ecx, .eax].map saved)) :
    s.popa = { s with
      reg := Function.update saved .esp (s.reg .esp + 32) } := by
  simp only [List.map_cons, List.map_nil, Holds, BitVec.ofNat_eq_ofNat,
    BitVec.add_assoc, BitVec.reduceAdd, and_true] at holds
  obtain ⟨edi, esi, ebp, -, ebx, edx, ecx, eax⟩ := holds
  simp only [State.popa, State.popReg, State.pop, State.setReg]
  congr 1
  funext r
  cases r <;> simp [BitVec.add_assoc, *]

theorem State.iret_eq {eip : Word} {cs : BitVec 16} {flags : Eflags}
    (holds : Holds s.mem (s.reg .esp) [eip, cs.setWidth 32, flags.bits])
    (inRing0 : ring s.cs = 0) (toRing0 : ring cs = 0)
    (noTask : s.eflags.bits &&& nestedTask = 0)
    (protected₀ : s.eflags.bits &&& virtual8086 = 0)
    (protected₁ : flags.bits &&& virtual8086 = 0) :
    s.iret = some (eip, { s with
      reg := Function.update s.reg .esp (s.reg .esp + 12)
      cs := cs
      eflags := flags }) := by
  simp only [Holds] at holds
  obtain ⟨eip_eq, cs_eq, flags_eq, -⟩ := holds
  have narrow : (cs.setWidth 32).setWidth 16 = cs := by simp
  have flags' : s.eflags.assign (~~~virtual8086) flags.bits = flags := by
    apply Eflags.assign_eq
    rw [BitVec.not_not, protected₀, protected₁]
  simp only [State.iret, State.pop, State.setReg, Function.update_self,
    Function.update_idem, eip_eq, cs_eq, flags_eq, narrow, flags']
  rw [if_pos ⟨inRing0, toRing0, noTask, protected₁⟩]
  simp [BitVec.add_assoc]

end Stack

/-! ## Runs -/

section Runs

variable {code : Code} {address : Word} {s : State} {rest : List Instr}

theorem Loaded.ops (ops : List Op) (s : State)
    (loaded : Loaded code address (ops.map Instr.op ++ rest)) :
    ∃ behind, Loaded code behind rest ∧
      Steps code (address, s) (behind, runLine Op.exec ops s) :=
  loaded.line (fun _ _ _ => rfl) ops s

theorem Loaded.jmp {target : Word}
    (loaded : Loaded code address (.jmp target :: rest)) :
    Steps code (address, s) (target, s) := by
  obtain ⟨behind, -, goes⟩ := loaded.first s
  exact goes _ rfl

theorem Loaded.call {target : Word} (s : State)
    (loaded : Loaded code address (.call target :: rest)) :
    ∃ behind, Loaded code behind rest ∧
      Steps code (address, s) (target, s.push behind) := by
  obtain ⟨behind, loaded, goes⟩ := loaded.first s
  exact ⟨behind, loaded, goes _ rfl⟩

theorem Loaded.iret {after : Word × State}
    (loaded : Loaded code address (.iret :: rest))
    (returns : s.iret = some after) : Steps code (address, s) after := by
  obtain ⟨behind, -, goes⟩ := loaded.first s
  exact goes _ returns

end Runs

end X86
