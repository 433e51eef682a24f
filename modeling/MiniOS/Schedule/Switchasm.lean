import MiniOS.Lib.X86Routine
import MiniOS.Schedule.Ring

/-!
# The context switch in assembly (`switchasm.S`)

`switchTo` of the scheduler's model says which words `switch_to` moves.  Here
the listing runs on the processor's own state: it does what the model says,
and a thread that is switched out goes on where it called `switch_to` when it
is switched in again.
-/

namespace MiniOS

open X86 Routine Routine.Move

/-! ## The listing -/

/-- `switch_to` up to its `ret`. -/
def switchToMoves : List Move := [
  load .eax .esp 4,
  store .eax 0 .esp,
  store .eax 4 .ebp,
  store .eax 8 .ebx,
  store .eax 12 .esi,
  store .eax 16 .edi,
  pushf,
  basic (.pop .ecx),
  store .eax 20 .ecx,
  load .eax .esp 8,
  load .esp .eax 0,
  load .ebp .eax 4,
  load .ebx .eax 8,
  load .esi .eax 12,
  load .edi .eax 16,
  load .eax .eax 20,
  basic (.push .eax),
  popf]

def switchToListing : List Routine.Instr :=
  switchToMoves.map .move ++ [.ret]

def runSwitchTo (s : State) : Word × State := (runLine Move.exec switchToMoves s).pop

/-! ## Contexts -/

/-- `context_t` as the processor sees it. -/
structure ContextWords where
  esp : Word
  ebp : Word
  ebx : Word
  esi : Word
  edi : Word
  eflags : Word
  deriving DecidableEq, Repr

def ContextWords.toList (words : ContextWords) : List Word :=
  [words.esp, words.ebp, words.ebx, words.esi, words.edi, words.eflags]

def ContextAt (mem : Memory) (context : Word) (words : ContextWords) : Prop :=
  Holds mem context words.toList

def contextOf (s : State) : ContextWords where
  esp := s.reg .esp
  ebp := s.reg .ebp
  ebx := s.reg .ebx
  esi := s.reg .esi
  edi := s.reg .edi
  eflags := s.eflags.bits &&& ~~~hiddenFlags

theorem ContextAt.eqOn {left right : Memory} {context : Word}
    {words : ContextWords} (there : ContextAt left context words)
    (same : Set.EqOn right left (bytes context 24)) :
    ContextAt right context words :=
  Holds.eqOn there (by simp [ContextWords.toList]) same

/-! ## One switch -/

/-- `switch_to(prev, next)` is called: the arguments lie above the return
address, and the contexts, the frame of the call and the words that the two
stacks lend for the flags lie apart. -/
structure SwitchCall (s : State) (prev next : Word) (words : ContextWords) :
    Prop where
  prev_arg : X86.load s.mem (s.reg .esp + 4) = prev
  next_arg : X86.load s.mem (s.reg .esp + 8) = next
  next_words : ContextAt s.mem next words
  contexts : Disjoint (bytes next 24) (bytes prev 24)
  frame : Disjoint (bytes (s.reg .esp - 4) 16) (bytes prev 24)
  frame_next : Disjoint (bytes next 24) (bytes (s.reg .esp - 4) 4)
  stack : Disjoint (bytes (words.esp - 4) 8) (bytes prev 24)
  stack_frame : Disjoint (bytes words.esp 4) (bytes (s.reg .esp - 4) 4)

/-- The processor after the `ret` of `switch_to(prev, next)`. -/
structure Switched (s : State) (prev : Word) (words : ContextWords)
    (s' : State) : Prop where
  saved : ContextAt s'.mem prev (contextOf s)
  esp : s'.reg .esp = words.esp + 4
  ebp : s'.reg .ebp = words.ebp
  ebx : s'.reg .ebx = words.ebx
  esi : s'.reg .esi = words.esi
  edi : s'.reg .edi = words.edi
  eflags : s'.eflags.bits &&& poppedFlags = words.eflags &&& poppedFlags
  seg : s'.seg = s.seg
  cs : s'.cs = s.cs
  others : ∀ kept : Set Word, Disjoint kept (bytes prev 24) →
    Disjoint kept (bytes (s.reg .esp - 4) 4) →
    Disjoint kept (bytes (words.esp - 4) 4) → Set.EqOn s'.mem s.mem kept

section Switch

variable {s : State} {prev next : Word} {words : ContextWords}

def savedMemory (s : State) (prev : Word) : Memory :=
  let flags := s.eflags.bits &&& ~~~hiddenFlags
  X86.store (X86.store (storeWords s.mem prev
    [s.reg .esp, s.reg .ebp, s.reg .ebx, s.reg .esi, s.reg .edi])
    (s.reg .esp - 4) flags) (prev + 20) flags

def savedState (s : State) (prev : Word) : State := { s with
  mem := savedMemory s prev
  reg := Function.update (Function.update s.reg .eax prev) .ecx
    (s.eflags.bits &&& ~~~hiddenFlags) }

theorem savedMemory_others {kept : Set Word}
    (context : Disjoint kept (bytes prev 24))
    (scratch : Disjoint kept (bytes (s.reg .esp - 4) 4)) :
    Set.EqOn (savedMemory s prev) s.mem kept :=
  (store_eqOn (context.mono_right (bytes_part (by decide)))).trans
    ((store_eqOn scratch).trans (storeWords_eqOn (by simp)
      (context.mono_right (bytes_front (by simp)))))

theorem savedMemory_saved
    (frame : Disjoint (bytes (s.reg .esp - 4) 16) (bytes prev 24)) :
    ContextAt (savedMemory s prev) prev (contextOf s) := by
  let flags := s.eflags.bits &&& ~~~hiddenFlags
  let words := [s.reg .esp, s.reg .ebp, s.reg .ebx, s.reg .esi, s.reg .edi]
  have stored : Holds (storeWords s.mem prev words) prev words :=
    storeWords_holds (by simp [words])
  have scratch : Disjoint (bytes prev 20) (bytes (s.reg .esp - 4) 4) :=
    (frame.mono (bytes_front (by decide)) (bytes_front (by decide))).symm
  have behind : Disjoint (bytes prev 20) (bytes (prev + 20) 4) :=
    bytes_apart (by decide) (by decide)
  have kept : Holds (X86.store _ (s.reg .esp - 4) flags) prev words :=
    stored.eqOn (by simp [words]) (store_eqOn scratch)
  have front : Holds (X86.store _ (prev + 20) flags) prev words :=
    kept.eqOn (by simp [words]) (store_eqOn behind)
  exact front.concat load_store_same

theorem switchTo_save (prevArg : X86.load s.mem (s.reg .esp + 4) = prev) :
    runLine Move.exec (switchToMoves.take 9) s = savedState s prev := by
  subst prevArg
  have registers : (runLine Move.exec (switchToMoves.take 9) s).reg =
      Function.update (Function.update s.reg .eax
        (X86.load s.mem (s.reg .esp + 4))) .ecx
        (s.eflags.bits &&& ~~~hiddenFlags) := by
    funext r
    cases r
    case esp => exact BitVec.sub_add_cancel (s.reg .esp) 4
    all_goals simp [switchToMoves, runLine, Move.exec, Op.exec, State.setReg,
      State.pushf, State.push, State.popReg, State.pop, load_store_same]
  have memory : (runLine Move.exec (switchToMoves.take 9) s).mem =
      savedMemory s (X86.load s.mem (s.reg .esp + 4)) := by
    simp [switchToMoves, runLine, Move.exec, Op.exec,
      State.setReg, State.pushf, State.push, State.popReg, State.pop,
      load_store_same, savedMemory, storeWords, BitVec.add_assoc]
  rw [savedState, ← registers, ← memory]
  rfl

def loadedRegs (words : ContextWords) (s : State) : Reg → Word
  | .eax => words.eflags
  | .esp => words.esp
  | .ebp => words.ebp
  | .ebx => words.ebx
  | .esi => words.esi
  | .edi => words.edi
  | .ecx => s.reg .ecx
  | .edx => s.reg .edx

theorem switchTo_load (s : State)
    (nextArg : X86.load s.mem (s.reg .esp + 8) = next)
    (there : ContextAt s.mem next words) :
    runLine Move.exec (switchToMoves.drop 9) s = { s with
      mem := X86.store s.mem (words.esp - 4) words.eflags
      reg := loadedRegs words s
      eflags := s.eflags.popf words.eflags } := by
  simp only [ContextAt, ContextWords.toList, Holds, BitVec.add_assoc,
    BitVec.ofNat_eq_ofNat, BitVec.reduceAdd, and_true] at there nextArg
  obtain ⟨esp, ebp, ebx, esi, edi, eflags⟩ := there
  have registers : (runLine Move.exec (switchToMoves.drop 9) s).reg =
      loadedRegs words s := by
    funext r
    cases r
    case esp =>
      have field : X86.load s.mem (X86.load s.mem (s.reg .esp + 8#32) + 0#32) =
          words.esp := by
        rw [nextArg, BitVec.add_zero, esp]
      exact (BitVec.sub_add_cancel _ 4).trans field
    all_goals simp [switchToMoves, runLine, Move.exec, Op.exec, State.setReg,
      State.popf, State.push, State.pop, loadedRegs, *]
  have memory : (runLine Move.exec (switchToMoves.drop 9) s).mem =
      X86.store s.mem (words.esp - 4) words.eflags := by
    simp [switchToMoves, runLine, Move.exec, Op.exec, State.setReg,
      State.popf, State.push, State.pop, *]
  have flags : (runLine Move.exec (switchToMoves.drop 9) s).eflags =
      s.eflags.popf words.eflags := by
    simp [switchToMoves, runLine, Move.exec, Op.exec, State.setReg,
      State.popf, State.push, State.pop, load_store_same, *]
  rw [← registers, ← memory, ← flags]
  rfl

theorem SwitchCall.loads (call : SwitchCall s prev next words) :
    X86.load (savedMemory s prev) (s.reg .esp + 8) = next ∧
      ContextAt (savedMemory s prev) next words ∧
      X86.load (savedMemory s prev) words.esp = X86.load s.mem words.esp := by
  have part : s.reg .esp + 8 = s.reg .esp - 4 + 12 := by bv_omega
  have argument : bytes (s.reg .esp + 8) 4 ⊆ bytes (s.reg .esp - 4) 16 := by
    rw [part]
    exact bytes_part (by decide)
  have scratch : Disjoint (bytes (s.reg .esp - 4) 4)
      (bytes (s.reg .esp + 8) 4) := by
    rw [part]
    exact bytes_apart (by decide) (by decide)
  have top : bytes words.esp 4 ⊆ bytes (words.esp - 4) 8 := by
    have inside : bytes (words.esp - 4 + 4) 4 ⊆ bytes (words.esp - 4) 8 :=
      bytes_part (by decide)
    rwa [BitVec.sub_add_cancel] at inside
  refine ⟨?_, ?_, ?_⟩
  · rw [← call.next_arg]
    exact load_eqOn (savedMemory_others (call.frame.mono_left argument)
      scratch.symm)
  · exact call.next_words.eqOn
      (savedMemory_others call.contexts call.frame_next)
  · exact load_eqOn (savedMemory_others (call.stack.mono_left top)
      call.stack_frame)

def switchedState (s : State) (prev : Word) (words : ContextWords) :
    State := { s with
  mem := X86.store (savedMemory s prev) (words.esp - 4) words.eflags
  reg := Function.update (loadedRegs words (savedState s prev)) .esp
    (words.esp + 4)
  eflags := s.eflags.popf words.eflags }

theorem SwitchCall.run_eq (call : SwitchCall s prev next words) :
    runSwitchTo s =
      (X86.load s.mem words.esp, switchedState s prev words) := by
  obtain ⟨nextArg, there, target⟩ := call.loads
  have top : Disjoint (bytes words.esp 4) (bytes (words.esp - 4) 4) := by
    have apart : Disjoint (bytes (words.esp - 4) 4)
        (bytes (words.esp - 4 + 4) 4) :=
      bytes_apart (by decide) (by decide)
    rw [BitVec.sub_add_cancel] at apart
    exact apart.symm
  have eip : X86.load (X86.store (savedMemory s prev) (words.esp - 4)
      words.eflags) words.esp = X86.load s.mem words.esp :=
    (load_store_apart top).trans target
  have halves : runLine Move.exec switchToMoves s =
      runLine Move.exec (switchToMoves.drop 9)
        (runLine Move.exec (switchToMoves.take 9) s) := by
    rw [← runLine_append, List.take_append_drop]
  rw [runSwitchTo, halves, switchTo_save call.prev_arg,
    switchTo_load (savedState s prev) nextArg there, ← eip]
  rfl

/-- `switch_to` saves the registers in `prev` and goes on with those of
`next`. -/
theorem SwitchCall.switched (call : SwitchCall s prev next words) :
    Switched s prev words (switchedState s prev words) := by
  have scratch : bytes (words.esp - 4) 4 ⊆ bytes (words.esp - 4) 8 :=
    bytes_front (by decide)
  constructor
  case saved =>
    exact (savedMemory_saved call.frame).eqOn
      (store_eqOn (call.stack.mono_left scratch).symm)
  case eflags => exact s.eflags.popf_and words.eflags
  case others =>
    intro kept context frame stack
    exact (store_eqOn stack).trans (savedMemory_others context frame)
  all_goals rfl

end Switch

/-! ## The scheduler's model -/

/-- The bytes of the processor's memory, as the scheduler's model counts
them. -/
def natMem (mem : Memory) : ByteMemory.Mem :=
  fun x => UInt8.ofBitVec (mem (BitVec.ofNat 32 x))

theorem append_toNat {m n : Nat} (high : BitVec m) (low : BitVec n) :
    (high ++ low).toNat = low.toNat + 2 ^ n * high.toNat := by
  rw [BitVec.toNat_append, ← Nat.shiftLeft_add_eq_or_of_lt low.isLt,
    Nat.shiftLeft_eq]
  ring

theorem load32_natMem (mem : Memory) (x : Nat) :
    ByteMemory.load32 (natMem mem) x =
      (X86.load mem (BitVec.ofNat 32 x)).toNat := by
  have behind : ∀ i : Nat, BitVec.ofNat 32 (x + i) =
      BitVec.ofNat 32 x + BitVec.ofNat 32 i := fun i => BitVec.ofNat_add x i
  simp only [ByteMemory.load32, ByteMemory.word, natMem, X86.load, behind,
    append_toNat, UInt8.toNat_ofBitVec]
  simp only [BitVec.ofNat_eq_ofNat]
  ring

/-- The bytes are the same but for some that are borrowed. -/
def AgreeOff (borrowed : Set Word) (mem : Memory) (nat : ByteMemory.Mem) :
    Prop :=
  ∀ x < 4294967296, BitVec.ofNat 32 x ∉ borrowed → nat x = natMem mem x

section Agree

variable {borrowed : Set Word} {mem : Memory} {nat : ByteMemory.Mem}
  {address value : Word}

theorem byteOf_toNat (value : Word) (i : Nat) :
    ByteMemory.byteOf value.toNat i =
      UInt8.ofBitVec (value.extractLsb' (8 * i) 8) := by
  apply UInt8.toNat_inj.mp
  rw [ByteMemory.byteOf, UInt8.toNat_ofNat', UInt8.toNat_ofBitVec,
    BitVec.extractLsb'_toNat, Nat.shiftRight_eq_div_pow, Nat.pow_mul]

theorem store32_byte (nat : ByteMemory.Mem) (address value : Nat) {i : Nat}
    (small : i < 4) :
    ByteMemory.store32 nat address value (address + i) =
      ByteMemory.byteOf value i := by
  obtain rfl | rfl | rfl | rfl : i = 0 ∨ i = 1 ∨ i = 2 ∨ i = 3 := by omega
  all_goals simp [ByteMemory.store32, ByteMemory.store8]

theorem AgreeOff.store (agree : AgreeOff borrowed mem nat)
    (room : address.toNat + 4 ≤ 4294967296) (value : Word) :
    AgreeOff borrowed (X86.store mem address value)
      (ByteMemory.store32 nat address.toNat value.toNat) := by
  intro x bound outside
  by_cases inside : address.toNat ≤ x ∧ x < address.toNat + 4
  · obtain ⟨i, rfl⟩ := Nat.exists_eq_add_of_le inside.1
    have small : i < 4 := by omega
    have offset :
        (BitVec.ofNat 32 (address.toNat + i) - address).toNat = i := by
      bv_omega
    rw [store32_byte _ _ _ small, byteOf_toNat, natMem, X86.store, offset,
      if_pos small]
  · rw [ByteMemory.store32_outside _ _ (by omega), agree x bound outside,
      natMem, natMem, store_outside (by bv_omega)]

theorem AgreeOff.borrow (agree : AgreeOff borrowed mem nat)
    (inside : bytes address 4 ⊆ borrowed) (value : Word) :
    AgreeOff borrowed (X86.store mem address value) nat := by
  intro x bound outside
  rw [agree x bound outside, natMem, natMem, store_outside]
  by_contra near
  exact outside (inside (Nat.lt_of_not_ge near))

theorem AgreeOff.mono {larger : Set Word} (agree : AgreeOff borrowed mem nat)
    (subset : borrowed ⊆ larger) : AgreeOff larger mem nat :=
  fun x bound outside => agree x bound fun member => outside (subset member)

theorem AgreeOff.load (agree : AgreeOff borrowed mem nat)
    (room : address.toNat + 4 ≤ 4294967296)
    (apart : Disjoint (bytes address 4) borrowed) :
    ByteMemory.load32 nat address.toNat = (X86.load mem address).toNat := by
  have same : ByteMemory.load32 nat address.toNat =
      ByteMemory.load32 (natMem mem) address.toNat := by
    apply ByteMemory.load32_congr
    intro x lower upper
    apply agree x (by omega)
    apply Set.disjoint_left.mp apart
    simp only [bytes, Set.mem_ofPred_eq]
    bv_omega
  rw [same, load32_natMem, BitVec.ofNat_toNat, BitVec.setWidth_eq]

end Agree

/-- The model of a processor whose registers are about to be saved. -/
structure Models (s : State) (k : Sched) : Prop where
  mem : AgreeOff ∅ s.mem k.mem
  esp : k.cpu.esp = (s.reg .esp).toNat
  ebp : k.cpu.ebp = (s.reg .ebp).toNat
  ebx : k.cpu.ebx = (s.reg .ebx).toNat
  esi : k.cpu.esi = (s.reg .esi).toNat
  edi : k.cpu.edi = (s.reg .edi).toNat
  eflags : k.cpu.eflags = (s.eflags.bits &&& ~~~hiddenFlags).toNat

def modelOf (s : State) : Sched where
  mem := natMem s.mem
  nowPid := 0
  runningProcHead := 0
  current := 0
  cpu := {
    esp := (s.reg .esp).toNat
    ebp := (s.reg .ebp).toNat
    ebx := (s.reg .ebx).toNat
    esi := (s.reg .esi).toNat
    edi := (s.reg .edi).toNat
    eflags := (s.eflags.bits &&& ~~~hiddenFlags).toNat
    cr3 := 0
    esp0 := 0 }

theorem modelOf_models (s : State) : Models s (modelOf s) :=
  ⟨fun _ _ _ => rfl, rfl, rfl, rfl, rfl, rfl, rfl⟩

/-- The model after `switch_to`: its `esp` still points to the return
address, and the words below both stacks are not part of it. -/
structure ModelsSwitched (s : State) (words : ContextWords) (s' : State)
    (k : Sched) : Prop where
  mem : AgreeOff (bytes (s.reg .esp - 4) 4 ∪ bytes (words.esp - 4) 4)
    s'.mem k.mem
  esp : s'.reg .esp = BitVec.ofNat 32 (k.cpu.esp + 4)
  ebp : (s'.reg .ebp).toNat = k.cpu.ebp
  ebx : (s'.reg .ebx).toNat = k.cpu.ebx
  esi : (s'.reg .esi).toNat = k.cpu.esi
  edi : (s'.reg .edi).toNat = k.cpu.edi
  eflags : s'.eflags.bits &&& poppedFlags =
    BitVec.ofNat 32 k.cpu.eflags &&& poppedFlags

section Refinement

variable {s : State} {k : Sched} {prev next : Word} {words : ContextWords}

theorem offset_toNat {start : Word} (offset : Nat)
    (room : start.toNat + offset < 4294967296) :
    (start + BitVec.ofNat 32 offset).toNat = start.toNat + offset := by
  bv_omega

theorem Models.saved (models : Models s k)
    (room : prev.toNat + 24 ≤ 4294967296) :
    AgreeOff (bytes (s.reg .esp - 4) 4) (savedMemory s prev)
      (switchTo prev.toNat next.toNat k).mem := by
  have blank := models.mem.mono (Set.empty_subset (bytes (s.reg .esp - 4) 4))
  have field : ∀ {mem nat} (offset : Nat) (value : Word), offset + 4 ≤ 24 →
      AgreeOff (bytes (s.reg .esp - 4) 4) mem nat →
      AgreeOff (bytes (s.reg .esp - 4) 4)
        (X86.store mem (prev + BitVec.ofNat 32 offset) value)
        (ByteMemory.store32 nat (prev.toNat + offset) value.toNat) := by
    intro mem nat offset value inside agree
    have start : (prev + BitVec.ofNat 32 offset).toNat =
        prev.toNat + offset := offset_toNat offset (by omega)
    rw [← start]
    exact agree.store (by omega) value
  have esp := field 0 (s.reg .esp) (by decide) blank
  have ebp := field 4 (s.reg .ebp) (by decide) esp
  have ebx := field 8 (s.reg .ebx) (by decide) ebp
  have esi := field 12 (s.reg .esi) (by decide) ebx
  have edi := field 16 (s.reg .edi) (by decide) esi
  have flags := field 20 (s.eflags.bits &&& ~~~hiddenFlags) (by decide)
    (edi.borrow (Set.Subset.refl _) (s.eflags.bits &&& ~~~hiddenFlags))
  simp only [switchTo, models.esp, models.ebp, models.ebx, models.esi,
    models.edi, models.eflags, savedMemory, storeWords]
  simpa only [BitVec.add_assoc, BitVec.ofNat_eq_ofNat, BitVec.reduceAdd,
    BitVec.add_zero, Nat.add_zero] using flags

/-- `switch_to` of the scheduler's model is what the listing does. -/
theorem SwitchCall.refines (call : SwitchCall s prev next words)
    (models : Models s k) (prevRoom : prev.toNat + 24 ≤ 4294967296)
    (nextRoom : next.toNat + 24 ≤ 4294967296)
    {code : Routine.Code} {address : Word}
    (loaded : Loaded code address switchToListing) :
    ∃ s', Steps code (address, s) (X86.load s.mem words.esp, s') ∧
      ModelsSwitched s words s' (switchTo prev.toNat next.toNat k) := by
  have switched := call.switched
  have steps := ret_steps switchToMoves s loaded
  change Steps code (address, s) (runSwitchTo s) at steps
  rw [call.run_eq] at steps
  have saved : AgreeOff (bytes (s.reg .esp - 4) 4) (savedMemory s prev)
      (switchTo prev.toNat next.toNat k).mem := models.saved prevRoom
  have there := call.loads.2.1
  simp only [ContextAt, ContextWords.toList, Holds, BitVec.add_assoc,
    BitVec.ofNat_eq_ofNat, BitVec.reduceAdd, and_true] at there
  obtain ⟨esp, ebp, ebx, esi, edi, eflags⟩ := there
  have field : ∀ (offset : Nat) (word : Word), offset + 4 ≤ 24 →
      X86.load (savedMemory s prev) (next + BitVec.ofNat 32 offset) = word →
      ByteMemory.load32 (switchTo prev.toNat next.toNat k).mem
        (next.toNat + offset) = word.toNat := by
    intro offset word inside loads
    have start : (next + BitVec.ofNat 32 offset).toNat =
        next.toNat + offset := offset_toNat offset (by omega)
    rw [← start, ← loads]
    apply saved.load (by omega)
    refine call.frame_next.mono_left (bytes_part ?_)
    simp only [BitVec.toNat_ofNat]
    omega
  refine ⟨_, steps, ?_⟩
  constructor
  case mem =>
    exact (saved.mono Set.subset_union_left).borrow Set.subset_union_right
      words.eflags
  case esp =>
    have word := field 0 words.esp (by decide)
      (by rw [BitVec.add_zero, esp])
    change words.esp + 4 = BitVec.ofNat 32
      (ByteMemory.load32 (switchTo prev.toNat next.toNat k).mem next.toNat + 4)
    rw [Nat.add_zero] at word
    rw [word, BitVec.ofNat_add, BitVec.ofNat_toNat, BitVec.setWidth_eq]
    rfl
  case eflags =>
    have word := field 20 words.eflags (by decide) eflags
    refine switched.eflags.trans ?_
    change _ = BitVec.ofNat 32 (ByteMemory.load32
      (switchTo prev.toNat next.toNat k).mem (next.toNat + 20)) &&& poppedFlags
    rw [word, BitVec.ofNat_toNat, BitVec.setWidth_eq]
  case ebp => exact (field 4 words.ebp (by decide) ebp).symm
  case ebx => exact (field 8 words.ebx (by decide) ebx).symm
  case esi => exact (field 12 words.esi (by decide) esi).symm
  case edi => exact (field 16 words.edi (by decide) edi).symm

end Refinement

end MiniOS
