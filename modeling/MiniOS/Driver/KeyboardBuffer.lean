import MiniOS.Lib.RingBuffer
import MiniOS.Lib.Scan

/-!
# The keyboard buffer (`keyboard.c`)

The interrupt handler stores scan codes, one reader takes them.  The handler
and the section between `cli` and `sti` are one step each; the steps of the
two parties come in any order.  The code of the reader is arbitrary here: it
asks for bytes until a call is done.
-/

namespace MiniOS

open RingBuffer

abbrev kbInBytes : Nat := 32

/-- `kb_input_t`; the two pointers are offsets in `buff`. -/
structure KbInput where
  pHead : Nat
  pTail : Nat
  count : Int
  buff : Nat → BitVec 8

/-- `keyboard_handler`, with the byte that port 0x60 gives. -/
def keyboardHandler (scanCode : BitVec 8) (kbIn : KbInput) : KbInput :=
  if kbIn.count < kbInBytes then
    let kbIn := {
      kbIn with
      buff := Function.update kbIn.buff kbIn.pTail scanCode
      pTail := kbIn.pTail + 1 }
    let kbIn :=
      if kbIn.pTail = kbInBytes then { kbIn with pTail := 0 } else kbIn
    { kbIn with count := kbIn.count + 1 }
  else kbIn

def initKeyboard (kbIn : KbInput) : KbInput :=
  { kbIn with count := 0, pHead := 0, pTail := 0 }

/-- The section of `get_byte_from_kbuf` between `cli` and `sti`. -/
def KbInput.takeByte (kbIn : KbInput) : BitVec 8 × KbInput :=
  let scanCode := kbIn.buff kbIn.pHead
  let kbIn := { kbIn with pHead := kbIn.pHead + 1 }
  let kbIn :=
    if kbIn.pHead = kbInBytes then { kbIn with pHead := 0 } else kbIn
  (scanCode, { kbIn with count := kbIn.count - 1 })

/-- Code that asks for bytes with `get_byte_from_kbuf`. -/
abbrev ByteScan := Scan (BitVec 8)

/-- Where the reader stands; `State` are its static variables. -/
inductive Reader (State : Type) where
  /-- Before the test `kb_in.count > 0` of `keyboard_read`. -/
  | idle (state : State)
  | running (call : ByteScan State)
  /-- After the waiting loop of `get_byte_from_kbuf`. -/
  | entering (next : BitVec 8 → ByteScan State)

inductive KeyboardEvent where
  | arrived (scanCode : BitVec 8)
  /-- A call found a byte waiting. -/
  | called
  | obtained (scanCode : BitVec 8)
  | returned
  deriving DecidableEq, Repr

/-- The buffer, its reader, and what happened so far. -/
structure Keyboard (State : Type) where
  kbIn : KbInput
  reader : Reader State
  trace : List KeyboardEvent

inductive KeyboardAction where
  /-- The keyboard interrupts with a scan code. -/
  | interrupt (scanCode : BitVec 8)
  /-- The reader takes its next step. -/
  | read
  deriving DecidableEq, Repr

namespace Keyboard

variable {State : Type} (call : State → ByteScan State)

def start (kbIn : KbInput) (state : State) : Keyboard State :=
  ⟨initKeyboard kbIn, .idle state, []⟩

def interrupt (scanCode : BitVec 8) (m : Keyboard State) : Keyboard State :=
  { m with
    kbIn := keyboardHandler scanCode m.kbIn
    trace := m.trace ++ [.arrived scanCode] }

def read (m : Keyboard State) : Keyboard State :=
  match m.reader with
  | .idle state =>
      if 0 < m.kbIn.count then
        { m with
          reader := .running (call state)
          trace := m.trace ++ [.called] }
      else m
  | .running (.done state) =>
      { m with reader := .idle state, trace := m.trace ++ [.returned] }
  | .running (.get next) =>
      if m.kbIn.count ≤ 0 then m else { m with reader := .entering next }
  | .entering next =>
      let (scanCode, kbIn) := m.kbIn.takeByte
      { kbIn
        reader := .running (next scanCode)
        trace := m.trace ++ [.obtained scanCode] }

def step (m : Keyboard State) : KeyboardAction → Keyboard State
  | .interrupt scanCode => m.interrupt scanCode
  | .read => m.read call

def run (m : Keyboard State) (actions : List KeyboardAction) :
    Keyboard State :=
  actions.foldl (step call) m

end Keyboard

/-! ## The buffer is a queue -/

def observe (q : Fifo (BitVec 8)) : KeyboardEvent → Fifo (BitVec 8)
  | .arrived scanCode => q.push kbInBytes scanCode
  | .obtained scanCode => q.pop scanCode
  | .called => q
  | .returned => q

def history (trace : List KeyboardEvent) : Fifo (BitVec 8) :=
  trace.foldl observe .empty

@[simp] theorem history_concat (trace : List KeyboardEvent)
    (event : KeyboardEvent) :
    history (trace ++ [event]) = observe (history trace) event := by
  simp [history]

/-- The bytes in `buff` that wait, oldest first. -/
def KbInput.stored (kbIn : KbInput) : List (BitVec 8) :=
  contents kbIn.buff kbInBytes kbIn.pHead kbIn.count.toNat

/-- The pointers and the counter describe the queue. -/
structure Buffers (kbIn : KbInput) (q : Fifo (BitVec 8)) : Prop where
  ordered : q.Ordered
  bounded : q.waiting.length ≤ kbInBytes
  count : kbIn.count = q.waiting.length
  head : kbIn.pHead < kbInBytes
  tail : kbIn.pTail = (kbIn.pHead + q.waiting.length) % kbInBytes
  stored : kbIn.stored = q.waiting

section Buffers

variable {kbIn : KbInput} {q : Fifo (BitVec 8)}

theorem initKeyboard_buffers (kbIn : KbInput) :
    Buffers (initKeyboard kbIn) .empty where
  ordered := List.nil_prefix
  bounded := Nat.zero_le _
  count := rfl
  head := show 0 < 32 by decide
  tail := rfl
  stored := rfl

theorem keyboardHandler_of_room (scanCode : BitVec 8)
    (room : kbIn.count < kbInBytes) :
    keyboardHandler scanCode kbIn = {
      kbIn with
      buff := Function.update kbIn.buff kbIn.pTail scanCode
      pTail := advance kbInBytes kbIn.pTail
      count := kbIn.count + 1 } := by
  simp only [keyboardHandler, if_pos room, advance]
  split <;> rfl

theorem keyboardHandler_of_full (scanCode : BitVec 8)
    (full : ¬ kbIn.count < kbInBytes) :
    keyboardHandler scanCode kbIn = kbIn :=
  if_neg full

theorem keyboardHandler_count_pos (scanCode : BitVec 8)
    (positive : 0 < kbIn.count) :
    0 < (keyboardHandler scanCode kbIn).count := by
  by_cases room : kbIn.count < kbInBytes
  · rw [keyboardHandler_of_room scanCode room]
    exact Int.add_pos positive (by decide)
  · rwa [keyboardHandler_of_full scanCode room]

theorem KbInput.takeByte_eq (kbIn : KbInput) :
    kbIn.takeByte = (kbIn.buff kbIn.pHead, {
      kbIn with
      pHead := advance kbInBytes kbIn.pHead
      count := kbIn.count - 1 }) := by
  simp only [takeByte, advance]
  split <;> rfl

theorem Buffers.keyboardHandler (buffers : Buffers kbIn q)
    (scanCode : BitVec 8) :
    Buffers (keyboardHandler scanCode kbIn) (q.push kbInBytes scanCode) := by
  have count := buffers.count
  have bounded := buffers.bounded
  by_cases room : q.waiting.length < kbInBytes
  · obtain ⟨ordered, waiting⟩ := buffers.ordered.push_of_room scanCode room
    have inside : kbIn.pTail < kbInBytes := by
      rw [buffers.tail]
      exact Nat.mod_lt _ (by decide)
    have storedBefore := buffers.stored
    rw [KbInput.stored, count, Int.toNat_natCast] at storedBefore
    rw [keyboardHandler_of_room scanCode (by omega)]
    exact {
      ordered
      bounded := by
        rw [waiting, List.length_append, List.length_singleton]
        exact room
      count := by
        rw [waiting, List.length_append, List.length_singleton]
        simp only [count]
        rfl
      head := buffers.head
      tail := by
        rw [waiting, List.length_append, List.length_singleton,
          advance_eq_mod inside, buffers.tail, Nat.mod_add_mod]
        rfl
      stored := by
        have next : (kbIn.count + 1).toNat = q.waiting.length + 1 := by omega
        simp only [KbInput.stored]
        rw [next, buffers.tail, contents_store _ room, storedBefore, waiting] }
  · rw [keyboardHandler_of_full scanCode (by omega),
      Fifo.push_of_full scanCode (by omega)]
    exact buffers

/-- The oldest byte is in the head slot, the others follow. -/
theorem Buffers.oldest (buffers : Buffers kbIn q) {first : BitVec 8}
    {rest : List (BitVec 8)} (waiting : q.waiting = first :: rest) :
    kbIn.buff kbIn.pHead = first ∧
      contents kbIn.buff kbInBytes (advance kbInBytes kbIn.pHead) rest.length =
        rest := by
  have count := buffers.count
  have stored := buffers.stored
  rw [waiting, List.length_cons] at count
  have left : kbIn.count.toNat = rest.length + 1 := by omega
  rw [KbInput.stored, left, contents_succ _ buffers.head, waiting,
    List.cons.injEq] at stored
  exact stored

theorem Buffers.takeByte (buffers : Buffers kbIn q) {first : BitVec 8}
    {rest : List (BitVec 8)} (waiting : q.waiting = first :: rest) :
    kbIn.takeByte.1 = first ∧ Buffers kbIn.takeByte.2 (q.pop first) := by
  have count := buffers.count
  have bounded := buffers.bounded
  obtain ⟨firstEq, restEq⟩ := buffers.oldest waiting
  obtain ⟨ordered, remains⟩ := buffers.ordered.pop waiting
  rw [waiting, List.length_cons] at count bounded
  rw [KbInput.takeByte_eq]
  exact ⟨firstEq, {
    ordered
    bounded := by
      rw [remains]
      omega
    count := by
      simp only [remains]
      omega
    head := advance_lt buffers.head
    tail := by
      simp only [remains]
      rw [advance_eq_mod buffers.head, Nat.mod_add_mod, buffers.tail,
        waiting, List.length_cons]
      congr 1
      omega
    stored := by
      have after : (kbIn.count - 1).toNat = rest.length := by omega
      rw [remains, KbInput.stored]
      simp only [after, restEq] }⟩

theorem Buffers.waiting_cons (buffers : Buffers kbIn q)
    (some : 0 < kbIn.count) : ∃ first rest, q.waiting = first :: rest := by
  have count := buffers.count
  exact List.exists_cons_of_length_pos (by omega)

end Buffers

/-! ## Any interleaving -/

namespace Keyboard

variable {State : Type} {m : Keyboard State}

/-- The buffer is the queue of the trace, and the byte that ended the waiting
loop is still there. -/
structure Consistent (m : Keyboard State) : Prop where
  buffers : Buffers m.kbIn (history m.trace)
  entering : ∀ next, m.reader = .entering next → 0 < m.kbIn.count

theorem start_consistent (kbIn : KbInput) (state : State) :
    (start kbIn state).Consistent where
  buffers := initKeyboard_buffers kbIn
  entering := nofun

theorem Consistent.interrupt (consistent : m.Consistent)
    (scanCode : BitVec 8) : (m.interrupt scanCode).Consistent where
  buffers := by
    rw [Keyboard.interrupt, history_concat]
    exact consistent.buffers.keyboardHandler scanCode
  entering := fun next entering =>
    keyboardHandler_count_pos scanCode (consistent.entering next entering)

theorem Consistent.read (consistent : m.Consistent)
    (call : State → ByteScan State) :
    (m.read call).Consistent := by
  have buffers := consistent.buffers
  unfold Keyboard.read
  split
  · split
    · exact ⟨by rwa [history_concat], nofun⟩
    · exact consistent
  · exact ⟨by rwa [history_concat], nofun⟩
  · split
    · exact consistent
    · exact ⟨buffers, fun _ _ => by simp only; omega⟩
  · rename_i next reader
    obtain ⟨first, rest, waiting⟩ :=
      buffers.waiting_cons (consistent.entering next reader)
    obtain ⟨oldest, taken⟩ := buffers.takeByte waiting
    exact ⟨by rwa [history_concat, oldest], nofun⟩

theorem Consistent.step (consistent : m.Consistent)
    (call : State → ByteScan State) (action : KeyboardAction) :
    (m.step call action).Consistent := by
  cases action with
  | interrupt scanCode => exact consistent.interrupt scanCode
  | read => exact consistent.read call

theorem Consistent.run (consistent : m.Consistent)
    (call : State → ByteScan State) (actions : List KeyboardAction) :
    (m.run call actions).Consistent := by
  induction actions generalizing m with
  | nil => exact consistent
  | cons action actions induction => exact induction (consistent.step call action)

end Keyboard

/-- The keyboard buffer is a queue of 32 bytes for every order of interrupts
and steps of the reader. -/
theorem keyboard_fifo {State : Type} (call : State → ByteScan State)
    (kbIn : KbInput) (state : State) (actions : List KeyboardAction) :
    let m := (Keyboard.start kbIn state).run call actions
    let q := history m.trace
    0 ≤ m.kbIn.count ∧ m.kbIn.count ≤ 32 ∧
      m.kbIn.pHead < 32 ∧ m.kbIn.pTail < 32 ∧
      m.kbIn.pTail = (m.kbIn.pHead + m.kbIn.count.toNat) % 32 ∧
      m.kbIn.stored = q.accepted.drop q.obtained.length ∧
      q.obtained <+: q.accepted ∧
      (∀ scanCode, keyboardHandler scanCode m.kbIn = m.kbIn ↔
        m.kbIn.count = 32) ∧
      ∀ scanCode, m.kbIn.count < 32 →
        (keyboardHandler scanCode m.kbIn).stored =
          m.kbIn.stored ++ [scanCode] := by
  intro m q
  have buffers : Buffers m.kbIn q :=
    ((Keyboard.start_consistent kbIn state).run call actions).buffers
  have count := buffers.count
  have bounded : q.waiting.length ≤ 32 := buffers.bounded
  have capacity : (kbInBytes : Int) = 32 := rfl
  have countNat : m.kbIn.count.toNat = q.waiting.length := by omega
  refine ⟨by omega, by omega, buffers.head, ?_, ?_, buffers.stored,
    buffers.ordered, ?_, ?_⟩
  · rw [buffers.tail]
    exact Nat.mod_lt _ (by decide)
  · rw [countNat]
    exact buffers.tail
  · intro scanCode
    constructor
    · intro dropped
      by_contra room
      have less : m.kbIn.count < kbInBytes := by omega
      rw [keyboardHandler_of_room scanCode less] at dropped
      have stays := congrArg KbInput.count dropped
      simp only at stays
      omega
    · intro full
      exact keyboardHandler_of_full scanCode (by omega)
  · intro scanCode room
    have less : q.waiting.length < 32 := by omega
    rw [(buffers.keyboardHandler scanCode).stored, buffers.stored,
      (buffers.ordered.push_of_room scanCode less).2]

end MiniOS
