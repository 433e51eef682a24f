import MiniOS.Lib.Pic8259
import MiniOS.Trap.Idtasm

/-!
# Hardware interrupts (`idt.c`)

`init_8259a` programs the two controllers, `isr_handler` ends a hardware
interrupt before it calls the handler of its vector.  Devices raise their lines
at any time; the processor takes an interrupt when its flag is set and no other
one is on its way to a handler.
-/

namespace MiniOS

open Pic8259

/-! ## Ports -/

def outb (port : Nat) (byte : BitVec 8) (pair : Pair) : Option Pair :=
  if port = 0x20 then
    (pair.master.command byte).map fun master => { pair with master := master }
  else if port = 0x21 then
    some { pair with master := pair.master.data byte }
  else if port = 0xA0 then
    (pair.slave.command byte).map fun slave => { pair with slave := slave }
  else if port = 0xA1 then
    some { pair with slave := pair.slave.data byte }
  else some pair

abbrev PortWrites := List (Nat × BitVec 8)

def outbs : PortWrites → Pair → Option Pair
  | [], pair => some pair
  | (port, byte) :: writes, pair => (outb port byte pair).bind (outbs writes)

/-- `static void init_8259a()` -/
def init8259a : PortWrites := [
  (0x20, 0x11), (0xA0, 0x11),
  (0x21, 0x20),
  (0xA1, 0x28),
  (0x21, 0x04),
  (0xA1, 0x02),
  (0x21, 0x01), (0xA1, 0x01),
  (0x21, 0x0), (0xA1, 0x0)]

/-! ## Handlers -/

abbrev InterruptHandlers := UInt8 → X86.Word

def initHandlers : InterruptHandlers := fun _ => 0

/-- `void register_interrupt_handler(uint8_t n, interrupt_handler_t h)` -/
def registerInterruptHandler (n : UInt8) (h : X86.Word)
    (interruptHandlers : InterruptHandlers) : InterruptHandlers :=
  Function.update interruptHandlers n h

/-- What `isr_handler` does after the controllers are served. -/
inductive Dispatch where
  /-- `interrupt_handlers[regs->int_no](regs)` -/
  | call (handler intNo : X86.Word)
  /-- `printk_color (rc_black, rc_blue, "Unhandled interrupt : %d\n", ..)` -/
  | unhandled (intNo : X86.Word)
  deriving DecidableEq, Repr

/-- The port writes of `isr_handler`. -/
def isrHandlerWrites (intNo : X86.Word) : PortWrites :=
  if 32 ≤ intNo ∧ intNo ≤ 47 then
    (if 40 ≤ intNo then [(0xA0, 0x20)] else []) ++ [(0x20, 0x20)]
  else []

/-- The rest of `isr_handler`; an index above 255 lies behind the table. -/
def isrHandlerDispatch (interruptHandlers : InterruptHandlers)
    (intNo : X86.Word) : Dispatch :=
  let handler := interruptHandlers (UInt8.ofBitVec (intNo.setWidth 8))
  if handler ≠ 0 then .call handler intNo else .unhandled intNo

/-- The functions that `kern_init` registers. -/
structure KernelHandlers where
  timerCallback : X86.Word
  pageFault : X86.Word
  keyboardHandler : X86.Word
  timer_ne : timerCallback ≠ 0
  page_ne : pageFault ≠ 0
  keyboard_ne : keyboardHandler ≠ 0

/-- The table after `init_idt`, `init_timer`, `init_vmm` and
`init_keyboard`. -/
def KernelHandlers.table (handlers : KernelHandlers) : InterruptHandlers :=
  registerInterruptHandler 33 handlers.keyboardHandler
    (registerInterruptHandler 14 handlers.pageFault
      (registerInterruptHandler 32 handlers.timerCallback initHandlers))

/-! ## The system -/

/-- The vector of a line after `init_8259a`. -/
def irqVector : Line → UInt8
  | .master i => 32 + UInt8.ofNat i
  | .slave i => 40 + UInt8.ofNat i

inductive IrqEvent where
  /-- A device requests an interrupt on a line without a request. -/
  | raised (line : Line)
  /-- It takes the request back. -/
  | withdrawn (line : Line)
  /-- The processor takes the interrupt. -/
  | acknowledged (line : Line)
  /-- The processor takes an interrupt whose request is gone. -/
  | spurious (line : Line)
  | dispatched (dispatch : Dispatch)
  deriving DecidableEq, Repr

/-- The controllers and the processor; between the gate of a vector and its
handler are the writes of `isr_handler` still to come. -/
structure Irqs where
  pics : Pair
  interruptFlag : Bool
  entering : Option (UInt8 × PortWrites)

def Irqs.enter (pics : Pair) (vector : BitVec 8) : Irqs where
  pics := pics
  interruptFlag := false
  entering := some (UInt8.ofBitVec vector,
    isrHandlerWrites (operand (UInt8.ofBitVec vector)))

/-- Runs from the end of `init_8259a` on, with their events, the latest
first. -/
inductive IrqRun (interruptHandlers : InterruptHandlers) :
    Irqs → List IrqEvent → Prop
  | start {pair pics : Pair} (master : pair.master.isr = noLines)
      (slave : pair.slave.isr = noLines)
      (done : outbs init8259a pair = some pics) :
      IrqRun interruptHandlers ⟨pics, false, none⟩ []
  | raise {irqs : Irqs} {events : List IrqEvent} {line : Line}
      (run : IrqRun interruptHandlers irqs events)
      (device : line ≠ .master cascadeLine)
      (idle : irqs.pics.irr line = false) :
      IrqRun interruptHandlers
        { irqs with pics := irqs.pics.setIrr true line }
        (.raised line :: events)
  | withdraw {irqs : Irqs} {events : List IrqEvent} {line : Line}
      (run : IrqRun interruptHandlers irqs events)
      (requested : irqs.pics.irr line = true) :
      IrqRun interruptHandlers
        { irqs with pics := irqs.pics.setIrr false line }
        (.withdrawn line :: events)
  | acknowledge {irqs : Irqs} {events : List IrqEvent} {line : Line}
      (run : IrqRun interruptHandlers irqs events)
      (enabled : irqs.interruptFlag = true) (free : irqs.entering = none)
      (pending : irqs.pics.pending = some line) :
      IrqRun interruptHandlers
        (.enter (irqs.pics.acknowledge line) (irqs.pics.vector line))
        (.acknowledged line :: events)
  | spurious {irqs : Irqs} {events : List IrqEvent}
      (run : IrqRun interruptHandlers irqs events)
      (enabled : irqs.interruptFlag = true) (free : irqs.entering = none) :
      IrqRun interruptHandlers
        (.enter irqs.pics (irqs.pics.vector (.master 7)))
        (.spurious (.master 7) :: events)
  | spuriousSlave {irqs : Irqs} {events : List IrqEvent}
      (run : IrqRun interruptHandlers irqs events)
      (enabled : irqs.interruptFlag = true) (free : irqs.entering = none) :
      IrqRun interruptHandlers
        (.enter irqs.pics.acknowledgeSpuriousSlave
          (irqs.pics.vector (.slave 7)))
        (.spurious (.slave 7) :: events)
  | exception {irqs : Irqs} {events : List IrqEvent} {vector : UInt8}
      (run : IrqRun interruptHandlers irqs events)
      (free : irqs.entering = none) (internal : vector < 32 ∨ vector = 80) :
      IrqRun interruptHandlers (.enter irqs.pics vector.toBitVec) events
  | write {irqs : Irqs} {events : List IrqEvent} {vector : UInt8}
      {port : Nat} {byte : BitVec 8} {writes : PortWrites} {pics : Pair}
      (run : IrqRun interruptHandlers irqs events)
      (entering : irqs.entering = some (vector, (port, byte) :: writes))
      (done : outb port byte irqs.pics = some pics) :
      IrqRun interruptHandlers
        { irqs with pics := pics, entering := some (vector, writes) } events
  | dispatch {irqs : Irqs} {events : List IrqEvent} {vector : UInt8}
      (run : IrqRun interruptHandlers irqs events)
      (entering : irqs.entering = some (vector, [])) :
      IrqRun interruptHandlers { irqs with entering := none }
        (.dispatched (isrHandlerDispatch interruptHandlers (operand vector)) ::
          events)
  | compute {irqs : Irqs} {events : List IrqEvent} {interruptFlag : Bool}
      (run : IrqRun interruptHandlers irqs events)
      (free : irqs.entering = none) :
      IrqRun interruptHandlers { irqs with interruptFlag := interruptFlag }
        events

/-! ## The controllers after `init_8259a` -/

structure PicsProgrammed (pair : Pair) : Prop where
  master : pair.master.Programmed 0x20 0x04
  slave : pair.slave.Programmed 0x28 0x02

/-- Whatever state the firmware has left the chips in. -/
theorem init8259a_programs (pair : Pair) :
    ∃ pics, outbs init8259a pair = some pics ∧ PicsProgrammed pics ∧
      pics.master.irr = noLines ∧ pics.slave.irr = noLines ∧
      pics.master.isr = pair.master.isr ∧ pics.slave.isr = pair.slave.isr := by
  have mask : (fun i : Fin 8 => (0x0 : BitVec 8).getLsbD i) = noLines :=
    funext fun _ => BitVec.getLsbD_zero
  refine ⟨_, rfl, ⟨⟨rfl, rfl, rfl, rfl, mask⟩, rfl, rfl, rfl, rfl, mask⟩, rfl,
    rfl, rfl, rfl⟩

/-! ## Nothing stays in service -/

/-- What is in service while some writes of `isr_handler` are still to come. -/
inductive InService : PortWrites → Lines → Lines → Prop
  | nothing : InService [] noLines noLines
  | master {master : Lines} (one : AtMostOne master) :
      InService [(0x20, 0x20)] master noLines
  | slave {master slave : Lines} (oneMaster : AtMostOne master)
      (oneSlave : AtMostOne slave) :
      InService [(0xA0, 0x20), (0x20, 0x20)] master slave

def Irqs.writes (irqs : Irqs) : PortWrites :=
  match irqs.entering with
  | none => []
  | some (_, writes) => writes

/-- The invariant of the controllers. -/
structure IrqsInOrder (irqs : Irqs) : Prop where
  programmed : PicsProgrammed irqs.pics
  service : InService irqs.writes irqs.pics.master.isr irqs.pics.slave.isr

theorem atMostOne_noLines : AtMostOne noLines :=
  ⟨0, by simp [noLines]⟩

/-- A line in service where nothing was in service before. -/
theorem atMostOne_update (i : Fin 8) :
    AtMostOne (Function.update noLines i true) := by
  refine ⟨i, ?_⟩
  intro j set
  by_contra different
  simp [Function.update_of_ne different, noLines] at set

theorem irqVector_master :
    ∀ i : Fin 8, isrHandlerWrites (operand (irqVector (.master i))) =
      [(0x20, 0x20)] := by
  decide

theorem irqVector_slave :
    ∀ i : Fin 8, isrHandlerWrites (operand (irqVector (.slave i))) =
      [(0xA0, 0x20), (0x20, 0x20)] := by
  decide

theorem PicsProgrammed.vector_eq {pair : Pair} (programmed : PicsProgrammed pair)
    (line : Line) : UInt8.ofBitVec (pair.vector line) = irqVector line := by
  cases line with
  | master i =>
      simp only [Pair.vector, Chip.vector, programmed.master.base]
      revert i
      decide
  | slave i =>
      simp only [Pair.vector, Chip.vector, programmed.slave.base]
      revert i
      decide

namespace IrqsInOrder

variable {irqs : Irqs}

theorem idle (order : IrqsInOrder irqs) (free : irqs.entering = none) :
    irqs.pics.master.isr = noLines ∧ irqs.pics.slave.isr = noLines := by
  have service := order.service
  rw [Irqs.writes, free] at service
  generalize irqs.pics.master.isr = master at *
  generalize irqs.pics.slave.isr = slave at *
  cases service
  exact ⟨rfl, rfl⟩

theorem setIrr (order : IrqsInOrder irqs) (value : Bool) (line : Line) :
    IrqsInOrder { irqs with pics := irqs.pics.setIrr value line } := by
  obtain ⟨⟨master, slave⟩, service⟩ := order
  cases line with
  | master i => exact ⟨⟨master.setLines _ _, slave⟩, service⟩
  | slave i => exact ⟨⟨master, slave.setLines _ _⟩, service⟩

theorem acknowledge_isr {chip : Chip} {base cascade : BitVec 8}
    (programmed : chip.Programmed base cascade) (idle : chip.isr = noLines)
    (i : Fin 8) :
    (chip.acknowledge i).Programmed base cascade ∧
      AtMostOne (chip.acknowledge i).isr := by
  refine ⟨programmed.setLines _ _, ?_⟩
  simp only [Chip.acknowledge, programmed.autoEoi, idle]
  exact atMostOne_update i

theorem enter {pics : Pair} {vector : BitVec 8}
    (programmed : PicsProgrammed pics)
    (service : InService (isrHandlerWrites (operand (UInt8.ofBitVec vector)))
      pics.master.isr pics.slave.isr) :
    IrqsInOrder (.enter pics vector) :=
  ⟨programmed, service⟩

theorem acknowledge (order : IrqsInOrder irqs) (free : irqs.entering = none)
    (line : Line) :
    IrqsInOrder (.enter (irqs.pics.acknowledge line)
      (irqs.pics.vector line)) := by
  obtain ⟨masterIdle, slaveIdle⟩ := order.idle free
  have vector := order.programmed.vector_eq line
  cases line with
  | master i =>
      obtain ⟨master, one⟩ :=
        acknowledge_isr order.programmed.master masterIdle i
      refine enter ⟨master, order.programmed.slave⟩ ?_
      rw [vector, irqVector_master]
      change InService _ (irqs.pics.master.acknowledge i).isr
        irqs.pics.slave.isr
      rw [slaveIdle]
      exact .master one
  | slave i =>
      obtain ⟨master, one⟩ :=
        acknowledge_isr order.programmed.master masterIdle cascadeLine
      obtain ⟨slave, oneSlave⟩ :=
        acknowledge_isr order.programmed.slave slaveIdle i
      refine enter ⟨master, slave⟩ ?_
      rw [vector, irqVector_slave]
      exact .slave one oneSlave

theorem spurious (order : IrqsInOrder irqs) (free : irqs.entering = none) :
    IrqsInOrder (.enter irqs.pics (irqs.pics.vector (.master 7))) := by
  obtain ⟨masterIdle, slaveIdle⟩ := order.idle free
  refine enter order.programmed ?_
  rw [order.programmed.vector_eq, irqVector_master, masterIdle, slaveIdle]
  exact .master atMostOne_noLines

theorem spuriousSlave (order : IrqsInOrder irqs)
    (free : irqs.entering = none) :
    IrqsInOrder (.enter irqs.pics.acknowledgeSpuriousSlave
      (irqs.pics.vector (.slave 7))) := by
  obtain ⟨masterIdle, slaveIdle⟩ := order.idle free
  obtain ⟨master, one⟩ :=
    acknowledge_isr order.programmed.master masterIdle cascadeLine
  refine enter ⟨master, order.programmed.slave⟩ ?_
  rw [order.programmed.vector_eq, irqVector_slave]
  change InService _ (irqs.pics.master.acknowledge cascadeLine).isr
    irqs.pics.slave.isr
  rw [slaveIdle]
  exact .slave one atMostOne_noLines

theorem exception (order : IrqsInOrder irqs) (free : irqs.entering = none)
    {vector : UInt8} (internal : vector < 32 ∨ vector = 80) :
    IrqsInOrder (.enter irqs.pics vector.toBitVec) := by
  obtain ⟨masterIdle, slaveIdle⟩ := order.idle free
  have writes : isrHandlerWrites (operand vector) = [] := by
    apply if_neg
    rintro ⟨lower, upper⟩
    have small := vector.toNat_lt
    simp [operand, BitVec.le_def] at lower upper
    rcases internal with low | rfl
    · rw [UInt8.lt_iff_toNat_lt] at low
      simp only [UInt8.reduceToNat] at low
      omega
    · exact absurd upper (by decide)
  refine enter order.programmed ?_
  change InService (isrHandlerWrites (operand vector)) _ _
  rw [writes, masterIdle, slaveIdle]
  exact .nothing

theorem write (order : IrqsInOrder irqs) {vector : UInt8} {port : Nat}
    {byte : BitVec 8} {writes : PortWrites} {pics : Pair}
    (entering : irqs.entering = some (vector, (port, byte) :: writes))
    (done : outb port byte irqs.pics = some pics) :
    IrqsInOrder
      { irqs with pics := pics, entering := some (vector, writes) } := by
  obtain ⟨⟨master, slave⟩, service⟩ := order
  rw [Irqs.writes, entering] at service
  generalize masterEq : irqs.pics.master.isr = masterIsr at service
  generalize slaveEq : irqs.pics.slave.isr = slaveIsr at service
  cases service with
  | master one =>
      cases done
      refine ⟨⟨master.endOfInterrupt, slave⟩, ?_⟩
      have clear := Chip.endOfInterrupt_isr (masterEq ▸ one)
      change InService [] irqs.pics.master.endOfInterrupt.isr
        irqs.pics.slave.isr
      rw [clear, slaveEq]
      exact .nothing
  | slave oneMaster oneSlave =>
      cases done
      refine ⟨⟨master, slave.endOfInterrupt⟩, ?_⟩
      have clear := Chip.endOfInterrupt_isr (slaveEq ▸ oneSlave)
      change InService [(0x20, 0x20)] irqs.pics.master.isr
        irqs.pics.slave.endOfInterrupt.isr
      rw [clear, masterEq]
      exact .master oneMaster

end IrqsInOrder

theorem IrqRun.inOrder {interruptHandlers : InterruptHandlers} {irqs : Irqs}
    {events : List IrqEvent} (run : IrqRun interruptHandlers irqs events) :
    IrqsInOrder irqs := by
  induction run with
  | @start pair pics master slave done =>
      obtain ⟨pics', done', programmed, _, _, masterIsr, slaveIsr⟩ :=
        init8259a_programs pair
      rw [done, Option.some.injEq] at done'
      subst done'
      refine ⟨programmed, ?_⟩
      change InService [] pics.master.isr pics.slave.isr
      rw [masterIsr, slaveIsr, master, slave]
      exact .nothing
  | raise run device idle induction => exact induction.setIrr _ _
  | withdraw run requested induction => exact induction.setIrr _ _
  | acknowledge run enabled free pending induction =>
      exact induction.acknowledge free _
  | spurious run enabled free induction => exact induction.spurious free
  | spuriousSlave run enabled free induction =>
      exact induction.spuriousSlave free
  | exception run free internal induction =>
      exact induction.exception free internal
  | write run entering done induction => exact induction.write entering done
  | dispatch run entering induction =>
      refine ⟨induction.programmed, ?_⟩
      have service := induction.service
      rw [Irqs.writes, entering] at service
      exact service
  | compute run free induction => exact ⟨induction.programmed, by
      have service := induction.service
      rw [Irqs.writes, free] at service
      rw [Irqs.writes, free]
      exact service⟩

/-! ## One tick -/

def sampleChip : Chip :=
  ⟨.ready, false, true, 0x08, 0, true, false, noLines, noLines, noLines⟩

/-- The controllers when a line is raised after `init_8259a`. -/
def samplePics (line : Line) : Pair :=
  ((outbs init8259a ⟨sampleChip, sampleChip⟩).getD
    ⟨sampleChip, sampleChip⟩).setIrr true line

theorem sampleRaised_run (interruptHandlers : InterruptHandlers) :
    IrqRun interruptHandlers ⟨samplePics (.master 0), true, none⟩
      [.raised (.master 0)] := by
  have raised : IrqRun interruptHandlers ⟨samplePics (.master 0), false, none⟩
      [.raised (.master 0)] :=
    (IrqRun.start rfl rfl rfl).raise (by decide) rfl
  exact raised.compute rfl

/-- While a handler or a thread runs, no interrupt is in service: with the
interrupt flag set a request of any device gets through. -/
theorem irqs_never_blocked {interruptHandlers : InterruptHandlers}
    {irqs : Irqs} {events : List IrqEvent}
    (run : IrqRun interruptHandlers irqs events)
    (free : irqs.entering = none) :
    irqs.pics.master.isr = noLines ∧ irqs.pics.slave.isr = noLines ∧
      (irqs.interruptFlag = true → ∀ line, line ≠ .master cascadeLine →
        irqs.pics.irr line = true →
        ∃ first, IrqRun interruptHandlers
          (.enter (irqs.pics.acknowledge first) (irqs.pics.vector first))
          (.acknowledged first :: events)) := by
  have order := run.inOrder
  obtain ⟨masterIdle, slaveIdle⟩ := order.idle free
  refine ⟨masterIdle, slaveIdle, ?_⟩
  intro enabled line device set
  obtain ⟨first, pending⟩ := Pair.exists_pending order.programmed.master
    order.programmed.slave masterIdle slaveIdle device set
  exact ⟨first, run.acknowledge enabled free pending⟩

theorem irqs_never_blocked_sample :
    ∃ first, IrqRun initHandlers
      (.enter ((samplePics (.master 0)).acknowledge first)
        ((samplePics (.master 0)).vector first))
      [.acknowledged first, .raised (.master 0)] :=
  (irqs_never_blocked (sampleRaised_run initHandlers) rfl).2.2 rfl (.master 0)
    (by decide) rfl

/-! ## Each interrupt is handled once -/

def Irqs.on (irqs : Irqs) (line : Line) : Bool :=
  irqs.entering.map Prod.fst == some (irqVector line)

/-- Requests and interrupts are accounted for. -/
structure IrqsAccounted (interruptHandlers : InterruptHandlers) (irqs : Irqs)
    (events : List IrqEvent) : Prop where
  cascade : irqs.pics.master.irr cascadeLine = false
  requests : ∀ line, events.count (.raised line) =
    events.count (.withdrawn line) + events.count (.acknowledged line) +
      (irqs.pics.irr line).toNat
  handled : ∀ line, events.count (.acknowledged line) +
      events.count (.spurious line) =
    events.count (.dispatched (isrHandlerDispatch interruptHandlers
      (operand (irqVector line)))) + (irqs.on line).toNat

theorem irqVector_injective {line other : Line}
    (same : irqVector line = irqVector other) : line = other := by
  cases line with
  | master i =>
    cases other with
    | master j =>
        congr 1
        revert i j
        decide
    | slave j =>
        exfalso
        revert i j
        decide
  | slave i =>
    cases other with
    | master j =>
        exfalso
        revert i j
        decide
    | slave j =>
        congr 1
        revert i j
        decide

theorem irqVector_external (line : Line) :
    ¬(irqVector line < 32 ∨ irqVector line = 80) := by
  cases line with
  | master i =>
      revert i
      decide
  | slave i =>
      revert i
      decide

def Dispatch.intNo : Dispatch → X86.Word
  | .call _ intNo => intNo
  | .unhandled intNo => intNo

theorem isrHandlerDispatch_intNo (interruptHandlers : InterruptHandlers)
    (intNo : X86.Word) :
    (isrHandlerDispatch interruptHandlers intNo).intNo = intNo := by
  simp only [isrHandlerDispatch]
  split <;> rfl

theorem operand_injective {n m : UInt8} (same : operand n = operand m) :
    n = m := by
  have values := congrArg BitVec.toNat same
  have small := n.toNat_lt
  have small' := m.toNat_lt
  simp only [operand, BitVec.toNat_ofNat] at values
  apply UInt8.toNat_inj.mp
  omega

namespace IrqsAccounted

variable {interruptHandlers : InterruptHandlers} {irqs : Irqs}
  {events : List IrqEvent} {line : Line}

theorem raise (accounted : IrqsAccounted interruptHandlers irqs events)
    (device : line ≠ .master cascadeLine)
    (idle : irqs.pics.irr line = false) :
    IrqsAccounted interruptHandlers
      { irqs with pics := irqs.pics.setIrr true line }
      (.raised line :: events) := by
  refine ⟨?_, ?_, ?_⟩
  · have kept := irqs.pics.setIrr_irr true line (.master cascadeLine)
    rw [if_neg device.symm] at kept
    exact kept.trans accounted.cascade
  · intro other
    have requests := accounted.requests other
    simp only [List.count_cons, irqs.pics.setIrr_irr]
    by_cases same : other = line
    · subst same
      simp [idle] at requests ⊢
      omega
    · simp [same, Ne.symm same]
      exact requests
  · intro other
    have handled := accounted.handled other
    simpa [List.count_cons, Irqs.on] using handled

theorem withdraw (accounted : IrqsAccounted interruptHandlers irqs events)
    (requested : irqs.pics.irr line = true) :
    IrqsAccounted interruptHandlers
      { irqs with pics := irqs.pics.setIrr false line }
      (.withdrawn line :: events) := by
  refine ⟨?_, ?_, ?_⟩
  · have kept := irqs.pics.setIrr_irr false line (.master cascadeLine)
    refine kept.trans ?_
    split
    · rfl
    · exact accounted.cascade
  · intro other
    have requests := accounted.requests other
    simp only [List.count_cons, irqs.pics.setIrr_irr]
    by_cases same : other = line
    · subst same
      simp [requested] at requests ⊢
      omega
    · simp [same, Ne.symm same]
      exact requests
  · intro other
    have handled := accounted.handled other
    simpa [List.count_cons, Irqs.on] using handled

theorem free_on (free : irqs.entering = none) (line : Line) :
    irqs.on line = false := by
  rw [Irqs.on, free]
  rfl

theorem enter_on {pics : Pair} {vector : BitVec 8} (other : Line)
    (through : UInt8.ofBitVec vector = irqVector line) :
    (Irqs.enter pics vector).on other = decide (other = line) := by
  simp only [Irqs.on, Irqs.enter, through, Option.map_some]
  by_cases same : other = line
  · simp [same]
  · have different : irqVector line ≠ irqVector other :=
      fun equal => same (irqVector_injective equal).symm
    simp [same, different]

theorem acknowledge (accounted : IrqsAccounted interruptHandlers irqs events)
    (order : IrqsInOrder irqs) (free : irqs.entering = none)
    (pending : irqs.pics.pending = some line) :
    IrqsAccounted interruptHandlers
      (.enter (irqs.pics.acknowledge line) (irqs.pics.vector line))
      (.acknowledged line :: events) := by
  have irr := Pair.acknowledge_irr accounted.cascade line
  have set : irqs.pics.irr line = true := by
    cases line with
    | master i =>
        have wired : irqs.pics.master.cascade.getLsbD cascadeLine = true := by
          rw [order.programmed.master.cascade]
          decide
        exact (Pair.pending_master wired pending).2
    | slave j => exact Pair.pending_slave pending
  refine ⟨?_, ?_, ?_⟩
  · refine (irr (.master cascadeLine)).trans ?_
    split
    · rfl
    · exact accounted.cascade
  · intro other
    have requests := accounted.requests other
    change _ = _ + ((irqs.pics.acknowledge line).irr other).toNat
    rw [irr]
    simp only [List.count_cons]
    by_cases same : other = line
    · subst same
      simp [set] at requests ⊢
      omega
    · simp [same, Ne.symm same]
      exact requests
  · intro other
    have handled := accounted.handled other
    rw [free_on free] at handled
    rw [enter_on other (order.programmed.vector_eq line)]
    simp only [List.count_cons]
    by_cases same : other = line
    · subst same
      simp at handled ⊢
      omega
    · simp [same, Ne.symm same] at handled ⊢
      exact handled

/-- A spurious interrupt, whatever it has done to what is in service. -/
theorem spurious {pics : Pair}
    (accounted : IrqsAccounted interruptHandlers irqs events)
    (free : irqs.entering = none) {vector : BitVec 8}
    (through : UInt8.ofBitVec vector = irqVector line)
    (same : ∀ other, pics.irr other = irqs.pics.irr other) :
    IrqsAccounted interruptHandlers (.enter pics vector)
      (.spurious line :: events) := by
  refine ⟨(same (.master cascadeLine)).trans accounted.cascade, ?_, ?_⟩
  · intro other
    have requests := accounted.requests other
    change _ = _ + (pics.irr other).toNat
    rw [same]
    simpa [List.count_cons] using requests
  · intro other
    have handled := accounted.handled other
    rw [free_on free] at handled
    rw [enter_on other through]
    simp only [List.count_cons]
    by_cases equal : other = line
    · subst equal
      simp at handled ⊢
      omega
    · simp [equal, Ne.symm equal] at handled ⊢
      exact handled

theorem exception (accounted : IrqsAccounted interruptHandlers irqs events)
    (free : irqs.entering = none) {vector : UInt8}
    (internal : vector < 32 ∨ vector = 80) :
    IrqsAccounted interruptHandlers (.enter irqs.pics vector.toBitVec)
      events := by
  refine ⟨accounted.cascade, accounted.requests, ?_⟩
  intro other
  have handled := accounted.handled other
  have different : vector ≠ irqVector other :=
    fun same => irqVector_external other (same ▸ internal)
  have off : (Irqs.enter irqs.pics vector.toBitVec).on other = false := by
    simp [Irqs.on, Irqs.enter, different]
  rw [off]
  rwa [free_on free] at handled

theorem write (accounted : IrqsAccounted interruptHandlers irqs events)
    (order : IrqsInOrder irqs) {vector : UInt8} {port : Nat}
    {byte : BitVec 8} {writes : PortWrites} {pics : Pair}
    (entering : irqs.entering = some (vector, (port, byte) :: writes))
    (done : outb port byte irqs.pics = some pics) :
    IrqsAccounted interruptHandlers
      { irqs with pics := pics, entering := some (vector, writes) }
      events := by
  have same : ∀ other, pics.irr other = irqs.pics.irr other := by
    have service := order.service
    rw [Irqs.writes, entering] at service
    generalize irqs.pics.master.isr = masterIsr at service
    generalize irqs.pics.slave.isr = slaveIsr at service
    cases service with
    | master one =>
        cases done
        intro other
        cases other with
        | master i =>
            simp only [Pair.irr]
            rw [Chip.endOfInterrupt_eq]
        | slave i => rfl
    | slave oneMaster oneSlave =>
        cases done
        intro other
        cases other with
        | master i => rfl
        | slave i =>
            simp only [Pair.irr]
            rw [Chip.endOfInterrupt_eq]
  refine ⟨(same (.master cascadeLine)).trans accounted.cascade, ?_, ?_⟩
  · intro other
    rw [same]
    exact accounted.requests other
  · intro other
    have handled := accounted.handled other
    rw [Irqs.on, entering] at handled
    exact handled

theorem dispatch (accounted : IrqsAccounted interruptHandlers irqs events)
    {vector : UInt8} (entering : irqs.entering = some (vector, [])) :
    IrqsAccounted interruptHandlers { irqs with entering := none }
      (.dispatched (isrHandlerDispatch interruptHandlers (operand vector)) ::
        events) := by
  refine ⟨accounted.cascade, ?_, ?_⟩
  · intro other
    have requests := accounted.requests other
    simpa [List.count_cons] using requests
  · intro other
    have handled := accounted.handled other
    rw [Irqs.on, entering] at handled
    by_cases same : vector = irqVector other
    · subst same
      simp [Irqs.on] at handled ⊢
      omega
    · have different : isrHandlerDispatch interruptHandlers (operand vector) ≠
          isrHandlerDispatch interruptHandlers
            (operand (irqVector other)) := by
        intro equal
        have intNo := congrArg Dispatch.intNo equal
        rw [isrHandlerDispatch_intNo, isrHandlerDispatch_intNo] at intNo
        exact same (operand_injective intNo)
      have other : (vector == irqVector other) = false :=
        beq_eq_false_iff_ne.mpr same
      simpa [List.count_cons, Irqs.on, different, other] using handled

end IrqsAccounted

theorem IrqRun.accounted {interruptHandlers : InterruptHandlers} {irqs : Irqs}
    {events : List IrqEvent} (run : IrqRun interruptHandlers irqs events) :
    IrqsAccounted interruptHandlers irqs events := by
  induction run with
  | @start pair pics master slave done =>
      obtain ⟨pics', done', _, masterIrr, slaveIrr, _, _⟩ :=
        init8259a_programs pair
      rw [done, Option.some.injEq] at done'
      subst done'
      refine ⟨congrFun masterIrr cascadeLine, ?_, by simp [Irqs.on]⟩
      intro line
      cases line <;> simp [Pair.irr, masterIrr, slaveIrr, noLines]
  | raise run device idle induction => exact induction.raise device idle
  | withdraw run requested induction => exact induction.withdraw requested
  | acknowledge run enabled free pending induction =>
      exact induction.acknowledge run.inOrder free pending
  | spurious run enabled free induction =>
      exact induction.spurious free
        (run.inOrder.programmed.vector_eq (.master 7)) fun _ => rfl
  | @spuriousSlave irqs events run enabled free induction =>
      refine induction.spurious free
        (run.inOrder.programmed.vector_eq (.slave 7)) ?_
      intro other
      cases other with
      | master i =>
          have clear := induction.cascade
          simp only [Pair.irr, Pair.acknowledgeSpuriousSlave,
            Chip.acknowledge, Function.update_apply]
          split
          · rename_i same
            rw [same, clear]
          · rfl
      | slave i => rfl
  | exception run free internal induction =>
      exact induction.exception free internal
  | write run entering done induction =>
      exact induction.write run.inOrder entering done
  | dispatch run entering induction => exact induction.dispatch entering
  | compute run free induction =>
      exact ⟨induction.cascade, induction.requests, induction.handled⟩

theorem operand_index (n : UInt8) :
    UInt8.ofBitVec ((operand n).setWidth 8) = n := by
  have small := n.toNat_lt
  apply UInt8.toNat_inj.mp
  simp only [operand, UInt8.toNat_ofBitVec, BitVec.toNat_setWidth,
    BitVec.toNat_ofNat]
  omega

/-- The handler that the kernel has for a line. -/
def KernelHandlers.irq (handlers : KernelHandlers) : Line → Dispatch
  | .master 0 => .call handlers.timerCallback 32
  | .master 1 => .call handlers.keyboardHandler 33
  | line => .unhandled (operand (irqVector line))

theorem KernelHandlers.table_irq (handlers : KernelHandlers) (line : Line) :
    isrHandlerDispatch handlers.table (operand (irqVector line)) =
      handlers.irq line := by
  have index : UInt8.ofBitVec ((operand (irqVector line)).setWidth 8) =
      irqVector line := operand_index (irqVector line)
  have entry : ∀ handler : X86.Word,
      handlers.table (irqVector line) = handler → handler ≠ 0 →
      isrHandlerDispatch handlers.table (operand (irqVector line)) =
        .call handler (operand (irqVector line)) := by
    intro handler there nonzero
    rw [isrHandlerDispatch, index, there, if_pos nonzero]
  unfold KernelHandlers.irq
  split
  · exact entry handlers.timerCallback rfl handlers.timer_ne
  · exact entry handlers.keyboardHandler rfl handlers.keyboard_ne
  · rename_i notTimer notKeyboard
    have keyboard : irqVector line ≠ 33 := fun same =>
      notKeyboard (irqVector_injective
        (same : irqVector line = irqVector (.master 1)))
    have timer : irqVector line ≠ 32 := fun same =>
      notTimer (irqVector_injective
        (same : irqVector line = irqVector (.master 0)))
    have page : irqVector line ≠ 14 := fun same =>
      irqVector_external line (.inl (same ▸ by decide))
    have empty : handlers.table (irqVector line) = 0 := by
      simp [KernelHandlers.table, registerInterruptHandler, initHandlers,
        keyboard, timer, page]
    rw [isrHandlerDispatch, index, empty]
    rfl

/-- Every request of a device is taken back, waits in the controller or has
become one interrupt; every interrupt is on its way to its handler or has
reached it, once. -/
theorem irqs_handled_once {handlers : KernelHandlers} {irqs : Irqs}
    {events : List IrqEvent} (run : IrqRun handlers.table irqs events)
    (line : Line) :
    events.count (.raised line) = events.count (.withdrawn line) +
        events.count (.acknowledged line) + (irqs.pics.irr line).toNat ∧
      events.count (.acknowledged line) + events.count (.spurious line) =
        events.count (.dispatched (handlers.irq line)) +
          (irqs.on line).toNat := by
  have accounted := run.accounted
  refine ⟨accounted.requests line, ?_⟩
  rw [← handlers.table_irq]
  exact accounted.handled line

def sampleHandlers : KernelHandlers where
  timerCallback := 0xC0101000
  pageFault := 0xC0102000
  keyboardHandler := 0xC0103000
  timer_ne := by decide
  page_ne := by decide
  keyboard_ne := by decide

theorem irqs_handled_once_sample :
    ∃ irqs, IrqRun sampleHandlers.table irqs
        [.dispatched (sampleHandlers.irq (.master 0)),
          .acknowledged (.master 0), .raised (.master 0)] ∧
      [IrqEvent.dispatched (sampleHandlers.irq (.master 0)),
        .acknowledged (.master 0), .raised (.master 0)].count
          (.raised (.master 0)) = 1 + (irqs.pics.irr (.master 0)).toNat := by
  have taken : IrqRun sampleHandlers.table
      (.enter ((samplePics (.master 0)).acknowledge (.master 0))
        ((samplePics (.master 0)).vector (.master 0)))
      [.acknowledged (.master 0), .raised (.master 0)] :=
    (sampleRaised_run sampleHandlers.table).acknowledge rfl rfl (by decide)
  have run := (taken.write rfl rfl).dispatch rfl
  exact ⟨_, run, (irqs_handled_once run (.master 0)).1⟩

end MiniOS
