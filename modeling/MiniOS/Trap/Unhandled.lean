import MiniOS.Driver.Printing
import MiniOS.Trap.Interrupts

/-!
# Interrupts without a handler (`idt.c`)

Only three vectors have a handler.  At every other one `isr_handler` prints
the number and returns, so the interrupted code goes on.
-/

namespace MiniOS

open X86

/-! ## `idt.c` -/

def isrHandlerPrints : Dispatch → List PrintCall
  | .call _ _ => []
  | .unhandled intNo => [{
      back := .black
      fore := .blue
      format := "Unhandled interrupt : %d\n".toList
      args := [.word intNo] }]

def unhandledLine (intNo : Word) : List Char :=
  "Unhandled interrupt : ".toList ++ (signedText intNo ++ "\n".toList)

theorem isrHandlerPrints_reports (intNo : Word) :
    Reports (isrHandlerPrints (.unhandled intNo))
      (colored .black .blue (unhandledLine intNo)) := by
  have format : "Unhandled interrupt : %d\n".toList =
      "Unhandled interrupt : ".toList ++ '%' :: 'd' :: "\n".toList := by
    decide
  have last := Renders.constant (show Literal "\n".toList by decide)
  have renders := (last.signed intNo).literal
    (show Literal "Unhandled interrupt : ".toList by decide)
  rw [isrHandlerPrints, format]
  exact renders.reports (by decide) .black .blue

theorem KernelHandlers.table_other (handlers : KernelHandlers) {vector : UInt8}
    (other : vector ≠ 14 ∧ vector ≠ 32 ∧ vector ≠ 33) :
    isrHandlerDispatch handlers.table (operand vector) =
      .unhandled (operand vector) := by
  obtain ⟨page, timer, keyboard⟩ := other
  have entry : handlers.table vector = 0 := by
    simp only [KernelHandlers.table, registerInterruptHandler]
    rw [Function.update_of_ne keyboard, Function.update_of_ne page,
      Function.update_of_ne timer]
    rfl
  rw [isrHandlerDispatch, operand_index, entry]
  exact if_neg (not_not_intro rfl)

variable {labels : Labels} {code : Code} {vector : UInt8} {s : State}

/-- An interrupt of ring 0 without a handler leaves one line on the screen and
nothing else: the code goes on where it was. -/
theorem unhandled_shown (assembled : Assembled labels code)
    (handlers : KernelHandlers) (hasStub : vector ∈ isrVectors)
    (other : vector ≠ 14 ∧ vector ≠ 32 ∧ vector ≠ 33) (errorCode eip : Word)
    (inRing0 : ring s.cs = 0)
    (protectedMode : s.eflags.bits &&& virtual8086 = 0)
    (oneSegment : ∀ sr, s.seg sr = s.seg .ds) {screen : Console}
    {t : Terminal} (shows : Shows screen t) :
    ∃ gate called screen',
      (initIdt labels.isr vector).gate = some gate ∧
      Steps code (interrupt gate (pushedErrorCode vector errorCode) (eip, s))
        (labels.isrHandler, called) ∧
      runCalls (isrHandlerPrints (isrHandlerDispatch handlers.table
        (ptRegsAt called.mem (argument called)).intNo)) screen =
          some screen' ∧
      Shows screen' (t.type (colored .black .blue
        (unhandledLine (operand vector)))) ∧
      ∀ back returned, Returned called back returned →
        ∃ resumed, Steps code (back, returned) (eip, resumed) ∧
          resumed.reg = s.reg ∧ resumed.seg = s.seg ∧ resumed.cs = s.cs ∧
          resumed.eflags = s.eflags ∧ resumed.mem = returned.mem := by
  obtain ⟨stub, member, rfl⟩ : ∃ stub ∈ idtasmStubs, stub.vector = vector := by
    rwa [isrVectors_eq, List.mem_map] at hasStub
  obtain ⟨saved, behind, ds, called, steps, here⟩ :=
    assembled.handlerCalled member errorCode eip s
  have frame :=
    interruptFrame_of_holds here.registers here.low here.frame
  obtain ⟨screen', printed, shows'⟩ :=
    isrHandlerPrints_reports (operand stub.vector) shows
  refine ⟨⟨labels.isr stub.vector, 0x08⟩, called, screen', ?_, steps, ?_,
    shows', fun back returned returns =>
      here.resumes inRing0 protectedMode oneSegment returns⟩
  · rw [initIdt_gate, if_pos hasStub]
  · rw [frame.intNo, handlers.table_other other]
    exact printed

/-- The divide error, vector 0. -/
theorem unhandled_shown_divideError :
    ∃ called screen, runCalls (isrHandlerPrints (isrHandlerDispatch
        sampleHandlers.table (ptRegsAt called.mem (argument called)).intNo))
          (consoleClear ⟨⟨fun _ => 0, []⟩, 0, 0, []⟩) = some screen ∧
      Shows screen (Terminal.clear.type
        (colored .black .blue (unhandledLine 0))) := by
  have start : Shows (consoleClear ⟨⟨fun _ => 0, []⟩, 0, 0, []⟩) .clear :=
    consoleClear_shows rfl
  obtain ⟨_, called, screen, _, _, printed, shows, _⟩ := unhandled_shown
    exampleCode_assembled sampleHandlers (show 0 ∈ isrVectors by decide)
    (by decide) 0 0xC0100000 (s := exampleState) (by decide) (by decide)
    (fun _ => rfl) start
  exact ⟨called, screen, printed, shows⟩

end MiniOS
