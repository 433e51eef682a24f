import MiniOS.Boot.KernInit
import MiniOS.Driver.Printing

/-!
# What the boot prints (`entry.c`)

`kern_init` with its calls of `printk`: the free memory it reports is that of
the page stack, and the blocks that it asks for are where it says.
-/

namespace MiniOS

open Console

/-! ## `kern_init` with its output -/

/-- Memory, threads and the screen; `none` is a call of `printk` that C leaves
open. -/
abbrev BootM := EStateM (Option Stop) (ThreadState × Console)

def withScreen {α : Type} (screen : Console) :
    EStateM.Result Stop ThreadState α →
      EStateM.Result (Option Stop) (ThreadState × Console) α
  | .ok a s => .ok a (s, screen)
  | .error stop s => .error (some stop) (s, screen)

def onThreads {α : Type} (routine : ThreadM α) : BootM α :=
  fun (s, screen) => withScreen screen (routine s)

def onScreen (call : PrintCall) : BootM Unit := fun (s, screen) =>
  match call.run screen with
  | some screen' => .ok () (s, screen')
  | none => .error none (s, screen)

/-- `phy_page_count * 4 / 1024` -/
def freeMegabytes (phyPageCount : Nat) : Nat :=
  uint32 (phyPageCount * 4) / 1024

def freeMemoryCall (phyPageCount : Nat) : PrintCall where
  back := .black
  fore := .red
  format := "\nfree physical memory: %u MB\n".toList
  args := [.word (BitVec.ofNat 32 (freeMegabytes phyPageCount))]

def testCall : PrintCall where
  back := .black
  fore := .magenta
  format := "\ntest kmalloc() && kfree() now ...\n\n".toList
  args := []

def addressCall (format : String) (address : Nat) : PrintCall :=
  .plain format [.word (BitVec.ofNat 32 address)]

/-- `void kern_init()` -/
def kernInitPrinted (img : KernelImage) (idle : Nat)
    (glbMbootPtr : Multiboot) (kernStack taskTty kthreadExit : Nat) :
    BootM Nat := do
  modify fun (s, screen) => (s, consoleClear screen)
  onThreads (initMemory img idle glbMbootPtr kernStack)
  let state ← get
  onScreen (freeMemoryCall state.1.kernel.phyPageCount)
  onScreen testCall
  let addr2 ← onThreads (onKernel (kmalloc img.pgdKern 500))
  onScreen (addressCall "kmalloc   500 byte in 0x%X\n" addr2)
  let addr3 ← onThreads (onKernel (kmalloc img.pgdKern 5000))
  onScreen (addressCall "kmalloc  5000 byte in 0x%X\n" addr3)
  let addr4 ← onThreads (onKernel (kmalloc img.pgdKern 50000))
  onScreen (addressCall "kmalloc 50000 byte in 0x%X\n\n" addr4)
  onScreen (addressCall "free mem in 0x%X\n" addr2)
  onThreads (onKernel (kfree img.pgdKern addr2))
  onScreen (addressCall "free mem in 0x%X\n" addr3)
  onThreads (onKernel (kfree img.pgdKern addr3))
  onScreen (addressCall "free mem in 0x%X\n\n" addr4)
  onThreads (onKernel (kfree img.pgdKern addr4))
  onThreads (kernelThreadPaged idle img.pgdKern taskTty kthreadExit 0)

/-! ## The calls -/

section Calls

variable {s s' : ThreadState} {screen : Console} {t : Terminal}

theorem onThreads_of_ok {α : Type} {routine : ThreadM α} {a : α}
    (returned : routine s = .ok a s') (screen : Console) :
    onThreads routine (s, screen) = .ok a (s', screen) := by
  rw [onThreads, returned, withScreen]

theorem onScreen_of_reports {call : PrintCall} {report : List ColoredChar}
    (reports : Reports [call] report) (shows : Shows screen t)
    (s : ThreadState) :
    ∃ screen', onScreen call (s, screen) = .ok () (s, screen') ∧
      Shows screen' (t.type report) := by
  obtain ⟨screen', printed, shows'⟩ := reports shows
  have ran : call.run screen = some screen' := by
    rw [runCalls, List.foldlM_cons] at printed
    obtain ⟨last, ran, rest⟩ := Option.bind_eq_some_iff.mp printed
    obtain rfl := Option.some.inj rest
    exact ran
  refine ⟨screen', ?_, shows'⟩
  rw [onScreen, ran]

theorem freeMemoryCall_reports (phyPageCount : Nat) :
    Reports [freeMemoryCall phyPageCount] (colored .black .red
      ("\nfree physical memory: ".toList ++ (decimalText
        (BitVec.ofNat 32 (freeMegabytes phyPageCount)) ++
          " MB\n".toList))) := by
  have format : "\nfree physical memory: %u MB\n".toList =
      "\nfree physical memory: ".toList ++ '%' :: 'u' :: " MB\n".toList := by
    decide
  have last := Renders.constant (show Literal " MB\n".toList by decide)
  have renders := (last.decimal (BitVec.ofNat 32
    (freeMegabytes phyPageCount))).literal
      (show Literal "\nfree physical memory: ".toList by decide)
  rw [freeMemoryCall, format]
  exact renders.reports (by decide) .black .red

theorem testCall_reports :
    Reports [testCall] (colored .black .magenta
      "\ntest kmalloc() && kfree() now ...\n\n".toList) := by
  have plain : Literal "\ntest kmalloc() && kfree() now ...\n\n".toList := by
    decide
  exact (Renders.constant plain).reports (by decide) .black .magenta

def addressLine (first : String) (address : Nat) (last : String) :
    List ColoredChar :=
  colored .black .white (first.toList ++
    (upperHexText (BitVec.ofNat 32 address) ++ last.toList))

example : upperHexText 0xE00015A0 = "E00015A0".toList := by decide

theorem addressCall_reports {format : String} {first last : List Char}
    (shape : format.toList = first ++ '%' :: 'X' :: last)
    (plain : Literal first ∧ Literal last)
    (short : first.length + (32 + last.length) < bufferSize)
    (address : Nat) :
    Reports [addressCall format address] (colored .black .white
      (first ++ (upperHexText (BitVec.ofNat 32 address) ++ last))) := by
  have renders := ((Renders.constant plain.2).upperHex
    (BitVec.ofNat 32 address)).literal plain.1
  rw [← shape] at renders
  exact renders.plain short

theorem kmalloc500_line (address : Nat) :
    Reports [addressCall "kmalloc   500 byte in 0x%X\n" address]
      (addressLine "kmalloc   500 byte in 0x" address "\n") :=
  addressCall_reports
    (show _ = "kmalloc   500 byte in 0x".toList ++ '%' :: 'X' ::
      "\n".toList by decide) (by decide) (by decide) address

theorem kmalloc5000_line (address : Nat) :
    Reports [addressCall "kmalloc  5000 byte in 0x%X\n" address]
      (addressLine "kmalloc  5000 byte in 0x" address "\n") :=
  addressCall_reports
    (show _ = "kmalloc  5000 byte in 0x".toList ++ '%' :: 'X' ::
      "\n".toList by decide) (by decide) (by decide) address

theorem kmalloc50000_line (address : Nat) :
    Reports [addressCall "kmalloc 50000 byte in 0x%X\n\n" address]
      (addressLine "kmalloc 50000 byte in 0x" address "\n\n") :=
  addressCall_reports
    (show _ = "kmalloc 50000 byte in 0x".toList ++ '%' :: 'X' ::
      "\n\n".toList by decide) (by decide) (by decide) address

theorem kfree_line (address : Nat) :
    Reports [addressCall "free mem in 0x%X\n" address]
      (addressLine "free mem in 0x" address "\n") :=
  addressCall_reports
    (show _ = "free mem in 0x".toList ++ '%' :: 'X' ::
      "\n".toList by decide) (by decide) (by decide) address

theorem lastKfree_line (address : Nat) :
    Reports [addressCall "free mem in 0x%X\n\n" address]
      (addressLine "free mem in 0x" address "\n\n") :=
  addressCall_reports
    (show _ = "free mem in 0x".toList ++ '%' :: 'X' ::
      "\n\n".toList by decide) (by decide) (by decide) address

end Calls

/-! ## Output changes nothing of the boot -/

/-- Whatever terminal the screen shows, the printing routine does to memory and
threads what the routine does, and a screen is shown again. -/
def Erases {α : Type} (printed : BootM α) (routine : ThreadM α) : Prop :=
  ∀ s screen t, Shows screen t → ∃ screen' t', Shows screen' t' ∧
    printed (s, screen) = withScreen screen' (routine s)

namespace Erases

variable {α β : Type}

theorem onThreads (routine : ThreadM α) :
    Erases (onThreads routine) routine :=
  fun _ screen t shows => ⟨screen, t, shows, rfl⟩

theorem bind {printed : BootM α} {routine : ThreadM α}
    {printedNext : α → BootM β} {next : α → ThreadM β}
    (first : Erases printed routine)
    (later : ∀ a, Erases (printedNext a) (next a)) :
    Erases (printed >>= printedNext) (routine >>= next) := by
  intro s screen t shows
  obtain ⟨screen₁, t₁, shows₁, same⟩ := first s screen t shows
  cases step : routine s with
  | ok a s₁ =>
      rw [step] at same
      obtain ⟨screen', t', shows', rest⟩ := later a s₁ screen₁ t₁ shows₁
      refine ⟨screen', t', shows', ?_⟩
      rw [Outcome.bind_of_ok same, Outcome.bind_of_ok step]
      exact rest
  | error stop s₁ =>
      rw [step] at same
      refine ⟨screen₁, t₁, shows₁, ?_⟩
      rw [Outcome.bind_of_error same, Outcome.bind_of_error step]
      rfl

theorem print {call : PrintCall} {report : List ColoredChar}
    {printed : BootM α} {routine : ThreadM α}
    (reports : Reports [call] report) (later : Erases printed routine) :
    Erases (onScreen call >>= fun _ => printed) routine := by
  intro s screen t shows
  obtain ⟨screen₁, ran, shows₁⟩ := onScreen_of_reports reports shows s
  obtain ⟨screen', t', shows', rest⟩ := later s screen₁ _ shows₁
  refine ⟨screen', t', shows', ?_⟩
  rw [Outcome.bind_of_ok ran]
  exact rest

theorem get {printed : ThreadState × Console → BootM α}
    {routine : ThreadM α} (later : ∀ state, Erases (printed state) routine) :
    Erases (MonadState.get >>= printed) routine :=
  fun s screen t shows => later (s, screen) s screen t shows

end Erases

/-- With its output `kern_init` does to memory and threads what it does without
it, whether it returns or stops. -/
theorem kernInitPrinted_eq (img : KernelImage) (idle : Nat)
    (glbMbootPtr : Multiboot) (kernStack taskTty kthreadExit : Nat)
    (s : ThreadState) {screen : Console}
    (untouched : screen.videoMemory.stores = []) :
    ∃ screen' t', Shows screen' t' ∧
      kernInitPrinted img idle glbMbootPtr kernStack taskTty kthreadExit
          (s, screen) =
        withScreen screen' (kernInit img idle glbMbootPtr kernStack taskTty
          kthreadExit s) := by
  have cleared : (modify fun (s, screen) => (s, consoleClear screen) :
      BootM PUnit) (s, screen) = .ok ⟨⟩ (s, consoleClear screen) := rfl
  rw [kernInitPrinted, kernInit, Outcome.bind_of_ok cleared]
  -- call by call: what is done to memory and threads, then its line
  refine Erases.bind (.onThreads _) (fun _ => ?_) s _ _
    (consoleClear_shows untouched)
  refine .get fun state => .print (freeMemoryCall_reports _)
    (.print testCall_reports ?_)
  refine .bind (.onThreads _) fun addr2 => .print (kmalloc500_line addr2) ?_
  refine .bind (.onThreads _) fun addr3 => .print (kmalloc5000_line addr3) ?_
  refine .bind (.onThreads _) fun addr4 => .print (kmalloc50000_line addr4) ?_
  refine .print (kfree_line addr2) (.bind (.onThreads _) fun _ => ?_)
  refine .print (kfree_line addr3) (.bind (.onThreads _) fun _ => ?_)
  exact .print (lastKfree_line addr4) (.bind (.onThreads _) fun _ =>
    .onThreads _)

/-! ## The log -/

/-- What the screen shows after a boot with so many frames. -/
def bootLog (frames : Nat) : List ColoredChar :=
  colored .black .red ("\nfree physical memory: ".toList ++
    (decimalText (BitVec.ofNat 32 (frames * 4 / 1024)) ++
      " MB\n".toList)) ++
  colored .black .magenta
    "\ntest kmalloc() && kfree() now ...\n\n".toList ++
  addressLine "kmalloc   500 byte in 0x" 0xE000000C "\n" ++
  addressLine "kmalloc  5000 byte in 0x" 0xE000020C "\n" ++
  addressLine "kmalloc 50000 byte in 0x" 0xE00015A0 "\n\n" ++
  addressLine "free mem in 0x" 0xE000000C "\n" ++
  addressLine "free mem in 0x" 0xE000020C "\n" ++
  addressLine "free mem in 0x" 0xE00015A0 "\n\n"

section Log

variable {img : KernelImage} {kernStack idle mmap count taskTty kthreadExit : Nat}
  {s s₁ s₂ s₃ s₄ s₅ s₆ s₇ s' : ThreadState} {pid frames : Nat}

/-- Each step of `kern_init` leaves its lines behind those of the others. -/
theorem KernInitSteps.printed
    (steps : KernInitSteps img kernStack idle mmap count taskTty kthreadExit
      s s₁ s₂ s₃ s₄ s₅ s₆ s₇ s' pid)
    (free : freeMegabytes s₁.kernel.phyPageCount = frames * 4 / 1024)
    {screen : Console} (untouched : screen.videoMemory.stores = []) :
    ∃ screen', kernInitPrinted img idle ⟨mmapEntrySize * count, mmap⟩
        kernStack taskTty kthreadExit (s, screen) = .ok pid (s', screen') ∧
      Shows screen' (Terminal.clear.type (bootLog frames)) := by
  have shows := consoleClear_shows untouched
  obtain ⟨c₁, free₁, shows⟩ := onScreen_of_reports
    (freeMemoryCall_reports s₁.kernel.phyPageCount) shows s₁
  obtain ⟨c₂, test₁, shows⟩ := onScreen_of_reports testCall_reports shows s₁
  obtain ⟨c₃, line₂, shows⟩ := onScreen_of_reports (kmalloc500_line _) shows s₂
  obtain ⟨c₄, line₃, shows⟩ :=
    onScreen_of_reports (kmalloc5000_line _) shows s₃
  obtain ⟨c₅, line₄, shows⟩ :=
    onScreen_of_reports (kmalloc50000_line _) shows s₄
  obtain ⟨c₆, line₅, shows⟩ := onScreen_of_reports (kfree_line _) shows s₄
  obtain ⟨c₇, line₆, shows⟩ := onScreen_of_reports (kfree_line _) shows s₅
  obtain ⟨c₈, line₇, shows⟩ := onScreen_of_reports (lastKfree_line _) shows s₆
  refine ⟨c₈, ?_, ?_⟩
  · have cleared : (modify fun (s, screen) => (s, consoleClear screen) :
        BootM PUnit) (s, screen) = .ok ⟨⟩ (s, consoleClear screen) := rfl
    have read : (get : BootM (ThreadState × Console))
        (s₁, consoleClear screen) = .ok (s₁, consoleClear screen)
          (s₁, consoleClear screen) := rfl
    rw [kernInitPrinted, Outcome.bind_of_ok cleared,
      Outcome.bind_of_ok (onThreads_of_ok steps.memory _),
      Outcome.bind_of_ok read, Outcome.bind_of_ok free₁,
      Outcome.bind_of_ok test₁,
      Outcome.bind_of_ok (onThreads_of_ok steps.kmalloc2 _),
      Outcome.bind_of_ok line₂,
      Outcome.bind_of_ok (onThreads_of_ok steps.kmalloc3 _),
      Outcome.bind_of_ok line₃,
      Outcome.bind_of_ok (onThreads_of_ok steps.kmalloc4 _),
      Outcome.bind_of_ok line₄, Outcome.bind_of_ok line₅,
      Outcome.bind_of_ok (onThreads_of_ok steps.kfree2 _),
      Outcome.bind_of_ok line₆,
      Outcome.bind_of_ok (onThreads_of_ok steps.kfree3 _),
      Outcome.bind_of_ok line₇,
      Outcome.bind_of_ok (onThreads_of_ok steps.kfree4 _)]
    exact onThreads_of_ok steps.thread _
  · rw [free] at shows
    simp only [bootLog, Terminal.type_append]
    exact shows

end Log

/-- The page stack has room for so few frames that the product does not
overflow. -/
theorem freeMegabytes_few {frames : Nat} (few : frames ≤ pageMaxSize) :
    freeMegabytes frames = frames * 4 / 1024 := by
  simp only [pageMaxSize, pmmMaxSize, pmmPageSize] at few
  rw [freeMegabytes, uint32, Nat.mod_eq_of_lt (by omega)]

/-- `kern_init` with its output comes up exactly when it does without: then
the screen shows how much memory is free, and which blocks the test of the heap
was given. -/
theorem boot_log (img : KernelImage) (kernStack idle mmap count : Nat)
    {s : ThreadState}
    (entry : KernInitEntry img kernStack idle mmap count s)
    (taskTty kthreadExit : Nat) {screen : Console}
    (untouched : screen.videoMemory.stores = []) :
    let frames := bootFrames img s.kernel.mem mmap count
    let printed := kernInitPrinted img idle ⟨mmapEntrySize * count, mmap⟩
      kernStack taskTty kthreadExit (s, screen)
    (15 ≤ frames.length → ∃ pid s' screen',
      kernInit img idle ⟨mmapEntrySize * count, mmap⟩ kernStack taskTty
          kthreadExit s = .ok pid s' ∧
        printed = .ok pid (s', screen') ∧
        Shows screen' (Terminal.clear.type (bootLog frames.length))) ∧
    (frames.length < 15 → ∃ s' screen' t,
      printed = .error (some (.panic "out of memory")) (s', screen') ∧
        Shows screen' t) := by
  intro frames printed
  obtain ⟨distinct, usable⟩ := entry.frames
  have few : frames.length ≤ pageMaxSize := frames_few distinct
    (fun frame member => (usable frame member).isFrame.1)
    (fun frame member => (usable frame member).isFrame.2.2)
  rcases kernInit_cases entry taskTty kthreadExit with
    ⟨less, s', stopped⟩ | ⟨enough, _, _, _, _, _, _, _, s', pid, _, steps,
      counted, _, _⟩
  · refine ⟨fun many => absurd less (Nat.not_lt.mpr many), fun _ => ?_⟩
    obtain ⟨screen', t, shows, same⟩ := kernInitPrinted_eq img idle
      ⟨mmapEntrySize * count, mmap⟩ kernStack taskTty kthreadExit s untouched
    rw [stopped] at same
    exact ⟨s', screen', t, same, shows⟩
  · refine ⟨fun _ => ?_, fun less => absurd enough (Nat.not_le.mpr less)⟩
    have free : freeMegabytes _ = frames.length * 4 / 1024 :=
      (congrArg freeMegabytes counted).trans (freeMegabytes_few few)
    obtain ⟨screen', same, shows⟩ := steps.printed free untouched
    exact ⟨pid, s', screen', steps.kernInit_eq, same, shows⟩

/-- On the sample map there are 64 KB. -/
theorem boot_log_sample :
    ∃ pid s' screen', kernInitPrinted sampleImage 0xC0180000 ⟨24, 0x9500⟩
        0xC0180000 0xC0100600 0xC0100500
        (kernInitStart, ⟨⟨fun _ => 0, []⟩, 0, 0, []⟩) =
          .ok pid (s', screen') ∧
      Shows screen' (Terminal.clear.type (bootLog 16)) := by
  let start : Console := ⟨⟨fun _ => 0, []⟩, 0, 0, []⟩
  have length : (bootFrames sampleImage kernInitStart.kernel.mem 0x9500
      1).length = 16 := by
    rw [bootFrames, kernInitStart_records]
    decide
  obtain ⟨pid, s', screen', _, printed, shows⟩ := (boot_log sampleImage
    0xC0180000 0xC0180000 0x9500 1 kernInitStart_entry 0xC0100600
    0xC0100500 (show start.videoMemory.stores = [] from rfl)).1
      (length ▸ by decide)
  rw [length] at shows
  exact ⟨pid, s', screen', printed, shows⟩

end MiniOS
