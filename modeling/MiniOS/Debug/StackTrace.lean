import Mathlib.Data.List.Forall2
import MiniOS.Debug.SymbolLookup
import MiniOS.Debug.PrintLength
import MiniOS.Debug.Vsprintf

/-!
# The stack trace of `panic`

`print_stack_trace` follows the saved frame pointers and gives what
`elf_lookup_symbol` returns to `%s` as it is.  Each access is to a page that is
there, or ends in the handler of interrupt 14, which spins.
-/

namespace MiniOS

open ByteMemory

namespace AddressSpace

variable (space : AddressSpace)

/-- The characters that `strlen` counts from an address on, in so many rounds
of its loop. -/
def charsFrom : (rounds s : Nat) →
    Except TraceStop { chars : List Char // nul ∉ chars ∧ chars.length < rounds }
  | 0, _ => .error .endless
  | rounds + 1, s => do
      let char ← space.byte s
      if zero : Char.ofNat char.toNat = nul then
        return ⟨[], List.not_mem_nil, Nat.succ_pos rounds⟩
      else
        let rest ← charsFrom rounds (uint32 (s + 1))
        return ⟨Char.ofNat char.toNat :: rest.val,
          List.not_mem_cons_of_ne_of_not_mem (Ne.symm zero) rest.property.1,
          Nat.succ_lt_succ rest.property.2⟩

def string (s : Nat) : Except TraceStop CString := do
  let chars ← space.charsFrom 2147483648 s
  return ⟨chars.val, chars.property.1, chars.property.2⟩

end AddressSpace

/-! ## The functions -/

section Trace

variable (space : AddressSpace)

/-- The calls of `printk`, and what `console_write` gets from them. -/
structure Trace where
  calls : List PrintkCall
  lines : List (List Char)

abbrev TraceM := EStateM TraceStop Trace

/-- A read, which changes nothing. -/
def fetch {α : Type} (read : Except TraceStop α) : TraceM α := fun trace =>
  match read with
  | .ok value => .ok value trace
  | .error stop => .error stop trace

abbrev traceFormat : Format := "   [0x%x] %s\n".toList

/-- `printk("   [0x%x] %s\n", eip, name)` -/
def printFrame (eip name : Nat) : TraceM Unit := do
  modify fun trace =>
    { trace with calls := trace.calls ++ [⟨traceFormat, [eip, name]⟩] }
  let text ← fetch (space.string name)
  match printk traceFormat [.word (BitVec.ofNat 32 eip), .string text] with
  | none => throw .undefined
  | some buff =>
      if buff.length ≤ bufferSize then
        modify fun trace => { trace with lines := trace.lines ++ [buff] }
      else throw .overrun

def stackTraceLoop (elf : Elf) : Nat → Nat → TraceM Unit
  | 0, _ => throw .spin
  | rounds + 1, ebp => do
      if ebp = 0 then return
      let eip ← fetch (space.word (uint32 (ebp + 4)))
      let name ← fetch (lookupSymbol space eip elf)
      printFrame space eip name
      let ebp ← fetch (space.word ebp)
      stackTraceLoop elf rounds ebp

/-! ## What is asked for -/

/-- Saved frame pointers from `ebp` on that end in 0, and the return addresses
above them. -/
inductive FrameChain : Nat → List Nat → Prop
  | done : FrameChain 0 []
  | frame {ebp eip next : Nat} {eips : List Nat} (nonnull : ebp ≠ 0)
      (returnAddress : space.word (uint32 (ebp + 4)) = .ok eip)
      (saved : space.word ebp = .ok next) (others : FrameChain next eips) :
      FrameChain ebp (eip :: eips)

/-- The characters of a NUL-terminated string, each of whose bytes is there. -/
inductive TextAt : Nat → List Char → Prop
  | done {s : Nat} (read : space.byte s = .ok 0) : TextAt s []
  | char {s : Nat} {char : UInt8} {text : List Char}
      (read : space.byte s = .ok char) (nonzero : char ≠ 0)
      (rest : TextAt (uint32 (s + 1)) text) :
      TextAt s (Char.ofNat char.toNat :: text)

def ValidString (s : Nat) : Prop :=
  s ≠ 0 ∧ ∃ text : CString, TextAt space s text.chars

def ValidCall (call : PrintkCall) : Prop :=
  ∃ eip name, call = ⟨traceFormat, [eip, name]⟩ ∧ ValidString space name

/-- The trace reaches the end of a chain with these return addresses. -/
structure TracesChain (elf : Elf) (rounds ebp : Nat) (eips : List Nat)
    (trace : Trace) : Prop where
  ends : stackTraceLoop space elf rounds ebp ⟨[], []⟩ = .ok () trace
  lines : trace.lines.length = eips.length
  valid : ∀ call ∈ trace.calls, ValidCall space call

/-- The first function of the table that contains an address, and where its
name is; what the lookup reads until there is there. -/
structure Names (elf : Elf) (addr i name : Nat) : Prop where
  inTable : i < elf.count
  before : ∀ j < i, symbolTests space addr (elf.symbol j) = .ok false
  contains : symbolTests space addr (elf.symbol i) = .ok true
  named : ∃ offset, space.word (elf.symbol i) = .ok offset ∧
    name = uint32 (elf.strtab + offset)

/-- A return address in a function whose name makes a line of the trace. -/
def Symbolised (elf : Elf) (eip : Nat) : Prop :=
  ∃ i name, Names space elf eip i name ∧ name ≠ 0 ∧
    ∃ text : CString, TextAt space name text.chars ∧
      formatLength traceFormat [.word (BitVec.ofNat 32 eip), .string text] <
        bufferSize

end Trace

section Strings

variable {space : AddressSpace}

theorem char_eq_nul (char : UInt8) :
    Char.ofNat char.toNat = nul ↔ char = 0 := by
  have bytes : ∀ byte : Fin 256, Char.ofNat byte = nul ↔ byte.val = 0 := by
    decide +kernel
  rw [bytes ⟨char.toNat, char.toNat_lt⟩, ← UInt8.toNat_inj]
  rfl

theorem charsFrom_iff {rounds s : Nat} {chars : List Char} :
    (∃ proofs, space.charsFrom rounds s = .ok ⟨chars, proofs⟩) ↔
      TextAt space s chars ∧ chars.length < rounds := by
  induction rounds generalizing s chars with
  | zero => simp [AddressSpace.charsFrom]
  | succ rounds induction =>
      constructor
      · rintro ⟨proofs, counted⟩
        obtain ⟨char, read, rest⟩ := read_then counted
        refine ⟨?_, proofs.2⟩
        split at rest
        · rename_i zero
          rw [char_eq_nul] at zero
          cases rest
          exact .done (zero ▸ read)
        · rename_i nonzero
          rw [char_eq_nul] at nonzero
          obtain ⟨⟨others, smaller⟩, found, result⟩ := read_then rest
          cases result
          exact .char read nonzero (induction.mp ⟨smaller, found⟩).1
      · rintro ⟨text, enough⟩
        cases text with
        | done read =>
            refine ⟨⟨List.not_mem_nil, enough⟩, ?_⟩
            rw [AddressSpace.charsFrom, read_bind read]
            rfl
        | char read nonzero others =>
            obtain ⟨proofs, found⟩ :=
              induction.mpr ⟨others, Nat.lt_of_succ_lt_succ enough⟩
            have notNul := mt (char_eq_nul _).mp nonzero
            refine ⟨⟨List.not_mem_cons_of_ne_of_not_mem (Ne.symm notNul)
              proofs.1, enough⟩, ?_⟩
            rw [AddressSpace.charsFrom, read_bind read, dif_neg notNul,
              read_bind found]
            rfl

theorem string_iff {s : Nat} {text : CString} :
    space.string s = .ok text ↔ TextAt space s text.chars := by
  constructor
  · intro read
    obtain ⟨⟨chars, proofs⟩, counted, result⟩ := read_then read
    cases result
    exact (charsFrom_iff.mp ⟨proofs, counted⟩).1
  · intro there
    obtain ⟨proofs, counted⟩ := charsFrom_iff.mpr ⟨there, text.fits⟩
    rw [AddressSpace.string, read_bind counted]
    rfl

theorem textAt_mapped {s : Nat} {text : List Char}
    (there : TextAt space s text) : space.mapped s ≠ false := by
  intro hole
  have fault : space.byte s = .error (.pageFault s) := by
    rw [AddressSpace.byte, hole]
    rfl
  cases there with
  | done read => cases fault.symm.trans read
  | char read => cases fault.symm.trans read

end Strings

section Lookup

variable {space : AddressSpace} {addr : Nat} {elf : Elf}

/-- A lookup that names something has stopped at a symbol. -/
theorem lookupLoop_iff {rounds i name : Nat} (nonnull : name ≠ 0) :
    lookupLoop space addr elf rounds i = .ok name ↔
      ∃ j, i ≤ j ∧ j < i + rounds ∧
        (∀ before, i ≤ before → before < j →
          symbolTests space addr (elf.symbol before) = .ok false) ∧
        symbolTests space addr (elf.symbol j) = .ok true ∧
        ∃ offset, space.word (elf.symbol j) = .ok offset ∧
          name = uint32 (elf.strtab + offset) := by
  induction rounds generalizing i with
  | zero =>
      constructor
      · intro missing
        injection missing with null
        exact absurd null.symm nonnull
      · rintro ⟨j, lower, upper, _⟩
        omega
  | succ rounds induction =>
      rw [lookupLoop]
      constructor
      · intro returned
        obtain ⟨found, tests, rest⟩ := read_then returned
        cases found with
        | true =>
            obtain ⟨offset, read, result⟩ := read_then rest
            injection result with result
            refine ⟨i, Nat.le_refl i, by omega, ?_, tests, offset, read,
              result.symm⟩
            intro before lower upper
            omega
        | false =>
            obtain ⟨j, lower, upper, before, contains⟩ := induction.mp rest
            refine ⟨j, by omega, by omega, ?_, contains⟩
            intro other otherLower otherUpper
            by_cases first : other = i
            · rw [first, tests]
            · exact before other (by omega) otherUpper
      · rintro ⟨j, lower, upper, before, tests, offset, read, result⟩
        by_cases first : j = i
        · subst j
          rw [read_bind tests, if_pos rfl, read_bind read, result]
          rfl
        · rw [read_bind (before i (Nat.le_refl i) (by omega)),
            if_neg Bool.false_ne_true]
          refine induction.mpr ⟨j, by omega, by omega, ?_, tests, offset,
            read, result⟩
          intro other otherLower otherUpper
          exact before other (by omega) otherUpper

theorem lookupSymbol_iff {name : Nat} (nonnull : name ≠ 0) :
    lookupSymbol space addr elf = .ok name ↔
      ∃ i, Names space elf addr i name := by
  rw [lookupSymbol, lookupLoop_iff nonnull]
  constructor
  · rintro ⟨i, _, upper, before, contains, named⟩
    rw [Nat.zero_add] at upper
    exact ⟨i, upper, fun j => before j (Nat.zero_le j), contains, named⟩
  · rintro ⟨i, names⟩
    have upper := names.inTable
    exact ⟨i, Nat.zero_le i, by omega, fun j _ => names.before j,
      names.contains, names.named⟩

end Lookup

/-! ## A line of the trace -/

def traceDirective (conversion : Conversion) : Piece :=
  .directive {
    flags := [], width := none, precision := none, qualifier := none
    conversion := conversion, leading := noWidth_leading }

def tracePieces : List Piece :=
  [.literal ' ' (by decide), .literal ' ' (by decide),
    .literal ' ' (by decide), .literal '[' (by decide),
    .literal '0' (by decide), .literal 'x' (by decide),
    traceDirective (.number .x), .literal ']' (by decide),
    .literal ' ' (by decide), traceDirective .s,
    .literal '\n' (by decide)]

theorem vsprintf_traceFormat (value : BitVec 32) (text : CString) :
    ∃ printed, vsprintf traceFormat [.word value, .string text] =
      some printed := by
  obtain ⟨printed, supplied⟩ : ∃ printed,
      expected tracePieces ⟨[.word value, .string text], [], []⟩ =
        some printed := ⟨_, rfl⟩
  have noStar : ∀ piece ∈ tracePieces, ¬piece.HasStar := by
    simp [tracePieces, traceDirective, Piece.HasStar, Directive.HasStar]
  have same : textOf tracePieces = traceFormat := by decide
  have ran := vsprintfLoop_eq noStar (Nat.lt_succ_self _)
    ⟨[.word value, .string text], [], []⟩
  rw [supplied, same] at ran
  exact ⟨printed.finish, by rw [vsprintf, ran]; rfl⟩

def FrameShown (space : AddressSpace) (elf : Elf) (eip : Nat)
    (shown : PrintkCall × List Char) : Prop :=
  ∃ (name : Nat) (text : CString),
    lookupSymbol space eip elf = .ok name ∧ TextAt space name text.chars ∧
      shown.1 = ⟨traceFormat, [eip, name]⟩ ∧
      printk traceFormat [.word (BitVec.ofNat 32 eip), .string text] =
        some shown.2 ∧
      formatLength traceFormat [.word (BitVec.ofNat 32 eip), .string text] <
        bufferSize

section Run

variable {space : AddressSpace} {elf : Elf} {trace trace' : Trace}

theorem note_bind {α : Type} (change : Trace → Trace)
    (next : PUnit → TraceM α) :
    (modify change >>= next) trace = next ⟨⟩ (change trace) := rfl

theorem fetch_bind {α β : Type} {read : Except TraceStop α} {a : α}
    (returned : read = .ok a) (next : α → TraceM β) :
    (fetch read >>= next) trace = next a trace := by
  rw [returned]
  rfl

theorem fetch_then {α β : Type} {read : Except TraceStop α}
    {next : α → TraceM β} {b : β}
    (returned : (fetch read >>= next) trace = .ok b trace') :
    ∃ a, read = .ok a ∧ next a trace = .ok b trace' := by
  cases shape : read with
  | error stop =>
      rw [shape] at returned
      cases returned
  | ok a =>
      rw [fetch_bind shape] at returned
      exact ⟨a, rfl, returned⟩

/-- A line is formatted whatever the address and the name, and fits or not. -/
theorem printk_traceFormat (value : BitVec 32) (text : CString) :
    ∃ buff, printk traceFormat [.word value, .string text] = some buff ∧
      (buff.length ≤ bufferSize ↔
        formatLength traceFormat [.word value, .string text] <
          bufferSize) := by
  obtain ⟨printed, returned⟩ := vsprintf_traceFormat value text
  obtain ⟨buff, stored, _, length⟩ := printk_length returned
  have agree := vsprintf_length returned
  refine ⟨buff, stored, ?_⟩
  rw [length, Nat.succ_le_iff]
  exact agree.fits

theorem printFrame_iff {eip name : Nat} :
    printFrame space eip name trace = .ok () trace' ↔
      ∃ (text : CString) (line : List Char), TextAt space name text.chars ∧
        printk traceFormat [.word (BitVec.ofNat 32 eip), .string text] =
          some line ∧
        formatLength traceFormat
          [.word (BitVec.ofNat 32 eip), .string text] < bufferSize ∧
        trace' = ⟨trace.calls ++ [⟨traceFormat, [eip, name]⟩],
          trace.lines ++ [line]⟩ := by
  constructor
  · intro returned
    obtain ⟨text, read, rest⟩ := fetch_then returned
    obtain ⟨line, stored, fits⟩ :=
      printk_traceFormat (BitVec.ofNat 32 eip) text
    simp only [stored] at rest
    split at rest
    · rename_i small
      cases rest
      exact ⟨text, line, string_iff.mp read, stored, fits.mp small, rfl⟩
    · cases rest
  · rintro ⟨text, line, there, stored, small, rfl⟩
    obtain ⟨buff, again, fits⟩ :=
      printk_traceFormat (BitVec.ofNat 32 eip) text
    obtain rfl : line = buff := Option.some.inj (stored.symm.trans again)
    rw [printFrame, note_bind, fetch_bind (string_iff.mpr there)]
    simp only [stored, if_pos (fits.mpr small)]
    rfl

/-- The step lemma: a frame is passed when it can be shown. -/
theorem frame_iff {ebp eip next rounds : Nat} (nonnull : ebp ≠ 0)
    (returnAddress : space.word (uint32 (ebp + 4)) = .ok eip)
    (saved : space.word ebp = .ok next) :
    stackTraceLoop space elf (rounds + 1) ebp trace = .ok () trace' ↔
      ∃ shown, FrameShown space elf eip shown ∧
        stackTraceLoop space elf rounds next
          ⟨trace.calls ++ [shown.1], trace.lines ++ [shown.2]⟩ =
            .ok () trace' := by
  rw [stackTraceLoop, if_neg nonnull, fetch_bind returnAddress]
  constructor
  · intro returned
    obtain ⟨name, found, rest⟩ := fetch_then returned
    obtain ⟨_, middle, printed, rest⟩ := Outcome.bind_eq_ok rest
    obtain ⟨text, line, there, stored, small, rfl⟩ :=
      printFrame_iff.mp printed
    rw [fetch_bind saved] at rest
    exact ⟨(_, line), ⟨name, text, found, there, rfl, stored, small⟩, rest⟩
  · rintro ⟨⟨_, line⟩, ⟨name, text, found, there, rfl, stored, small⟩,
      rest⟩
    have printed : printFrame space eip name trace = .ok ()
        ⟨trace.calls ++ [⟨traceFormat, [eip, name]⟩],
          trace.lines ++ [line]⟩ :=
      printFrame_iff.mpr ⟨text, line, there, stored, small, rfl⟩
    rw [fetch_bind found, Outcome.bind_of_ok printed, fetch_bind saved]
    exact rest

/-- The run lemma: the loop returns when every frame of the chain is shown. -/
theorem stackTraceLoop_iff {ebp rounds : Nat} {eips : List Nat}
    (chain : FrameChain space ebp eips) (enough : eips.length < rounds) :
    stackTraceLoop space elf rounds ebp trace = .ok () trace' ↔
      ∃ shown, List.Forall₂ (FrameShown space elf) eips shown ∧
        trace' = ⟨trace.calls ++ shown.map Prod.fst,
          trace.lines ++ shown.map Prod.snd⟩ := by
  obtain ⟨rounds, rfl⟩ : ∃ fewer, rounds = fewer + 1 :=
    Nat.exists_eq_add_one.mpr (by omega)
  induction chain generalizing rounds trace with
  | done =>
      rw [stackTraceLoop, if_pos rfl]
      constructor
      · intro returned
        cases returned
        exact ⟨[], .nil, by simp⟩
      · rintro ⟨shown, frames, rfl⟩
        cases frames
        simp [pure, EStateM.pure]
  | frame nonnull returnAddress saved others induction =>
      rw [frame_iff nonnull returnAddress saved]
      rw [List.length_cons] at enough
      obtain ⟨rounds, rfl⟩ : ∃ fewer, rounds = fewer + 1 :=
        Nat.exists_eq_add_one.mpr (by omega)
      constructor
      · rintro ⟨first, here, rest⟩
        obtain ⟨later, there, rfl⟩ := (induction rounds (by omega)).mp rest
        exact ⟨first :: later, .cons here there, by simp⟩
      · rintro ⟨shown, frames, rfl⟩
        obtain ⟨first, later, here, there, rfl⟩ :=
          List.forall₂_cons_left_iff.mp frames
        exact ⟨first, here,
          (induction rounds (by omega)).mpr ⟨later, there, by simp⟩⟩

/-- What a frame shows is valid when its function has a name. -/
theorem symbolised_iff {eip : Nat} :
    Symbolised space elf eip ↔ ∃ shown, FrameShown space elf eip shown ∧
      ValidCall space shown.1 := by
  constructor
  · rintro ⟨i, name, names, nonnull, text, there, small⟩
    have found := (lookupSymbol_iff nonnull).mpr ⟨i, names⟩
    obtain ⟨line, stored, _⟩ := printk_traceFormat (BitVec.ofNat 32 eip) text
    exact ⟨(_, line), ⟨name, text, found, there, rfl, stored, small⟩, eip,
      name, rfl, nonnull, text, there⟩
  · rintro ⟨shown, ⟨name, text, found, there, call, _, small⟩, eip', other,
      same, nonnull, _⟩
    rw [call] at same
    obtain ⟨rfl, rfl⟩ : eip = eip' ∧ name = other := by simpa using same
    obtain ⟨i, names⟩ := (lookupSymbol_iff nonnull).mp found
    exact ⟨i, name, names, nonnull, text, there, small⟩

theorem exists_of_forall₂ {α β : Type} {relation : α → β → Prop}
    {left : List α} {right : List β}
    (related : List.Forall₂ relation left right) {a : α} (member : a ∈ left) :
    ∃ b ∈ right, relation a b := by
  induction related with
  | nil => cases member
  | cons here _ induction =>
      rcases List.mem_cons.mp member with rfl | later
      · exact ⟨_, List.mem_cons_self, here⟩
      · obtain ⟨b, there, found⟩ := induction later
        exact ⟨b, List.mem_cons_of_mem _ there, found⟩

/-- The trace reaches the end of a chain with valid names exactly when every
return address in it lies in a function that the table names. -/
theorem stackTrace_valid_iff {ebp rounds : Nat} {eips : List Nat}
    (chain : FrameChain space ebp eips) (enough : eips.length < rounds) :
    (∃ trace, TracesChain space elf rounds ebp eips trace) ↔
      ∀ eip ∈ eips, Symbolised space elf eip := by
  constructor
  · rintro ⟨trace, traces⟩ eip member
    obtain ⟨shown, frames, rfl⟩ :=
      (stackTraceLoop_iff chain enough).mp traces.ends
    obtain ⟨frame, there, here⟩ := exists_of_forall₂ frames member
    have called : frame.1 ∈ shown.map Prod.fst := List.mem_map_of_mem there
    exact symbolised_iff.mpr ⟨frame, here, traces.valid _ called⟩
  · intro symbolised
    have shown (eip) (member : eip ∈ eips) :=
      symbolised_iff.mp (symbolised eip member)
    have : Nonempty (PrintkCall × List Char) := ⟨⟨[], []⟩, []⟩
    choose! frame valid using shown
    have frames : List.Forall₂ (FrameShown space elf) eips
        (eips.map frame) := by
      rw [List.forall₂_map_right_iff, List.forall₂_same]
      exact fun eip member => (valid eip member).1
    refine ⟨_, (stackTraceLoop_iff chain enough).mpr ⟨_, frames, rfl⟩, ?_, ?_⟩
    · simp
    · intro call member
      obtain ⟨eip, there, rfl⟩ : ∃ eip ∈ eips, (frame eip).1 = call := by
        simpa using member
      exact (valid eip there).2

end Run

/-- A frame at 64 KB, whose return address is given; a symbol table with one
function; the low page is not there. -/
def sampleFrame (eip : Nat) : AddressSpace where
  mem := store8 (store32 (storeElfSymbol (fun _ => 0) 0x12000
    ⟨1, 0xC0100000, 0x100, 0x12⟩) 0x10004 eip) 0x13001 (UInt8.ofNat 102)
  mapped address := 4096 ≤ address && address < 4294967296
  bounded := by simp

def sampleElf : Elf := ⟨0x12000, 16, 0x13000, 3⟩

theorem stackTrace_valid_function :
    ∃ trace, TracesChain (sampleFrame 0xC0100010) sampleElf 2 0x10000
      [0xC0100010] trace := by
  let space := sampleFrame 0xC0100010
  have chain : FrameChain space 0x10000 [0xC0100010] :=
    .frame (by decide) (by decide +kernel) (by decide +kernel) .done
  have names : Names space sampleElf 0xC0100010 0 0x13001 :=
    ⟨by decide, by simp, by decide +kernel, 1, by decide +kernel, rfl⟩
  have letter : space.byte 0x13001 = .ok 102 := by decide +kernel
  have ended : space.byte (uint32 (0x13001 + 1)) = .ok 0 := by decide +kernel
  have text : TextAt space 0x13001 ['f'] :=
    .char letter (by decide) (.done ended)
  have symbolised : Symbolised space sampleElf 0xC0100010 :=
    ⟨0, 0x13001, names, by decide, ⟨['f'], by decide, by decide⟩, text,
      by decide⟩
  apply (stackTrace_valid_iff chain (by decide)).mpr
  exact List.forall_mem_singleton.mpr symbolised

/-- A return address behind the last function, as that in `isr_common_stub`:
`%s` gets the null pointer. -/
theorem stackTrace_stub :
    FrameChain (sampleFrame 0xC0100500) 0x10000 [0xC0100500] ∧
      ¬∃ trace, TracesChain (sampleFrame 0xC0100500) sampleElf 2 0x10000
        [0xC0100500] trace := by
  let space := sampleFrame 0xC0100500
  have returnAddress : space.word (uint32 (0x10000 + 4)) = .ok 0xC0100500 := by
    decide +kernel
  have saved : space.word 0x10000 = .ok 0 := by decide +kernel
  have silent : lookupSymbol space 0xC0100500 sampleElf = .ok 0 := by
    decide +kernel
  refine ⟨.frame (by decide) returnAddress saved .done, ?_⟩
  rintro ⟨trace, traces⟩
  obtain ⟨_, ⟨name, text, found, there, _⟩, _⟩ :=
    (frame_iff (by decide) returnAddress saved).mp traces.ends
  obtain rfl : name = 0 := Except.ok.inj (found.symm.trans silent)
  exact textAt_mapped there rfl

end MiniOS
