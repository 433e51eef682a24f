import MiniOS.Debug.StackTrace
import MiniOS.Driver.Printing

/-!
# What `panic` leaves on the screen (`debug.c`)

The message, then a line for each call that was under way, the innermost
first, with the return address and the name of the function around it.
-/

namespace MiniOS

open Console

/-- `print_stack_trace()`: the lines go to the console one by one. -/
def printStackTrace (space : AddressSpace) (elf : Elf) (rounds ebp : Nat)
    (s : Console) : Option Console :=
  match stackTraceLoop space elf rounds ebp ⟨[], []⟩ with
  | .ok () trace => some (trace.lines.foldl (fun s line => writeBuff line s) s)
  | .error _ _ => none

/-- `void panic(const char *msg)` up to its endless loop. -/
def panic (space : AddressSpace) (elf : Elf) (msg : CString)
    (rounds ebp : Nat) (s : Console) : Option Console := do
  let s ← runCalls [PrintCall.plain "*** System panic: %s\n" [.string msg]] s
  let s ← printStackTrace space elf rounds ebp s
  runCalls [PrintCall.plain "***\n" []] s

/-! ## The lines -/

def traceLine (eip : Nat) (name : List Char) : List Char :=
  "   [0x".toList ++ (hexText (BitVec.ofNat 32 eip) ++ ("] ".toList ++
    (name ++ "\n".toList)))

/-- The return address lies in a function whose name makes a line. -/
structure NamedFrame (space : AddressSpace) (elf : Elf) (eip : Nat)
    (name : List Char) : Prop where
  found : ∃ i address, Names space elf eip i address ∧ address ≠ 0 ∧
    TextAt space address name
  short : (traceLine eip name).length < bufferSize

section Lines

variable {space : AddressSpace} {elf : Elf} {eip : Nat} {name : List Char}

theorem TextAt.noNul {address : Nat} (text : TextAt space address name) :
    NoNul name := by
  induction text with
  | done read => simp [NoNul]
  | @char s char text read nonzero rest induction =>
      intro c member
      rcases List.mem_cons.mp member with rfl | later
      · intro zero
        apply nonzero
        have all : ∀ byte : Fin 256,
            BitVec.ofNat 8 (Char.ofNat byte).toNat = 0 → byte.val = 0 := by
          decide +kernel
        exact UInt8.toNat_inj.mp (all ⟨char.toNat, char.toNat_lt⟩ zero)
      · exact induction c later

theorem nul_notMem (noNul : NoNul name) : nul ∉ name :=
  fun member => noNul nul member (by decide)

theorem traceLine_renders (eip : Nat) {text : CString}
    (noNul : NoNul text.chars) :
    Renders traceFormat [.word (BitVec.ofNat 32 eip), .string text]
      (traceLine eip text.chars)
      (6 + (32 + (2 + (text.chars.length + 1)))) := by
  have format : traceFormat = "   [0x".toList ++ '%' :: 'x' ::
      ("] ".toList ++ '%' :: 's' :: "\n".toList) := by
    decide
  have last := Renders.constant (show Literal "\n".toList by decide)
  have named := (last.string noNul).literal
    (show Literal "] ".toList by decide)
  rw [format]
  exact (named.hex (BitVec.ofNat 32 eip)).literal
    (show Literal "   [0x".toList by decide)

theorem name_le_line (eip : Nat) (name : List Char) :
    name.length ≤ (traceLine eip name).length := by
  have inLine : name.Sublist (traceLine eip name) :=
    (((name.sublist_append_left _).trans
      (List.sublist_append_right _ _)).trans
        (List.sublist_append_right _ _)).trans
          (List.sublist_append_right _ _)
  exact inLine.length_le

theorem frameShown_line {i address : Nat} (text : CString)
    (names : Names space elf eip i address) (nonnull : address ≠ 0)
    (there : TextAt space address text.chars)
    (short : (traceLine eip text.chars).length < bufferSize) :
    FrameShown space elf eip
      (⟨traceFormat, [eip, address]⟩, traceLine eip text.chars ++ [nul]) := by
  have line := (traceLine_renders eip there.noNul).prints.makes short .black
    .white
  have made := line.printk_eq
  obtain ⟨buff, stored, room⟩ :=
    printk_traceFormat (BitVec.ofNat 32 eip) text
  obtain rfl : buff = traceLine eip text.chars ++ [nul] :=
    Option.some.inj (stored.symm.trans made)
  refine ⟨address, text, (lookupSymbol_iff nonnull).mpr ⟨i, names⟩, there,
    rfl, stored, room.mp ?_⟩
  rw [List.length_append]
  exact short

theorem NamedFrame.shown (frame : NamedFrame space elf eip name) :
    ∃ call, FrameShown space elf eip (call, traceLine eip name ++ [nul]) := by
  obtain ⟨i, address, names, nonnull, there⟩ := frame.found
  have fits := Nat.lt_of_le_of_lt (name_le_line eip name) frame.short
  exact ⟨_, frameShown_line
    ⟨name, nul_notMem there.noNul, Nat.lt_trans fits (by decide)⟩ names
    nonnull there frame.short⟩

end Lines

/-! ## The screen -/

section Screen

variable {space : AddressSpace} {elf : Elf} {eips : List Nat}
  {names : List (List Char)}

end Screen

end MiniOS
