import MiniOS.Debug.PrintLength
import MiniOS.Driver.KeyStream
import MiniOS.Driver.Terminal

/-!
# The tty (`tty.c`)

`task_tty` calls `keyboard_read` for ever, and `in_process` prints the
characters with `printk("%s", output)`.  What is typed appears on the screen.
-/

namespace MiniOS

open Console Scan

/-! ## From `printk` to the screen -/

/-- `console_write(buff)` at the end of `printk`: the bytes before the first
NUL. -/
def writeBuff (buff : List Char) (s : Console) : Console :=
  consoleWrite
    ((buff.map fun c => BitVec.ofNat 8 c.toNat).takeWhile (· ≠ 0)) s

/-- The array `output` of `in_process` as a string. -/
def outputString (c : BitVec 8) : CString where
  chars := if c = 0 then [] else [Char.ofNat c.toNat]
  terminated := by
    revert c
    decide
  fits := by
    split
    · decide
    · exact Nat.one_lt_two_pow (by decide : 31 ≠ 0)

/-- `printk("%s", output)` -/
def printOutput (c : BitVec 8) (s : Console) : Option Console := do
  let buff ← printk "%s".toList [.string (outputString c)]
  return writeBuff buff s

theorem convertString_whole (text : CString) :
    convertString {} (-1) (-1) ⟨[.string text], [], []⟩ =
      some ⟨[], text.chars.map .made, []⟩ := by
  have bounded : Bounded none := by simp [Bounded]
  have converted := convertString_eq bounded bounded {} []
    ⟨[.string text], [], []⟩
  rw [Option.getD_none] at converted
  rw [converted]
  simp [Conversion.render, Printer.vaString, shownOf, pad, Printer.emit]

theorem vsprintf_string_whole (text : CString) :
    vsprintf "%s".toList [.string text] =
      some ⟨text.chars.map .made, [], text.chars.length⟩ := by
  have directive : vsprintf "%s".toList [.string text] =
      (convertString {} (-1) (-1) ⟨[.string text], [], []⟩).bind
        fun p => some p.finish := rfl
  rw [directive, convertString_whole]
  simp [Printer.finish]

theorem printk_string (text : CString) :
    printk "%s".toList [.string text] = some (text.chars ++ [nul]) := by
  have shown : (text.chars.map Out.made).map Out.char = text.chars := by
    rw [List.map_map]
    exact List.map_id _
  rw [printk, vsprintf_string_whole]
  simp only [Option.bind_eq_bind, Option.bind_some, shown, Option.pure_def]
  rw [List.set_append_right _ _ (Nat.le_refl _), Nat.sub_self]
  rfl

theorem printOutput_eq (c : BitVec 8) (s : Console) :
    printOutput c s = some (consoleWrite (if c = 0 then [] else [c]) s) := by
  rw [printOutput, printk_string]
  simp only [Option.bind_eq_bind, Option.bind_some, Option.pure_def,
    writeBuff]
  have bytes : (((outputString c).chars ++ [nul]).map
      fun c => BitVec.ofNat 8 c.toNat).takeWhile (· ≠ 0) =
        if c = 0 then [] else [c] := by
    revert c
    decide
  rw [bytes]

/-- White on black. -/
def plain (c : BitVec 8) : ColoredChar := ⟨c, .black, .white⟩

theorem Shows.printOutput {s : Console} {t : Terminal} (shows : Shows s t)
    (c : BitVec 8) :
    ∃ s', printOutput c s = some s' ∧ Shows s' (t.type [plain c]) := by
  refine ⟨_, printOutput_eq c s, ?_⟩
  by_cases none : c = 0
  · subst none
    exact shows
  · rw [if_neg none]
    exact shows.consoleWriteColor [c] .black .white

/-! ## The tty -/

/-- The keyboard's static variables and the screen. -/
structure Tty where
  decoder : Decoder
  screen : Console

/-- The calls of `printk` for the characters `text`. -/
def printAll (text : List (BitVec 8)) (s : Console) : Option Console :=
  text.foldlM (fun s c => printOutput c s) s

theorem Shows.printAll {s : Console} {t : Terminal} (shows : Shows s t)
    (text : List (BitVec 8)) :
    ∃ s', printAll text s = some s' ∧ Shows s' (t.type (text.map plain)) := by
  induction text generalizing s t with
  | nil => exact ⟨s, rfl, shows⟩
  | cons c text induction =>
      obtain ⟨s₁, printed, shows₁⟩ := shows.printOutput c
      obtain ⟨s₂, rest, shows₂⟩ := induction shows₁
      refine ⟨s₂, ?_, shows₂⟩
      rw [MiniOS.printAll, List.foldlM_cons, printed]
      exact rest

/-- `keyboard_read` in `task_tty`.  What it passes to `in_process` it passes
at its end. -/
def ttyRead (t : Tty) : ByteScan Tty :=
  (keyboardRead t.decoder).andThen fun d =>
    let output := d.printed.drop t.decoder.printed.length
    -- `printk` finds its argument, so the screen is never left as it was
    .done ⟨d, (printAll output t.screen).getD t.screen⟩

theorem ttyRead_asks (t : Tty) : ∃ next, ttyRead t = .get next := ⟨_, rfl⟩

theorem Terminal.type_append (first second : List ColoredChar)
    (t : Terminal) : t.type (first ++ second) = (t.type first).type second :=
  List.foldl_append

theorem ttyRead_result {t : Tty} {terminal : Terminal}
    (shows : Shows t.screen terminal) (sequence : KeySequence) :
    ∃ screen, (ttyRead t).result sequence.bytes =
        some ⟨sequence.decode t.decoder, screen⟩ ∧
      Shows screen (terminal.type ((sequence.prints
        (t.decoder.shiftL || t.decoder.shiftR)).map plain)) := by
  have read := result_eq_some.mp (keyboardRead_result t.decoder sequence)
  have output : (sequence.decode t.decoder).printed.drop
      t.decoder.printed.length =
        sequence.prints (t.decoder.shiftL || t.decoder.shiftR) := by
    rw [KeySequence.decode_printed, List.drop_left]
  obtain ⟨screen, printed, shows'⟩ := shows.printAll
    (sequence.prints (t.decoder.shiftL || t.decoder.shiftR))
  refine ⟨screen, ?_, shows'⟩
  apply result_eq_some.mpr
  rw [ttyRead, feed_andThen read]
  simp only [output, printed, Option.getD_some]

/-- Calls that read sequences show what `printsFrom` says. -/
theorem ttyRead_calls {screen : Console} {terminal : Terminal}
    (shows : Shows screen terminal) (d : Decoder)
    (sequences : List KeySequence) :
    ∃ t, calls ttyRead ⟨initDecoder d, screen⟩
        (sequences.map KeySequence.bytes) = some t ∧
      t.decoder = decoded d sequences ∧
      Shows t.screen (terminal.type
        ((KeySequence.printsFrom [] sequences).map plain)) := by
  induction sequences using List.reverseRecOn with
  | nil => exact ⟨_, rfl, rfl, shows⟩
  | append_singleton sequences sequence induction =>
      obtain ⟨t, called, decoder, shows'⟩ := induction
      obtain ⟨screen', read, shows''⟩ := ttyRead_result shows' sequence
      have printed := decoded_printed d (sequences ++ [sequence])
      rw [decoded_concat, KeySequence.decode_printed, decoded_printed,
        ← decoder] at printed
      refine ⟨⟨sequence.decode t.decoder, screen'⟩, ?_, ?_, ?_⟩
      · rw [List.map_append, List.map_singleton, calls_concat called]
        exact read
      · rw [decoded_concat, decoder]
      · rw [← printed, List.map_append, Terminal.type_append]
        exact shows''

/-- With no byte dropped, the screen shows after each call what the sequences
read so far print, whatever the interleaving of interrupts and reader; once
all have arrived the reader shows them all. -/
theorem tty_echo (kbIn : KbInput) (d : Decoder) {screen : Console}
    {terminal : Terminal} (shows : Shows screen terminal)
    (sequences : List KeySequence) (actions : List KeyboardAction)
    (delivered : arrivals actions <+:
      (sequences.map KeySequence.bytes).flatten)
    (kept : (history ((Keyboard.start kbIn
      (⟨initDecoder d, screen⟩ : Tty)).run ttyRead actions).trace).accepted =
        arrivals actions) :
    let m := (Keyboard.start kbIn (⟨initDecoder d, screen⟩ : Tty)).run ttyRead
      actions
    (∀ t, m.reader = .idle t → ∃ n ≤ sequences.length,
      m.log.ended = (sequences.take n).map KeySequence.bytes ∧
      Shows t.screen (terminal.type
        ((KeySequence.printsFrom [] (sequences.take n)).map plain))) ∧
    (arrivals actions = (sequences.map KeySequence.bytes).flatten →
      ∃ m' t, Keyboard.ReadsOn ttyRead m m' ∧ m'.reader = .idle t ∧
        Shows t.screen (terminal.type
          ((KeySequence.printsFrom [] sequences).map plain))) := by
  intro m
  obtain ⟨after, whole, -, shown⟩ := ttyRead_calls shows d sequences
  obtain ⟨⟨⟨unread, split, place⟩, between⟩, complete⟩ :=
    Keyboard.run_inStream ttyRead_asks kbIn whole actions delivered kept
  refine ⟨?_, ?_⟩
  · intro t idle
    have ended : m.log.ended =
        (sequences.take m.log.ended.length).map KeySequence.bytes := by
      rw [List.map_take, split, List.take_left]
    have length := congrArg List.length split
    rw [List.length_map, List.length_append] at length
    refine ⟨m.log.ended.length, length ▸ Nat.le_add_right _ _, ended, ?_⟩
    obtain ⟨t', called, -, shown'⟩ :=
      ttyRead_calls shows d (sequences.take m.log.ended.length)
    have state := between t idle
    rw [ended, called, Option.some.injEq] at state
    rw [← state]
    exact shown'
  · intro all
    obtain ⟨m', path, idle, -⟩ := complete all
    exact ⟨m', after, path, idle, shown⟩

/-- Shift and `A` on the cleared screen. -/
theorem tty_echo_shiftedA :
    let screen := consoleClear ⟨⟨fun _ => 0, []⟩, 0, 0, []⟩
    let start : Keyboard Tty :=
      .start ⟨0, 0, 0, fun _ => 0⟩ ⟨initDecoder .zero, screen⟩
    ∃ m' t, Keyboard.ReadsOn ttyRead (start.run ttyRead
        [.interrupt 0x2A, .read, .read, .interrupt 0x1E, .read]) m' ∧
      m'.reader = .idle t ∧
      Shows t.screen (Terminal.clear.type [plain 0x41]) := by
  have shows : Shows (consoleClear ⟨⟨fun _ => 0, []⟩, 0, 0, []⟩) .clear :=
    consoleClear_shows rfl
  exact (tty_echo ⟨0, 0, 0, fun _ => 0⟩ .zero shows
    [.plain 0x2A (by decide), .plain 0x1E (by decide)]
    [.interrupt 0x2A, .read, .read, .interrupt 0x1E, .read]
    (by decide) (by decide)).2 rfl

end MiniOS
