import Mathlib.Data.List.TakeWhile
import MiniOS.Debug.Vsprintf
import MiniOS.Driver.Tty

/-!
# What `printk` puts on the screen

`printk` and `printk_color` format into a buffer and write the buffer to the
console.  What a format makes of its arguments is found directive by
directive; the terminal shows it behind what was there before.
-/

namespace MiniOS

open Console

/-! ## Calls -/

/-- A call of `printk_color`. -/
structure PrintCall where
  back : RealColor
  fore : RealColor
  format : Format
  args : List Arg

/-- A call of `printk`: white on black. -/
def PrintCall.plain (format : String) (args : List Arg) : PrintCall :=
  ⟨.black, .white, format.toList, args⟩

/-- A call of `printk_color(rc_black, rc_red, ..)`. -/
def PrintCall.red (format : String) : PrintCall :=
  ⟨.black, .red, format.toList, []⟩

/-- The call, from the formatter to the screen.  What happens behind the end
of the buffer is left open. -/
def PrintCall.run (call : PrintCall) (s : Console) : Option Console := do
  let buff ← printk call.format call.args
  if buff.length ≤ bufferSize then
    return consoleWriteColor
      ((buff.map fun c => BitVec.ofNat 8 c.toNat).takeWhile (· ≠ 0))
      call.back call.fore s
  else none

/-- One call after the other. -/
def runCalls (calls : List PrintCall) (s : Console) : Option Console :=
  calls.foldlM (fun s call => call.run s) s

/-- The characters in front of the first NUL. -/
def upToNul (text : List Char) : List Char :=
  text.takeWhile fun c => BitVec.ofNat 8 c.toNat ≠ 0

def colored (back fore : RealColor) (text : List Char) : List ColoredChar :=
  text.map fun c => ⟨BitVec.ofNat 8 c.toNat, back, fore⟩

namespace PrintCall

/-- The call makes the text, and the buffer has room for it. -/
structure Makes (call : PrintCall) (text : List Char) : Prop where
  made : ∃ printed, vsprintf call.format call.args = some printed ∧
    printed.output.map Out.char = text
  short : text.length < bufferSize

/-- What the console gets of the text. -/
def shown (call : PrintCall) (text : List Char) : List ColoredChar :=
  colored call.back call.fore (upToNul text)

end PrintCall

section Screen

variable {s : Console} {t : Terminal} {call : PrintCall}
  {calls : List PrintCall} {text : List Char} {texts : List (List Char)}

theorem vsprintf_returned {format : Format} {args : List Arg}
    {printed : Printed} (returned : vsprintf format args = some printed) :
    printed.returned = printed.output.length := by
  obtain ⟨p, _, finished⟩ := Option.bind_eq_some_iff.mp returned
  obtain rfl := Option.some.inj finished
  rfl

theorem PrintCall.Makes.printk_eq (makes : call.Makes text) :
    printk call.format call.args = some (text ++ [nul]) := by
  obtain ⟨printed, made, chars⟩ := makes.made
  have length : printed.returned = text.length := by
    rw [vsprintf_returned made, ← chars, List.length_map]
  rw [printk, made]
  simp only [Option.bind_eq_bind, Option.bind_some, Option.pure_def, chars,
    length]
  rw [List.set_append_right _ _ (Nat.le_refl _), Nat.sub_self]
  rfl

/-- The console stops at the first NUL, at the latest at that of `printk`. -/
theorem takeWhile_nul (text : List Char) :
    ((text ++ [nul]).map fun c => BitVec.ofNat 8 c.toNat).takeWhile (· ≠ 0) =
      (upToNul text).map fun c => BitVec.ofNat 8 c.toNat := by
  rw [List.takeWhile_map]
  congr 1
  induction text with
  | nil => decide
  | cons c text induction =>
      rw [upToNul, List.cons_append, List.takeWhile_cons, List.takeWhile_cons,
        induction]
      rfl

theorem Shows.run (shows : Shows s t) (makes : call.Makes text) :
    ∃ s', call.run s = some s' ∧ Shows s' (t.type (call.shown text)) := by
  have room : (text ++ [nul]).length ≤ bufferSize := by
    rw [List.length_append]
    exact makes.short
  have screen := shows.consoleWriteColor
    ((upToNul text).map fun c => BitVec.ofNat 8 c.toNat) call.back call.fore
  rw [List.map_map] at screen
  refine ⟨_, ?_, screen⟩
  rw [PrintCall.run, makes.printk_eq]
  simp only [Option.bind_eq_bind, Option.bind_some, if_pos room,
    takeWhile_nul, Option.pure_def]

theorem runCalls_append (first second : List PrintCall) (s : Console) :
    runCalls (first ++ second) s = (runCalls first s).bind (runCalls second) :=
  List.foldlM_append

theorem colored_append (back fore : RealColor) (first second : List Char) :
    colored back fore (first ++ second) =
      colored back fore first ++ colored back fore second :=
  List.map_append

/-- Wherever the cursor stands, the calls leave the text behind it. -/
def Reports (calls : List PrintCall) (report : List ColoredChar) : Prop :=
  ∀ ⦃s : Console⦄ ⦃t : Terminal⦄, Shows s t →
    ∃ s', runCalls calls s = some s' ∧ Shows s' (t.type report)

namespace Reports

variable {first second : List PrintCall} {report next : List ColoredChar}

theorem nil : Reports [] [] :=
  fun s _ shows => ⟨s, rfl, shows⟩

theorem one (makes : call.Makes text) : Reports [call] (call.shown text) := by
  intro s t shows
  obtain ⟨s', printed, shows'⟩ := shows.run makes
  refine ⟨s', ?_, shows'⟩
  rw [runCalls, List.foldlM_cons, printed]
  rfl

theorem append (here : Reports first report) (later : Reports second next) :
    Reports (first ++ second) (report ++ next) := by
  intro s t shows
  obtain ⟨s₁, printed, shows₁⟩ := here shows
  obtain ⟨s₂, rest, shows₂⟩ := later shows₁
  refine ⟨s₂, ?_, ?_⟩
  · rw [runCalls_append, printed]
    exact rest
  · rw [Terminal.type_append]
    exact shows₂

/-- The run lemma: the texts appear one behind the other. -/
theorem all (makes : List.Forall₂ PrintCall.Makes calls texts) :
    Reports calls (List.zipWith PrintCall.shown calls texts).flatten := by
  induction makes with
  | nil => exact nil
  | cons here _ induction => exact (one here).append induction

end Reports

end Screen

/-! ## Formats of the grammar -/

/-- A call whose format follows the grammar, has no star and finds its
arguments and the room it needs. -/
structure GrammarCall where
  back : RealColor
  fore : RealColor
  pieces : List Piece
  args : List Arg
  printed : Printer
  noStar : ∀ piece ∈ pieces, ¬piece.HasStar
  supplied : expected pieces ⟨args, [], []⟩ = some printed
  short : printed.output.length < bufferSize

namespace GrammarCall

variable (call : GrammarCall)

def toPrintCall : PrintCall :=
  ⟨call.back, call.fore, textOf call.pieces, call.args⟩

/-- What the directives and literal characters make. -/
def text : List Char := call.printed.output.map Out.char

theorem makes : call.toPrintCall.Makes call.text where
  made := by
    refine ⟨call.printed.finish, ?_, rfl⟩
    have ran := vsprintfLoop_eq call.noStar (Nat.lt_succ_self _)
      ⟨call.args, [], []⟩
    rw [call.supplied] at ran
    exact Option.bind_eq_some_iff.mpr ⟨_, ran, rfl⟩
  short := by
    rw [text, List.length_map]
    exact call.short

/-- What the terminal shows of the call. -/
def shown : List ColoredChar :=
  colored call.back call.fore (upToNul call.text)

end GrammarCall

/-- Whatever is printed after `console_clear`, the screen shows the window of
the terminal on which the renderings of all calls stand one behind the
other. -/
theorem printk_shown (s : Console) (calls : List GrammarCall) :
    ∃ s', runCalls (calls.map GrammarCall.toPrintCall)
        (consoleClear { s with videoMemory := ⟨s.videoMemory.cells, []⟩ }) =
          some s' ∧
      Shows s' (Terminal.clear.type (calls.flatMap GrammarCall.shown)) := by
  have makes : List.Forall₂ PrintCall.Makes
      (calls.map GrammarCall.toPrintCall) (calls.map GrammarCall.text) := by
    rw [List.forall₂_map_left_iff, List.forall₂_map_right_iff,
      List.forall₂_same]
    exact fun call _ => call.makes
  have start : Shows (consoleClear { s with
      videoMemory := ⟨s.videoMemory.cells, []⟩ }) .clear :=
    consoleClear_shows rfl
  have shows := Reports.all makes start
  rw [List.zipWith_map, List.zipWith_self] at shows
  exact shows

theorem exitText_plain :
    ∀ c ∈ "Thread exited with value ".toList, c ≠ '%' ∧ c ≠ nul := by
  simp [nul]

/-- `Thread exited with value %d` -/
def exitPieces : List Piece :=
  "Thread exited with value ".toList.pmap Piece.literal exitText_plain ++
    [.directive ⟨[], none, none, none, .number .d, noWidth_leading⟩]

theorem exitPieces_noStar : ∀ piece ∈ exitPieces, ¬piece.HasStar := by
  simp [exitPieces, Piece.HasStar, Directive.HasStar]

/-- The `printk` of `kthread_exit`. -/
def exitCall : GrammarCall where
  back := .black
  fore := .white
  pieces := exitPieces
  args := [.word 7]
  printed := (expected exitPieces ⟨[.word 7], [], []⟩).getD ⟨[], [], []⟩
  noStar := exitPieces_noStar
  supplied := rfl
  short := by decide

theorem exitCall_eq :
    exitCall.toPrintCall = .plain "Thread exited with value %d" [.word 7] :=
  rfl

/-- The number stands behind the 25 characters in front of it. -/
theorem printk_shown_exitCall :
    ∃ s', PrintCall.run (.plain "Thread exited with value %d" [.word 7])
        (consoleClear ⟨⟨fun _ => 0, []⟩, 0, 0, []⟩) = some s' ∧
      displayed (s'.videoMemory.cells 25) = ⟨0x37, .black, .white⟩ := by
  obtain ⟨s', printed, shows⟩ :=
    printk_shown ⟨⟨fun _ => 0, []⟩, 0, 0, []⟩ [exitCall]
  have ran : exitCall.toPrintCall.run
      (consoleClear ⟨⟨fun _ => 0, []⟩, 0, 0, []⟩) = some s' := by
    rw [List.map_singleton, runCalls, List.foldlM_cons] at printed
    obtain ⟨_, ran, rest⟩ := Option.bind_eq_some_iff.mp printed
    cases rest
    exact ran
  rw [exitCall_eq] at ran
  refine ⟨s', ran, ?_⟩
  have cell := shows.cells 0 (by decide) 25 (by decide)
  rw [Nat.zero_mul, Nat.zero_add] at cell
  rw [cell]
  decide +kernel

/-! ## Directive by directive -/

/-- With these arguments the format makes the text, whatever stands in front
of it. -/
def Prints (format : Format) (args : List Arg) (text : List Char) : Prop :=
  ∀ (rounds : Nat) (p : Printer), format.length < rounds → p.args = args →
    ∃ q, vsprintfLoop rounds format p = some q ∧
      q.output.map Out.char = p.output.map Out.char ++ text

/-- A directive without flags, width and precision. -/
def Conversion.bare (conversion : Conversion) : Directive where
  flags := []
  width := none
  precision := none
  qualifier := none
  conversion := conversion
  leading := noWidth_leading

namespace Prints

variable {format : Format} {args : List Arg} {arg : Arg}
  {text shown : List Char}

theorem nil (args : List Arg) : Prints [] args [] := by
  intro rounds p enough _
  obtain ⟨rounds, rfl⟩ : ∃ fewer, rounds = fewer + 1 :=
    Nat.exists_eq_add_one.mpr enough
  exact ⟨p, rfl, (List.append_nil _).symm⟩

theorem char {c : Char} (plain : c ≠ '%' ∧ c ≠ nul)
    (later : Prints format args text) :
    Prints (c :: format) args (c :: text) := by
  intro rounds p enough same
  rw [List.length_cons] at enough
  obtain ⟨rounds, rfl⟩ : ∃ fewer, rounds = fewer + 1 :=
    Nat.exists_eq_add_one.mpr (by omega)
  obtain ⟨q, ran, output⟩ := later rounds (p.copy (c :: format))
    (Nat.lt_of_succ_lt_succ enough) same
  refine ⟨q, (vsprintfLoop_literal rounds plain format p).trans ran, ?_⟩
  rw [output]
  simp [Printer.copy, Out.char]

theorem literal {chars : List Char}
    (plain : ∀ c ∈ chars, c ≠ '%' ∧ c ≠ nul)
    (later : Prints format args text) :
    Prints (chars ++ format) args (chars ++ text) := by
  induction chars with
  | nil => exact later
  | cons c chars induction =>
      exact char (plain c List.mem_cons_self)
        (induction fun other member =>
          plain other (List.mem_cons_of_mem c member))

theorem directive {d : Directive} (width : d.width ≠ some .star)
    (precision : d.precision ≠ some .star)
    (render : ∀ rest p, p.args = arg :: args →
      d.render rest p = some (({ p with args := args } : Printer).emit shown))
    (later : Prints format args text) :
    Prints ('%' :: (d.body ++ format)) (arg :: args) (shown ++ text) := by
  intro rounds p enough same
  rw [List.length_cons, List.length_append] at enough
  obtain ⟨rounds, rfl⟩ : ∃ fewer, rounds = fewer + 1 :=
    Nat.exists_eq_add_one.mpr (by omega)
  obtain ⟨q, ran, output⟩ := later rounds
    (({ p with args := args } : Printer).emit shown) (by omega) rfl
  refine ⟨q, ?_, ?_⟩
  · rw [vsprintfLoop_percent, directive_eq width precision,
      render format p same]
    exact ran
  · have made : (shown.map Out.made).map Out.char = shown := by
      rw [List.map_map]
      exact List.map_id shown
    rw [output, Printer.emit, List.map_append, made, List.append_assoc]

theorem number (kind : NumberConversion) (value : BitVec 32)
    (noPointer : kind ≠ .p) (later : Prints format args text) :
    Prints ('%' :: kind.char :: format) (.word value :: args)
      (renderNumber value kind.base 0 0 (kind.adjust {}) ++ text) := by
  apply directive (d := (Conversion.number kind).bare) _ _ _ later
  · simp [Conversion.bare]
  · simp [Conversion.bare]
  · intro rest p same
    simp [Directive.render, Conversion.bare, Printer.take,
      Conversion.render, Printer.vaWord, same, noPointer]

theorem string (value : CString) (later : Prints format args text) :
    Prints ('%' :: 's' :: format) (.string value :: args)
      (value.chars ++ text) := by
  apply directive (d := Conversion.s.bare) _ _ _ later
  · simp [Conversion.bare]
  · simp [Conversion.bare]
  · intro rest p same
    simp [Directive.render, Conversion.bare, Printer.take,
      Conversion.render, Printer.vaString, same, shownOf, pad]

theorem makes (prints : Prints format args text)
    (short : text.length < bufferSize) (back fore : RealColor) :
    PrintCall.Makes ⟨back, fore, format, args⟩ text where
  made := by
    obtain ⟨q, ran, output⟩ := prints _ ⟨args, [], []⟩
      (Nat.lt_succ_self _) rfl
    exact ⟨q.finish, Option.bind_eq_some_iff.mpr ⟨q, ran, rfl⟩, output⟩
  short := short

end Prints

/-! ## Texts without NUL -/

/-- No character of the text ends a string. -/
def NoNul (text : List Char) : Prop :=
  ∀ c ∈ text, BitVec.ofNat 8 c.toNat ≠ 0

instance (text : List Char) : Decidable (NoNul text) :=
  List.decidableBAll _ text

/-- The text is no directive and no end of a string. -/
def Literal (text : List Char) : Prop :=
  ∀ c ∈ text, c ≠ '%' ∧ BitVec.ofNat 8 c.toNat ≠ 0

instance (text : List Char) : Decidable (Literal text) :=
  List.decidableBAll _ text

/-- What `%x`, `%X` and `%u` make of a word. -/
def hexText (value : BitVec 32) : List Char := numeral true 16 value

def upperHexText (value : BitVec 32) : List Char := numeral false 16 value

def decimalText (value : BitVec 32) : List Char := numeral false 10 value

/-- What `%d` makes of a word. -/
def signedText (value : BitVec 32) : List Char :=
  if value.toInt < 0 then '-' :: decimalText (-value) else decimalText value

section NoNul

variable {first second : List Char}

theorem NoNul.upToNul (noNul : NoNul first) : upToNul first = first := by
  apply List.takeWhile_eq_self_iff.mpr
  intro c member
  exact decide_eq_true (noNul c member)

theorem NoNul.append (here : NoNul first) (later : NoNul second) :
    NoNul (first ++ second) := by
  intro c member
  exact (List.mem_append.mp member).elim (here c) (later c)

theorem numeral_noNul {base : Nat} (lower : 2 ≤ base) (upper : base ≤ 36)
    (small : Bool) (value : BitVec 32) : NoNul (numeral small base value) := by
  have digits : ∀ small, ∀ digit < 36,
      BitVec.ofNat 8 ((digitTable small).getD digit nul).toNat ≠ 0 := by
    decide
  unfold numeral
  split
  · decide
  · intro c member
    obtain ⟨digit, inside, rfl⟩ :=
      List.mem_map.mp (List.mem_reverse.mp member)
    exact digits small digit
      (Nat.lt_of_lt_of_le (Nat.digits_lt_base lower inside) upper)

theorem signedText_length (value : BitVec 32) :
    (signedText value).length ≤ 33 := by
  have digits (magnitude : BitVec 32) : (decimalText magnitude).length ≤ 32 :=
    numeral_length (by decide) false magnitude
  unfold signedText
  split
  · exact Nat.succ_le_succ (digits _)
  · exact Nat.le_succ_of_le (digits _)

theorem signedText_noNul (value : BitVec 32) : NoNul (signedText value) := by
  have digits (magnitude : BitVec 32) : NoNul (decimalText magnitude) :=
    numeral_noNul (by decide) (by decide) false magnitude
  unfold signedText
  split
  · exact (show NoNul ['-'] by decide).append (digits _)
  · exact digits _

end NoNul

/-- A conversion without sign shows the digits alone. -/
theorem renderNumber_unsigned {kind : NumberConversion}
    (unsigned : kind ≠ .d ∧ kind ≠ .i) (value : BitVec 32) :
    renderNumber value kind.base 0 0 (kind.adjust {}) =
      numeral (kind == .x) kind.base value := by
  obtain ⟨notD, notI⟩ := unsigned
  cases kind <;>
    simp_all [renderNumber, signText, isNegative, markText, digitsText,
      NumberConversion.adjust] <;>
    rfl

theorem renderNumber_signed (value : BitVec 32) :
    renderNumber value 10 0 0 (NumberConversion.d.adjust {}) =
      signedText value := by
  rw [signedText]
  split
  next negative =>
    simp [renderNumber, signText, isNegative, markText, digitsText,
      NumberConversion.adjust, negative, decimalText]
  next positive =>
    simp [renderNumber, signText, isNegative, markText, digitsText,
      NumberConversion.adjust, positive, decimalText]

/-- The format makes a text of at most `most` characters and no NUL. -/
structure Renders (format : Format) (args : List Arg) (text : List Char)
    (most : Nat) : Prop where
  prints : Prints format args text
  length : text.length ≤ most
  noNul : NoNul text

namespace Renders

variable {format : Format} {args : List Arg} {text : List Char} {most : Nat}

theorem nil : Renders [] [] [] 0 :=
  ⟨.nil [], Nat.le_refl 0, by simp [NoNul]⟩

theorem literal {chars : List Char} (plain : Literal chars)
    (later : Renders format args text most) :
    Renders (chars ++ format) args (chars ++ text) (chars.length + most) where
  prints := by
    apply later.prints.literal
    intro c member
    refine ⟨(plain c member).1, ?_⟩
    rintro rfl
    exact (plain nul member).2 (by decide)
  length := by
    rw [List.length_append]
    exact Nat.add_le_add_left later.length _
  noNul := NoNul.append (fun c member => (plain c member).2) later.noNul

theorem unsigned (kind : NumberConversion) (noPointer : kind ≠ .p)
    (unsigned : kind ≠ .d ∧ kind ≠ .i) (value : BitVec 32)
    (later : Renders format args text most) :
    Renders ('%' :: kind.char :: format) (.word value :: args)
      (numeral (kind == .x) kind.base value ++ text) (32 + most) where
  prints := by
    rw [← renderNumber_unsigned unsigned]
    exact later.prints.number kind value noPointer
  length := by
    rw [List.length_append]
    exact Nat.add_le_add (numeral_length kind.base_range.1 _ value)
      later.length
  noNul := (numeral_noNul kind.base_range.1 kind.base_range.2 _ value).append
    later.noNul

theorem hex (value : BitVec 32) (later : Renders format args text most) :
    Renders ('%' :: 'x' :: format) (.word value :: args)
      (hexText value ++ text) (32 + most) :=
  later.unsigned .x (by decide) (by decide) value

theorem upperHex (value : BitVec 32) (later : Renders format args text most) :
    Renders ('%' :: 'X' :: format) (.word value :: args)
      (upperHexText value ++ text) (32 + most) :=
  later.unsigned .upperX (by decide) (by decide) value

theorem decimal (value : BitVec 32) (later : Renders format args text most) :
    Renders ('%' :: 'u' :: format) (.word value :: args)
      (decimalText value ++ text) (32 + most) :=
  later.unsigned .u (by decide) (by decide) value

theorem signed (value : BitVec 32) (later : Renders format args text most) :
    Renders ('%' :: 'd' :: format) (.word value :: args)
      (signedText value ++ text) (33 + most) where
  prints := by
    rw [← renderNumber_signed]
    exact later.prints.number .d value (by decide)
  length := by
    rw [List.length_append]
    exact Nat.add_le_add (signedText_length value) later.length
  noNul := (signedText_noNul value).append later.noNul

theorem string {value : CString} (noNul : NoNul value.chars)
    (later : Renders format args text most) :
    Renders ('%' :: 's' :: format) (.string value :: args)
      (value.chars ++ text) (value.chars.length + most) where
  prints := later.prints.string value
  length := by
    rw [List.length_append]
    exact Nat.add_le_add_left later.length _
  noNul := noNul.append later.noNul

/-- A call shows the whole text in its colours. -/
theorem reports (renders : Renders format args text most)
    (short : most < bufferSize) (back fore : RealColor) :
    Reports [⟨back, fore, format, args⟩] (colored back fore text) := by
  have room := Nat.lt_of_le_of_lt renders.length short
  have report := Reports.one (renders.prints.makes room back fore)
  rwa [PrintCall.shown, renders.noNul.upToNul] at report

theorem plain {format : String} (renders : Renders format.toList args text most)
    (short : most < bufferSize) :
    Reports [.plain format args] (colored .black .white text) :=
  renders.reports short .black .white

theorem constant {chars : List Char} (plain : Literal chars) :
    Renders chars [] chars chars.length := by
  have renders := Renders.nil.literal plain
  rwa [List.append_nil, Nat.add_zero] at renders

end Renders

end MiniOS
