import MiniOS.Debug.Directive

/-!
# `vsprintf` against the format grammar

A format without stars is printed as the grammar says.  Of one with a star
some part is copied that the grammar does not let through: what has been
printed is not taken back, and no later directive can print it.
-/

namespace MiniOS

/-! ## What is printed stays printed -/

theorem emit_grows (p : Printer) (chars : List Char) :
    p.output <+: (p.emit chars).output :=
  List.prefix_append _ _

theorem copy_grows (p : Printer) (format : Format) :
    p.output <+: (p.copy format).output :=
  List.prefix_append _ _

theorem bind_grows {α : Type} {x : Option (α × Printer)}
    {f : α × Printer → Option Printer} {p p' : Printer}
    (same : ∀ value q, x = some (value, q) → q.output = p.output)
    (grows : ∀ value q r, f (value, q) = some r → q.output <+: r.output)
    (returned : x.bind f = some p') : p.output <+: p'.output := by
  obtain ⟨⟨value, q⟩, taken, continued⟩ := Option.bind_eq_some_iff.mp returned
  rw [← same value q taken]
  exact grows value q p' continued

section Prefix

variable {flags : Flags} {fieldWidth precision : Int} {p p' q : Printer}

theorem convertChar_grows
    (returned : convertChar flags fieldWidth p = some p') :
    p.output <+: p'.output := by
  apply bind_grows (fun _ _ taken => (vaWord_eq taken).2) _ returned
  intro value q r continued
  cases continued
  exact emit_grows ..

theorem convertString_grows
    (returned : convertString flags fieldWidth precision p = some p') :
    p.output <+: p'.output := by
  apply bind_grows (fun _ _ taken => (vaString_eq taken).2) _ returned
  intro text q r continued
  cases continued
  exact emit_grows ..

theorem convertNumber_grows {base : Nat}
    (returned : convertNumber base flags fieldWidth precision p = some p') :
    p.output <+: p'.output := by
  apply bind_grows (fun _ _ taken => (vaWord_eq taken).2) _ returned
  intro value q r continued
  obtain ⟨text, _, printed⟩ := Option.bind_eq_some_iff.mp continued
  cases printed
  exact emit_grows ..

theorem convertCount_grows (returned : convertCount p = some p') :
    p.output <+: p'.output := by
  apply bind_grows (fun _ _ taken => (vaTarget_eq taken).2) _ returned
  intro address q r continued
  cases continued
  exact List.prefix_refl _

theorem copyConversion_grows (format : Format) (p : Printer) :
    p.output <+: (copyConversion format p).1.output := by
  have percent : p.output <+:
      (if deref format ≠ '%' then p.emit ['%'] else p).output := by
    split
    · exact emit_grows ..
    · exact List.prefix_refl _
  unfold copyConversion
  simp only
  split
  · exact percent.trans (copy_grows ..)
  · exact percent

theorem passed_grows {x : Option Printer} {rest next : Format}
    (returned : (x.bind fun q => some (q, rest)) = some (p', next))
    (grows : ∀ q, x = some q → p.output <+: q.output) :
    p.output <+: p'.output := by
  obtain ⟨q, converted, passed⟩ := Option.bind_eq_some_iff.mp returned
  cases passed
  exact grows _ converted

theorem convert_grows {format next : Format}
    (returned : convert flags fieldWidth precision format p =
      some (p', next)) : p.output <+: p'.output := by
  unfold convert at returned
  split at returned
  case h_1 => exact passed_grows returned fun _ => convertChar_grows
  case h_2 => exact passed_grows returned fun _ => convertString_grows
  case h_11 => exact passed_grows returned fun _ => convertCount_grows
  case h_12 =>
    have same : copyConversion format p = (p', next) := Option.some.inj returned
    have grown := copyConversion_grows format p
    rwa [same] at grown
  all_goals exact passed_grows returned fun _ => convertNumber_grows

theorem scanWidth_output {flags' : Flags} {format next : Format}
    (scanned : scanWidth flags format p =
      some (flags', fieldWidth, next, p')) : p'.output = p.output := by
  unfold scanWidth at scanned
  split at scanned
  · cases scanned
    rfl
  · split at scanned
    · obtain ⟨⟨value, q⟩, taken, continued⟩ :=
        Option.bind_eq_some_iff.mp scanned
      have same := (vaWord_eq taken).2
      simp only at continued
      split at continued <;> (cases continued; exact same)
    · cases scanned
      rfl

theorem readPrecision_output {format next : Format}
    (read : readPrecision format p = some (precision, next, p')) :
    p'.output = p.output := by
  unfold readPrecision at read
  split at read
  · cases read
    rfl
  · split at read
    · obtain ⟨⟨value, q⟩, taken, result⟩ := Option.map_eq_some_iff.mp read
      cases result
      exact (vaWord_eq taken).2
    · cases read
      rfl

theorem scanPrecision_output {format next : Format}
    (scanned : scanPrecision format p = some (precision, next, p')) :
    p'.output = p.output := by
  unfold scanPrecision at scanned
  split at scanned
  · obtain ⟨⟨_, _, q⟩, read, clamped⟩ := Option.map_eq_some_iff.mp scanned
    cases clamped
    exact readPrecision_output read
  · cases scanned
    rfl

theorem directive_grows {format next : Format}
    (returned : directive format p = some (p', next)) :
    p.output <+: p'.output := by
  unfold directive at returned
  obtain ⟨⟨_, _, _, p₁⟩, scannedWidth, continued⟩ :=
    Option.bind_eq_some_iff.mp returned
  obtain ⟨⟨_, _, p₂⟩, scannedPrecision, converted⟩ :=
    Option.bind_eq_some_iff.mp continued
  rw [← scanWidth_output scannedWidth, ← scanPrecision_output scannedPrecision]
  exact convert_grows converted

theorem vsprintfLoop_grows {rounds : Nat} {format : Format}
    (returned : vsprintfLoop rounds format p = some p') :
    p.output <+: p'.output := by
  induction rounds generalizing format p with
  | zero => cases returned
  | succ rounds induction =>
      rw [vsprintfLoop] at returned
      split at returned
      · cases returned
        exact List.prefix_refl _
      · split at returned
        · exact (copy_grows p format).trans (induction returned)
        · obtain ⟨⟨p₁, next⟩, passed, continued⟩ :=
            Option.bind_eq_some_iff.mp returned
          exact (directive_grows passed).trans (induction continued)

end Prefix

/-! ## The whole format -/

theorem textOf_literal (c : Char) (plain : c ≠ '%' ∧ c ≠ nul)
    (pieces : List Piece) :
    textOf (.literal c plain :: pieces) = c :: textOf pieces := rfl

theorem textOf_directive (d : Directive) (pieces : List Piece) :
    textOf (.directive d :: pieces) = '%' :: (d.body ++ textOf pieces) := rfl

theorem vsprintfLoop_literal (rounds : Nat) {c : Char}
    (plain : c ≠ '%' ∧ c ≠ nul) (format : Format) (p : Printer) :
    vsprintfLoop (rounds + 1) (c :: format) p =
      vsprintfLoop rounds format (p.copy (c :: format)) := by
  rw [vsprintfLoop, deref_cons, if_neg plain.2, if_pos plain.1]
  rfl

theorem vsprintfLoop_percent (rounds : Nat) (format : Format) (p : Printer) :
    vsprintfLoop (rounds + 1) ('%' :: format) p =
      (directive format p).bind fun (p, format) =>
        vsprintfLoop rounds format p := rfl

theorem body_pos (d : Directive) : 0 < d.body.length := by
  simp [Directive.body]

/-- Without stars the loop prints what the grammar says. -/
theorem vsprintfLoop_eq {pieces : List Piece} {rounds : Nat}
    (noStar : ∀ piece ∈ pieces, ¬piece.HasStar)
    (enough : (textOf pieces).length < rounds) (p : Printer) :
    vsprintfLoop rounds (textOf pieces) p = expected pieces p := by
  induction pieces generalizing rounds p with
  | nil =>
      cases rounds with
      | zero => cases enough
      | succ rounds => rfl
  | cons piece pieces induction =>
      have others : ∀ piece ∈ pieces, ¬piece.HasStar := fun other member =>
        noStar other (List.mem_cons_of_mem piece member)
      obtain ⟨rounds, rfl⟩ : ∃ fewer, rounds = fewer + 1 :=
        Nat.exists_eq_add_one.mpr (by omega)
      cases piece with
      | literal c plain =>
          rw [textOf_literal] at enough ⊢
          rw [vsprintfLoop_literal rounds plain]
          exact induction others (by simpa using enough) _
      | directive d =>
          have given := noStar (.directive d) List.mem_cons_self
          obtain ⟨width, precision⟩ := not_or.mp given
          have positive := body_pos d
          rw [textOf_directive] at enough ⊢
          rw [vsprintfLoop_percent, directive_eq width precision]
          simp only [expected, Option.bind_map]
          apply Option.bind_congr
          intro p' _
          apply induction others
          simp only [List.length_cons, List.length_append] at enough
          omega

/-! ## What the grammar lets through from the format -/

/-- Between the two states only characters that satisfy `allowed` are copied
from the format. -/
def Copies (allowed : Format → Prop) (p p' : Printer) : Prop :=
  ∃ out, p'.output = p.output ++ out ∧ ∀ format, .copied format ∈ out →
    allowed format

namespace Copies

variable {allowed : Format → Prop} {p q r : Printer}

theorem of_eq (same : q.output = p.output) : Copies allowed p q :=
  ⟨[], by rw [same, List.append_nil], by simp⟩

theorem emit (p : Printer) (chars : List Char) :
    Copies allowed p (p.emit chars) :=
  ⟨chars.map .made, rfl, by simp⟩

theorem copy {format : Format} (p : Printer) (ok : allowed format) :
    Copies allowed p (p.copy format) := by
  refine ⟨[.copied format], rfl, ?_⟩
  intro other member
  cases List.mem_singleton.mp member
  exact ok

theorem trans (first : Copies allowed p q) (second : Copies allowed q r) :
    Copies allowed p r := by
  obtain ⟨left, leftOutput, leftAllowed⟩ := first
  obtain ⟨right, rightOutput, rightAllowed⟩ := second
  refine ⟨left ++ right, ?_, ?_⟩
  · rw [rightOutput, leftOutput, List.append_assoc]
  · intro format member
    rcases List.mem_append.mp member with early | late
    · exact leftAllowed format early
    · exact rightAllowed format late

theorem mono {more : Format → Prop} (copies : Copies allowed p q)
    (weaker : ∀ format, allowed format → more format) : Copies more p q := by
  obtain ⟨out, output, ok⟩ := copies
  exact ⟨out, output, fun format member => weaker format (ok format member)⟩

end Copies

theorem take_output {p p' : Printer} {amount : Option Amount}
    {value : Option Int} (taken : p.take amount = some (value, p')) :
    p'.output = p.output := by
  match amount with
  | none | some (.count _) =>
      cases taken
      rfl
  | some .star =>
      obtain ⟨⟨word, q⟩, read, result⟩ := Option.bind_eq_some_iff.mp taken
      cases result
      exact (vaWord_eq read).2

theorem conversion_copies {conversion : Conversion} {flags : Flags}
    {width precision : Option Int} {rest : Format} {p p' : Printer}
    (rendered : conversion.render flags width precision rest p = some p') :
    Copies (· = '%' :: rest) p p' := by
  cases conversion with
  | c =>
      obtain ⟨⟨value, q⟩, taken, result⟩ := Option.bind_eq_some_iff.mp rendered
      cases result
      exact (Copies.of_eq (vaWord_eq taken).2).trans (.emit ..)
  | s =>
      obtain ⟨⟨text, q⟩, taken, result⟩ := Option.bind_eq_some_iff.mp rendered
      cases result
      exact (Copies.of_eq (vaString_eq taken).2).trans (.emit ..)
  | n =>
      obtain ⟨⟨ip, q⟩, taken, result⟩ := Option.bind_eq_some_iff.mp rendered
      cases result
      have same : q.output = p.output := (vaTarget_eq taken).2
      exact .of_eq same
  | percent =>
      cases rendered
      exact .copy p rfl
  | number kind =>
      obtain ⟨⟨value, q⟩, taken, result⟩ := Option.bind_eq_some_iff.mp rendered
      cases result
      exact (Copies.of_eq (vaWord_eq taken).2).trans (.emit ..)

theorem render_copies {d : Directive} {rest : Format} {p p' : Printer}
    (rendered : d.render rest p = some p') :
    Copies (· = '%' :: rest) p p' := by
  obtain ⟨⟨_, p₁⟩, width, continued⟩ := Option.bind_eq_some_iff.mp rendered
  obtain ⟨⟨_, p₂⟩, precision, converted⟩ :=
    Option.bind_eq_some_iff.mp continued
  exact (Copies.of_eq ((take_output precision).trans (take_output width))).trans
    (conversion_copies converted)

theorem expected_copies {pieces : List Piece} {p p' : Printer}
    (printed : expected pieces p = some p') :
    Copies (fun format => format.length ≤ (textOf pieces).length) p p' := by
  induction pieces generalizing p with
  | nil =>
      cases printed
      exact .of_eq rfl
  | cons piece pieces induction =>
      cases piece with
      | literal c plain =>
          rw [textOf_literal]
          apply (Copies.copy p (Nat.le_refl _)).trans
          apply (induction printed).mono
          intro format shorter
          exact Nat.le_succ_of_le shorter
      | directive d =>
          obtain ⟨p₁, rendered, continued⟩ :=
            Option.bind_eq_some_iff.mp printed
          rw [textOf_directive]
          have first : Copies (fun format => format.length ≤
              ('%' :: (d.body ++ textOf pieces)).length) p p₁ := by
            apply (render_copies rendered).mono
            rintro format rfl
            simp
          apply first.trans
          apply (induction continued).mono
          intro format shorter
          simp only [List.length_cons, List.length_append]
          omega

/-- A star that is copied cannot come from the grammar. -/
theorem star_differs {d : Directive} {pieces : List Piece} {p p₁ q r : Printer}
    {format : Format} (longer : (textOf pieces).length ≤ format.length)
    (left : LeftStar p p₁ format) (grown : p₁.output <+: q.output)
    (printed : expected (.directive d :: pieces) p = some r) :
    q.output ≠ r.output := by
  intro same
  obtain ⟨p₂, rendered, continued⟩ := Option.bind_eq_some_iff.mp printed
  have first : Copies (· ≠ '*' :: format) p p₂ := by
    apply (render_copies rendered).mono
    rintro other rfl equality
    injection equality with head _
    exact absurd head (by decide)
  have second : Copies (· ≠ '*' :: format) p₂ r := by
    apply (expected_copies continued).mono
    rintro other shorter rfl
    rw [List.length_cons] at shorter
    omega
  obtain ⟨out, output, allowed⟩ := first.trans second
  obtain ⟨more, prints⟩ := grown
  rw [← same, ← prints, left, List.append_assoc,
    List.append_cancel_left_eq] at output
  exact allowed ('*' :: format) (by rw [← output]; simp) rfl

/-- Where the loop prints what the grammar says there was no star. -/
theorem noStar_of_vsprintfLoop {pieces : List Piece} {rounds : Nat}
    {p q r : Printer}
    (returned : vsprintfLoop rounds (textOf pieces) p = some q)
    (printed : expected pieces p = some r) (same : q.output = r.output) :
    ∀ piece ∈ pieces, ¬piece.HasStar := by
  induction pieces generalizing rounds p with
  | nil => simp
  | cons piece pieces induction =>
      cases rounds with
      | zero => cases returned
      | succ rounds =>
          cases piece with
          | literal c plain =>
              rw [textOf_literal, vsprintfLoop_literal rounds plain] at returned
              have others := induction returned printed
              intro other member
              rcases List.mem_cons.mp member with rfl | later
              · exact id
              · exact others other later
          | directive d =>
              rw [textOf_directive, vsprintfLoop_percent] at returned
              obtain ⟨⟨p₁, next⟩, passed, continued⟩ :=
                Option.bind_eq_some_iff.mp returned
              have grown := vsprintfLoop_grows continued
              by_cases width : d.width = some .star
              · obtain ⟨format, longer, left⟩ :=
                  directive_widthStar width passed
                exact absurd same (star_differs longer left grown printed)
              · by_cases precision : d.precision = some .star
                · obtain ⟨format, longer, left⟩ :=
                    directive_precisionStar width precision passed
                  exact absurd same (star_differs longer left grown printed)
                · rw [directive_eq width precision] at passed
                  obtain ⟨p₂, rendered, result⟩ :=
                    Option.map_eq_some_iff.mp passed
                  cases result
                  simp only [expected, rendered, Option.bind_eq_bind,
                    Option.bind_some] at printed
                  have others := induction continued printed
                  intro other member
                  rcases List.mem_cons.mp member with rfl | later
                  · exact not_or.mpr ⟨width, precision⟩
                  · exact others other later

/-- `vsprintf` prints what the grammar says, and no character of a directive,
exactly when no width and no precision is a star. -/
theorem vsprintf_grammar_iff {pieces : List Piece} {args : List Arg}
    {printed : Printer}
    (supplied : expected pieces ⟨args, [], []⟩ = some printed) :
    vsprintf (textOf pieces) args = some printed.finish ↔
      ∀ piece ∈ pieces, ¬piece.HasStar := by
  constructor
  · intro returned
    obtain ⟨q, ran, finished⟩ := Option.bind_eq_some_iff.mp returned
    have same : q.output = printed.output :=
      congrArg Printed.output (Option.some.inj finished)
    exact noStar_of_vsprintfLoop ran supplied same
  · intro noStar
    have ran := vsprintfLoop_eq noStar (Nat.lt_succ_self _) ⟨args, [], []⟩
    rw [vsprintf, ran, supplied]
    rfl

def widthFive : Directive where
  flags := []
  width := some (.count ⟨[5], by decide⟩)
  precision := none
  qualifier := none
  conversion := .number .d
  leading := by
    intro count same
    cases same
    exact ⟨5, [], rfl, by decide⟩

/-- `printk("%5d", 42)`. -/
theorem vsprintf_grammar_width :
    textOf [.directive widthFive] = "%5d".toList ∧
      ∃ printed, vsprintf "%5d".toList [.word 42] = some printed ∧
        printed.output.map Out.char = "   42".toList := by
  obtain ⟨printed, supplied⟩ : ∃ printed,
      expected [.directive widthFive] ⟨[.word 42], [], []⟩ = some printed :=
    ⟨_, rfl⟩
  have noStar : ∀ piece ∈ [Piece.directive widthFive], ¬piece.HasStar := by
    simp [widthFive, Piece.HasStar, Directive.HasStar]
  refine ⟨by decide, printed.finish, ?_, ?_⟩
  · exact (vsprintf_grammar_iff supplied).mpr noStar
  · have output : (expected [.directive widthFive] ⟨[.word 42], [], []⟩).map
        (fun printed => printed.output.map Out.char) =
          some "   42".toList := by
      decide
    rw [supplied] at output
    exact Option.some.inj output

/-- `printk("%*d", 5, 42)` prints the directive. -/
theorem vsprintf_grammar_star :
    ¬ ∀ (pieces : List Piece) (args : List Arg) (printed : Printer),
      expected pieces ⟨args, [], []⟩ = some printed →
        vsprintf (textOf pieces) args = some printed.finish := by
  intro claimed
  let d : Directive := {
    flags := [], width := some .star, precision := none
    qualifier := none, conversion := .number .d
    leading := by simp }
  have same := claimed [.directive d] [.word 5, .word 42] _ rfl
  have ran : (vsprintf (textOf [.directive d]) [.word 5, .word 42]).map
      (fun printed => printed.output.map Out.char) = some "%*d".toList := by
    decide
  rw [same] at ran
  revert ran
  decide

end MiniOS
