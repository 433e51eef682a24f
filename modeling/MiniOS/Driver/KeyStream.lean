import MiniOS.Driver.DecodeKey
import MiniOS.Driver.KeyboardCalls
import Mathlib.Data.List.Induction

/-!
# Streams of key sequences

A call of `keyboard_read` reads one sequence.  However the keyboard's
interrupts and the reader's steps are ordered, the calls split a stream into
its sequences and print what these print.
-/

namespace MiniOS

open Scan

def KeySequence.decode (d : Decoder) : KeySequence → Decoder
  | plain scanCode _ => decodeKey scanCode { d with codeWithE0 := false }
  | extended scanCode _ => decodeKey scanCode { d with codeWithE0 := true }
  | printscreenMake => { d with codeWithE0 := false }
  | printscreenBreak => { d with codeWithE0 := false }
  | pausebreak => { d with codeWithE0 := false }

theorem keyboardRead_asks (d : Decoder) :
    ∃ next, keyboardRead d = .get next := ⟨_, rfl⟩

theorem keyboardRead_result (d : Decoder) (sequence : KeySequence) :
    (keyboardRead d).result sequence.bytes = some (sequence.decode d) := by
  cases sequence with
  | plain scanCode single =>
      simp only [KeySequence.bytes, KeySequence.decode, keyboardRead, result,
        feed]
      rw [if_neg single.2, if_neg single.1]
  | extended scanCode single =>
      simp only [KeySequence.bytes, KeySequence.decode, keyboardRead, result,
        feed]
      rw [if_neg (by decide), if_pos trivial]
      simp only
      rw [if_neg single.1, if_neg single.2]
  | printscreenMake => rfl
  | printscreenBreak => rfl
  | pausebreak => rfl

theorem KeySequence.decode_modifier (d : Decoder) (sequence : KeySequence)
    (m : Modifier) :
    (sequence.decode d).modifier m =
      (m.follows (·.strike sequence)).getD (d.modifier m) := by
  cases sequence with
  | plain scanCode single =>
      have follows :=
        decodeKey_follows scanCode { d with codeWithE0 := false } m
      cases m <;> exact follows
  | extended scanCode single =>
      have follows :=
        decodeKey_follows scanCode { d with codeWithE0 := true } m
      cases m <;> exact follows
  | printscreenMake => cases m <;> rfl
  | printscreenBreak => cases m <;> rfl
  | pausebreak => cases m <;> rfl

theorem KeySequence.decode_printed (d : Decoder) (sequence : KeySequence) :
    (sequence.decode d).printed =
      d.printed ++ sequence.prints (d.shiftL || d.shiftR) := by
  cases sequence with
  | plain scanCode single =>
      exact (decodeKey_output scanCode { d with codeWithE0 := false }).2
  | extended scanCode single =>
      have character := (keyAt_character scanCode (show 2 < 3 by decide)).1
      have silent : ¬ (isMake scanCode = true ∧ keyAt scanCode 2 ≠ 0 ∧
          keyAt scanCode 2 &&& Key.flagExt = 0) :=
        fun prints => prints.2.1 ((character prints.2.2).2 rfl)
      exact (decodeKey_output scanCode { d with codeWithE0 := true }).2.trans
        (congrArg _ (if_neg silent))
  | printscreenMake => exact (List.append_nil _).symm
  | printscreenBreak => exact (List.append_nil _).symm
  | pausebreak => exact (List.append_nil _).symm

theorem keyboardRead_calls (d : Decoder) (sequences : List KeySequence) :
    calls keyboardRead d (sequences.map KeySequence.bytes) =
      some (sequences.foldl KeySequence.decode d) := by
  induction sequences generalizing d with
  | nil => rfl
  | cons sequence sequences induction =>
      rw [List.map_cons, calls_cons, keyboardRead_result]
      exact induction _

def decoded (d : Decoder) (sequences : List KeySequence) : Decoder :=
  sequences.foldl KeySequence.decode (initDecoder d)

theorem keyboardRead_decoded (d : Decoder) (sequences : List KeySequence) :
    calls keyboardRead (initDecoder d) (sequences.map KeySequence.bytes) =
      some (decoded d sequences) :=
  keyboardRead_calls _ _

theorem decoded_concat (d : Decoder) (sequences : List KeySequence)
    (sequence : KeySequence) :
    decoded d (sequences ++ [sequence]) =
      sequence.decode (decoded d sequences) := by
  simp [decoded]

theorem decoded_modifier_concat (d : Decoder) (sequences : List KeySequence)
    (sequence : KeySequence) (m : Modifier) :
    (decoded d (sequences ++ [sequence])).modifier m =
      (m.follows (·.strike sequence)).getD
        ((decoded d sequences).modifier m) := by
  rw [decoded_concat, KeySequence.decode_modifier]

/-- The flag of a key other than Alt tells whether the key is held. -/
theorem decoded_held {m : Modifier}
    (follows : ∀ sequence, m.follows (·.strike sequence) = m.strike sequence)
    (start : (initDecoder d).modifier m = false)
    (sequences : List KeySequence) :
    (decoded d sequences).modifier m = m.held sequences := by
  induction sequences using List.reverseRecOn with
  | nil => exact start
  | append_singleton sequences sequence induction =>
      rw [decoded_modifier_concat, Modifier.held_concat, follows, induction]

theorem decoded_printed (d : Decoder) (sequences : List KeySequence) :
    (decoded d sequences).printed = KeySequence.printsFrom [] sequences := by
  induction sequences using List.reverseRecOn with
  | nil => rfl
  | append_singleton sequences sequence induction =>
      have shiftL : (decoded d sequences).shiftL =
          Modifier.shiftL.held sequences :=
        decoded_held (m := .shiftL) (fun _ => rfl) rfl sequences
      have shiftR : (decoded d sequences).shiftR =
          Modifier.shiftR.held sequences :=
        decoded_held (m := .shiftR) (fun _ => rfl) rfl sequences
      rw [decoded_concat, KeySequence.decode_printed, induction, shiftL,
        shiftR, KeySequence.printsFrom_concat, List.nil_append]

/-- With no byte dropped, each call of `keyboard_read` reads one sequence,
whatever the interleaving, and prints what it prints; once all have arrived
the reader reads them all. -/
theorem keyboardRead_stream (kbIn : KbInput) (d : Decoder)
    (sequences : List KeySequence) (actions : List KeyboardAction)
    (delivered : arrivals actions <+:
      (sequences.map KeySequence.bytes).flatten)
    (kept : (history ((Keyboard.start kbIn (initDecoder d)).run keyboardRead
      actions).trace).accepted = arrivals actions) :
    let m := (Keyboard.start kbIn (initDecoder d)).run keyboardRead actions
    (∃ n ≤ sequences.length,
      m.log.ended = (sequences.take n).map KeySequence.bytes ∧
      m.log.part <+: (sequences[n]?.map KeySequence.bytes).getD [] ∧
      ∀ d', m.reader = .idle d' →
        d'.printed = KeySequence.printsFrom [] (sequences.take n)) ∧
    (arrivals actions = (sequences.map KeySequence.bytes).flatten →
      ∃ m' d', Keyboard.ReadsOn keyboardRead m m' ∧ m'.reader = .idle d' ∧
        m'.log = ⟨sequences.map KeySequence.bytes, []⟩ ∧
        d'.printed = KeySequence.printsFrom [] sequences) := by
  intro m
  obtain ⟨⟨⟨unread, split, place⟩, between⟩, complete⟩ :=
    Keyboard.run_inStream keyboardRead_asks kbIn
      (keyboardRead_decoded d sequences) actions delivered kept
  refine ⟨?_, ?_⟩
  · have ended : m.log.ended =
        (sequences.take m.log.ended.length).map KeySequence.bytes := by
      rw [List.map_take, split, List.take_left]
    refine ⟨m.log.ended.length, ?_, ended, ?_, ?_⟩
    · have length := congrArg List.length split
      rw [List.length_map, List.length_append] at length
      exact length ▸ Nat.le_add_right _ _
    · rw [← List.getElem?_map, split, List.getElem?_append_right (Nat.le_refl _),
        Nat.sub_self]
      obtain ⟨none, -⟩ | ⟨word, tail, rfl, part⟩ := place
      · rw [none]
        exact List.nil_prefix
      · exact part
    · intro d' idle
      have state := between d' idle
      rw [ended, keyboardRead_decoded, Option.some.injEq] at state
      rw [← state]
      exact decoded_printed d _
  · intro all
    obtain ⟨m', path, idle, logged⟩ := complete all
    exact ⟨m', _, path, idle, logged, decoded_printed d sequences⟩

/-- Shift and `A`; the second byte comes while the first one is read. -/
theorem keyboardRead_stream_shiftedA :
    ∃ m' d', Keyboard.ReadsOn keyboardRead
        ((Keyboard.start ⟨0, 0, 0, fun _ => 0⟩ (initDecoder .zero)).run
          keyboardRead
          [.interrupt 0x2A, .read, .read, .interrupt 0x1E, .read]) m' ∧
      m'.reader = .idle d' ∧ m'.log = ⟨[[0x2A], [0x1E]], []⟩ ∧
      d'.printed = [0x41] := by
  obtain ⟨m', d', path, idle, log, printed⟩ :=
    (keyboardRead_stream ⟨0, 0, 0, fun _ => 0⟩ .zero
      [.plain 0x2A (by decide), .plain 0x1E (by decide)]
      [.interrupt 0x2A, .read, .read, .interrupt 0x1E, .read]
      (by decide) (by decide)).2 rfl
  exact ⟨m', d', path, idle, log, printed.trans (by decide)⟩

end MiniOS
