import MiniOS.Driver.KeyStream

/-!
# Sequences that break off

`keyboard_read` reads ahead to tell PrintScreen and Pause from other keys and
has no way to give a byte back.
-/

namespace MiniOS

open Scan

/-- `read` begins on 0xE0 and a byte, or on 0xE1, and `rest` goes on with the
first byte that does not fit a longer sequence. -/
inductive BreaksOff : List (BitVec 8) → List (BitVec 8) → Prop where
  | extended (scanCode : BitVec 8) (rest : List (BitVec 8))
      (single : scanCode ≠ 0x2A ∧ scanCode ≠ 0xB7) :
      BreaksOff [0xE0, scanCode] rest
  | printscreenMake (n : Nat) (inside : n < 2) (item : BitVec 8)
      (rest : List (BitVec 8)) (differs : [0xE0, 0x37][n]? ≠ some item) :
      BreaksOff (0xE0 :: 0x2A :: [0xE0, 0x37].take n) (item :: rest)
  | printscreenBreak (n : Nat) (inside : n < 2) (item : BitVec 8)
      (rest : List (BitVec 8)) (differs : [0xE0, 0xAA][n]? ≠ some item) :
      BreaksOff (0xE0 :: 0xB7 :: [0xE0, 0xAA].take n) (item :: rest)
  | pausebreak (n : Nat) (inside : n < 5) (item : BitVec 8)
      (rest : List (BitVec 8))
      (differs : [0x1D, 0x45, 0xE1, 0x9D, 0xC5][n]? ≠ some item) :
      BreaksOff (0xE1 :: [0x1D, 0x45, 0xE1, 0x9D, 0xC5].take n) (item :: rest)

/-- The call that reads `read` leaves `rest` to the following calls, which
decode it. -/
def LeavesToNextCalls (d : Decoder) (read rest : List (BitVec 8)) : Prop :=
  ∃ d' left, (keyboardRead d).run (read ++ rest) = some (d', left) ∧
    rest <:+ left ∧
    ∀ (sequences : List KeySequence) (more : List (BitVec 8)),
      left = (sequences.map KeySequence.bytes).flatten ++ more →
        callsOn keyboardRead sequences.length d' left =
          some (sequences.foldl KeySequence.decode d', more)

theorem callsOn_keyboardRead (d : Decoder) (sequences : List KeySequence)
    (more : List (BitVec 8)) :
    callsOn keyboardRead sequences.length d
        ((sequences.map KeySequence.bytes).flatten ++ more) =
      some (sequences.foldl KeySequence.decode d, more) := by
  have read := callsOn_of_calls (keyboardRead_calls d sequences) more
  rwa [List.length_map] at read

/-- A longer sequence that breaks off takes the byte that does not fit. -/
theorem keyboardRead_loses {d : Decoder} {read : List (BitVec 8)}
    {item : BitVec 8} {rest : List (BitVec 8)}
    (taken : ∃ d', (keyboardRead d).run (read ++ item :: rest) =
      some (d', rest)) : ¬ LeavesToNextCalls d read (item :: rest) := by
  rintro ⟨d', left, ran, kept, -⟩
  obtain ⟨other, taken⟩ := taken
  rw [taken] at ran
  cases ran
  have length := kept.length_le
  rw [List.length_cons] at length
  omega

/-- Nothing is lost exactly when the byte after 0xE0 starts no longer
sequence. -/
theorem keyboardRead_breaksOff_iff (d : Decoder) {read rest : List (BitVec 8)}
    (broken : BreaksOff read rest) :
    LeavesToNextCalls d read rest ↔
      ∃ scanCode, read = [0xE0, scanCode] ∧ scanCode ≠ 0x2A ∧
        scanCode ≠ 0xB7 := by
  cases broken with
  | extended scanCode rest single =>
      refine ⟨fun _ => ⟨scanCode, rfl, single⟩, fun _ => ?_⟩
      have read := keyboardRead_result d (.extended scanCode single)
      refine ⟨_, rest, run_append (result_eq_some.mp read) rest,
        List.suffix_rfl, ?_⟩
      rintro sequences more rfl
      exact callsOn_keyboardRead _ sequences more
  | printscreenMake n inside item rest differs =>
      have taken : (keyboardRead d).run
          ((0xE0 :: 0x2A :: [0xE0, 0x37].take n) ++ item :: rest) =
          some (decodeKey 0x2A { d with codeWithE0 := true }, rest) :=
        expect_andThen_run_of_ne inside differs _ rest
      refine ⟨fun leaves => absurd leaves (keyboardRead_loses ⟨_, taken⟩), ?_⟩
      rintro ⟨scanCode, same, other, -⟩
      exact absurd (List.cons.inj (List.cons.inj same).2).1.symm other
  | printscreenBreak n inside item rest differs =>
      have taken : (keyboardRead d).run
          ((0xE0 :: 0xB7 :: [0xE0, 0xAA].take n) ++ item :: rest) =
          some (decodeKey 0xB7 { d with codeWithE0 := true }, rest) :=
        expect_andThen_run_of_ne inside differs _ rest
      refine ⟨fun leaves => absurd leaves (keyboardRead_loses ⟨_, taken⟩), ?_⟩
      rintro ⟨scanCode, same, -, other⟩
      exact absurd (List.cons.inj (List.cons.inj same).2).1.symm other
  | pausebreak n inside item rest differs =>
      have taken : (keyboardRead d).run
          ((0xE1 :: [0x1D, 0x45, 0xE1, 0x9D, 0xC5].take n) ++ item :: rest) =
          some (decodeKey 0xE1 { d with codeWithE0 := false }, rest) :=
        expect_andThen_run_of_ne inside differs _ rest
      refine ⟨fun leaves => absurd leaves (keyboardRead_loses ⟨_, taken⟩), ?_⟩
      rintro ⟨scanCode, same, -⟩
      cases same

/-- 0xE0 0x1D is right Ctrl; the release of left Ctrl follows. -/
theorem keyboardRead_breaksOff_rightCtrl :
    LeavesToNextCalls .zero [0xE0, 0x1D] [0x9D] :=
  (keyboardRead_breaksOff_iff .zero
    (.extended 0x1D [0x9D] (by decide))).mpr ⟨0x1D, by decide⟩

/-- PrintScreen is released while left Ctrl is held, then left Ctrl is: its
break code is lost. -/
theorem keyboardRead_breaksOff_printscreen :
    ¬ ∀ (d : Decoder) (read rest : List (BitVec 8)),
      BreaksOff read rest → LeavesToNextCalls d read rest := by
  intro leaves
  have broken : BreaksOff [0xE0, 0xB7] [0x9D] :=
    .printscreenBreak 0 (by decide) 0x9D [] (by decide)
  exact keyboardRead_loses ⟨_, rfl⟩
    (leaves { Decoder.zero with ctrlL := true } _ _ broken)

end MiniOS
