import MiniOS.Driver.KeyStream

/-!
# Modifiers and the keys held

The decoder's flags against the keys that are down.  The case `ALT_R` of
`keyboard_read` assigns to `alt_l`, so they agree only while right Alt is not
pressed.
-/

namespace MiniOS

open Scan

def heldFlags (sequences : List KeySequence) : Key :=
  flagIf (Modifier.shiftL.held sequences) Key.flagShiftL |||
    flagIf (Modifier.shiftR.held sequences) Key.flagShiftR |||
    flagIf (Modifier.ctrlL.held sequences) Key.flagCtrlL |||
    flagIf (Modifier.ctrlR.held sequences) Key.flagCtrlR |||
    flagIf (Modifier.altL.held sequences) Key.flagAltL |||
    flagIf (Modifier.altR.held sequences) Key.flagAltR

abbrev modifierMask : Key := 0x7E00

/-- After every call of `keyboard_read` the flags tell which keys are held,
and the keys it passes to `in_process` carry their bits. -/
structure FollowsKeys (d : Decoder) (sequences : List KeySequence) : Prop where
  flags : ∀ before, before <+: sequences →
    ∃ d', calls keyboardRead (initDecoder d) (before.map KeySequence.bytes) =
        some d' ∧
      ∀ m : Modifier, d'.modifier m = m.held before
  passed : ∀ before sequence, before ++ [sequence] <+: sequences →
    ∃ d' d'' keys,
      calls keyboardRead (initDecoder d) (before.map KeySequence.bytes) =
        some d' ∧
      (keyboardRead d').result sequence.bytes = some d'' ∧
      d''.passed = d'.passed ++ keys ∧
      ∀ key ∈ keys, key &&& modifierMask = heldFlags (before ++ [sequence])

/-- Right Alt is never pressed, and released only while left Alt is up. -/
def RightAltUnused (sequences : List KeySequence) : Prop :=
  ∀ before sequence, before ++ [sequence] <+: sequences →
    Modifier.altR.strike sequence ≠ some true ∧
      (Modifier.altR.strike sequence = some false →
        Modifier.altL.held before = false)

section Follows

variable {d : Decoder} {before sequences : List KeySequence}
variable {sequence : KeySequence}

theorem Decoder.flags_mask (d : Decoder) :
    modifierMask &&& d.flags = d.flags := by
  have all : ∀ shiftL shiftR ctrlL ctrlR altL altR : Bool,
      modifierMask &&&
        (flagIf shiftL Key.flagShiftL ||| flagIf shiftR Key.flagShiftR |||
          flagIf ctrlL Key.flagCtrlL ||| flagIf ctrlR Key.flagCtrlR |||
          flagIf altL Key.flagAltL ||| flagIf altR Key.flagAltR) =
        (flagIf shiftL Key.flagShiftL ||| flagIf shiftR Key.flagShiftR |||
          flagIf ctrlL Key.flagCtrlL ||| flagIf ctrlR Key.flagCtrlR |||
          flagIf altL Key.flagAltL ||| flagIf altR Key.flagAltR) := by
    decide +kernel
  exact all _ _ _ _ _ _

theorem KeySequence.decode_passed (d : Decoder) (sequence : KeySequence) :
    ∃ keys, (sequence.decode d).passed = d.passed ++ keys ∧
      ∀ key ∈ keys, key &&& modifierMask = (sequence.decode d).flags := by
  have carries : ∀ scanCode (d : Decoder),
      ∃ keys, (decodeKey scanCode d).passed = d.passed ++ keys ∧
        ∀ key ∈ keys, key &&& modifierMask = (decodeKey scanCode d).flags := by
    intro scanCode d
    refine ⟨_, (decodeKey_output scanCode d).1, ?_⟩
    intro key member
    split at member
    · rw [List.mem_singleton] at member
      have bare := (keyAt_character scanCode d.keyColumn_lt).2
      rw [member, BitVec.and_comm, BitVec.and_or_distrib_left,
        BitVec.and_comm _ (keyAt _ _), bare, Decoder.flags_mask]
      exact BitVec.zero_or
    · cases member
  cases sequence with
  | plain scanCode single => exact carries scanCode _
  | extended scanCode single => exact carries scanCode _
  | printscreenMake => exact ⟨[], (List.append_nil _).symm, nofun⟩
  | printscreenBreak => exact ⟨[], (List.append_nil _).symm, nofun⟩
  | pausebreak => exact ⟨[], (List.append_nil _).symm, nofun⟩

/-- The two Alt keys have no code in common. -/
theorem altL_strike_of_altR {make : Bool}
    (right : Modifier.altR.strike sequence = some make) :
    Modifier.altL.strike sequence = none := by
  cases sequence <;>
    simp [Modifier.strike, Modifier.struckBy, Modifier.extended] at right ⊢

theorem decoded_altR (d : Decoder) (sequences : List KeySequence) :
    (decoded d sequences).modifier .altR = false := by
  induction sequences using List.reverseRecOn with
  | nil => rfl
  | append_singleton sequences sequence induction =>
      rw [decoded_modifier_concat]
      exact induction

theorem RightAltUnused.mono (unused : RightAltUnused sequences)
    (shorter : before <+: sequences) : RightAltUnused before :=
  fun _ _ fits => unused _ _ (fits.trans shorter)

theorem RightAltUnused.altR_up (unused : RightAltUnused sequences) :
    Modifier.altR.held sequences = false := by
  induction sequences using List.reverseRecOn with
  | nil => rfl
  | append_singleton sequences sequence induction =>
      have before := induction (unused.mono (List.prefix_append _ _))
      have pressed := (unused sequences sequence List.prefix_rfl).1
      rw [Modifier.held_concat, before]
      cases strike : Modifier.altR.strike sequence with
      | none => rfl
      | some make =>
          cases make with
          | false => rfl
          | true => exact absurd strike pressed

theorem RightAltUnused.altL (unused : RightAltUnused sequences) :
    (decoded d sequences).modifier .altL = Modifier.altL.held sequences := by
  induction sequences using List.reverseRecOn with
  | nil => rfl
  | append_singleton sequences sequence induction =>
      have before := induction (unused.mono (List.prefix_append _ _))
      obtain ⟨pressed, released⟩ := unused sequences sequence List.prefix_rfl
      rw [decoded_modifier_concat, Modifier.held_concat, before,
        Modifier.follows]
      cases left : Modifier.altL.strike sequence with
      | some make => rfl
      | none =>
          cases right : Modifier.altR.strike sequence with
          | none => rfl
          | some make =>
              cases make with
              | false => exact (released right).symm
              | true => exact absurd right pressed

theorem RightAltUnused.flags (unused : RightAltUnused sequences)
    (m : Modifier) :
    (decoded d sequences).modifier m = m.held sequences := by
  cases m with
  | altL => exact unused.altL
  | altR => rw [decoded_altR, unused.altR_up]
  | _ => exact decoded_held (fun _ => rfl) rfl sequences

theorem flags_eq_heldFlags
    (follows : ∀ m : Modifier,
      (decoded d sequences).modifier m = m.held sequences) :
    (decoded d sequences).flags = heldFlags sequences := by
  have shiftL := follows .shiftL
  have shiftR := follows .shiftR
  have ctrlL := follows .ctrlL
  have ctrlR := follows .ctrlR
  have altL := follows .altL
  have altR := follows .altR
  simp only [Decoder.modifier] at shiftL shiftR ctrlL ctrlR altL altR
  rw [Decoder.flags, shiftL, shiftR, ctrlL, ctrlR, altL, altR, heldFlags]

end Follows

/-- The modifiers follow the keys in exactly the streams without right Alt. -/
theorem modifiers_follow_iff (d : Decoder) (sequences : List KeySequence) :
    FollowsKeys d sequences ↔ RightAltUnused sequences := by
  constructor
  · intro follows before sequence fits
    have flags : ∀ before, before <+: sequences → ∀ m : Modifier,
        (decoded d before).modifier m = m.held before := by
      intro before shorter
      obtain ⟨d', called, flags⟩ := follows.flags before shorter
      rw [keyboardRead_decoded, Option.some.injEq] at called
      rwa [called]
    have after := flags _ fits
    have start := flags before ((List.prefix_append before [sequence]).trans fits)
    constructor
    · intro pressed
      have right := after .altR
      rw [decoded_altR, Modifier.held_concat, pressed] at right
      cases right
    · intro released
      have left := after .altL
      rw [decoded_modifier_concat, Modifier.held_concat, Modifier.follows,
        altL_strike_of_altR released, released] at left
      exact left.symm
  · intro unused
    constructor
    · intro before shorter
      exact ⟨_, keyboardRead_decoded d before, (unused.mono shorter).flags⟩
    · intro before sequence fits
      obtain ⟨keys, passed, carry⟩ :=
        KeySequence.decode_passed (decoded d before) sequence
      rw [← decoded_concat, flags_eq_heldFlags (unused.mono fits).flags] at carry
      exact ⟨_, _, keys, keyboardRead_decoded d before, keyboardRead_result _ _,
        passed, carry⟩

/-- Right Alt pressed: `alt_l` is set and `alt_r` is not. -/
theorem modifiers_follow_rightAlt :
    ¬ ∀ (d : Decoder) (sequences : List KeySequence),
      FollowsKeys d sequences := by
  intro follows
  obtain ⟨d', called, flags⟩ :=
    (follows .zero [.extended 0x38 (by decide)]).flags _ List.prefix_rfl
  cases called
  exact absurd (flags .altR) (by decide)

end MiniOS
