/-
# What was typed can be read off what arrives

A typist who types characters that are no composed letters themselves leaves a trace that
determines them: a composed letter stands for its accent and its base letter, a lone
literal for the accent and a space, and everything else for itself. So no two such
texts arrive alike, except for the accent that is still pending at the end.
-/

import SilentCompose.Analysis.Typing
import SilentCompose.Foundations.Observations

namespace SilentCompose.Analysis

open SilentCompose.Foundations SilentCompose.Toolkit SilentCompose.Compose SilentCompose.Engine

/-! ## Reading back -/

/-- The literal of an enumerator that records an accent. -/
def literalOf (pending : PendingAccent) : List Char :=
  match pending with
  | .none => []
  | .acute => ['\'']
  | .diaeresis => ['"']
  | .grave => ['`']
  | .circumflex => ['^']
  | .tilde => ['~']

/-- The accent and the base letter of a composed letter. -/
def uncompose (c : Char) : Option (List Char) :=
  (composeRules.find? fun rule => rule.output.toList = [c]).map fun rule =>
    literalOf rule.accent ++ [Char.ofNat rule.input.toNat]

/-- What was typed for a text that arrives. -/
def readBack : List Char → List Char
  | [c] =>
    match uncompose c with
    | some typed => typed
    | none => if (Accent.ofLiteral c).isSome then [c, ' '] else [c]
  | chars => chars

/-- What was typed for an item that arrives. -/
def transcribe : ClientItem → List Char
  | .text text => readBack (decode text.bytes)
  | .key event => (printableScalar event.key).toList

/-- The character a call types. -/
def typedChars (call : Call) : List Char :=
  match stroke call with
  | some (.char _ c) => [c]
  | _ => []

/-- The character that was typed but is withheld. -/
def withheldChars (self : ScEngine) : List Char := literalOf self.compose.pending

/-- The stroke types a character that is no composed letter, if there is a stroke. -/
def IsPlainStroke : Option Stroke → Prop
  | some (.char _ c) => uncompose c = none
  | some _ => False
  | none => True

instance : (s : Option Stroke) → Decidable (IsPlainStroke s)
  | some (.char _ c) => inferInstanceAs (Decidable (uncompose c = none))
  | some (.cancel _) => .isFalse id
  | some (.navigation _) => .isFalse id
  | some .lifecycle => .isFalse id
  | none => .isTrue trivial

/-- A call of a typist who only types characters, none of them a composed letter. -/
def IsPlainTyping (call : Call) : Prop := IsTypingCall call ∧ IsPlainStroke (stroke call)

instance (call : Call) : Decidable (IsPlainTyping call) :=
  inferInstanceAs (Decidable (IsTypingCall call ∧ IsPlainStroke (stroke call)))

theorem literalOf_pending (accent : Accent) : literalOf accent.pending = [accent.literal] := by
  cases accent <;> rfl

/-- Every rule can be read back. -/
theorem readBack_rule : ∀ rule ∈ composeRules,
    readBack rule.output.toList = literalOf rule.accent ++ [Char.ofNat rule.input.toNat] := by
  decide +kernel

theorem readBack_literal (accent : Accent) : readBack [accent.literal] = [accent.literal, ' '] := by
  cases accent <;> decide +kernel

/-- The text that completes an accent tells the accent and the character. -/
theorem readBack_completion (accent : Accent) {c : Char} (hnonzero : c.val ≠ 0) :
    readBack (accent.completion c) = [accent.literal, c] := by
  rcases accent.completion_cases c with
    ⟨halone, heq⟩ | ⟨rule, hmem, haccent, hinput, heq⟩ | ⟨-, -, -, heq⟩ <;>
    rw [heq]
  · obtain rfl : c = ' ' := halone.resolve_right hnonzero
    exact readBack_literal accent
  · have hc : Char.ofNat rule.input.toNat = c := by
      rw [hinput]
      exact c.ofNat_toNat
    rw [readBack_rule rule hmem, haccent, literalOf_pending, hc]
    rfl
  · rfl

/-- A character that arrives by itself stands for itself, unless it is a literal or a
composed letter. -/
theorem readBack_alone {c : Char} (hplain : uncompose c = none)
    (hopen : Accent.ofLiteral c = none) : readBack [c] = [c] := by
  simp [readBack, hplain, hopen]

/-! ## One call at a time -/

section Steps

variable {keyvalToUnicode : KeyvalToUnicode}

theorem withheldChars_holding (held : Option Accent) (altgr : Bool) :
    withheldChars (.holding held altgr) = (held.map Accent.literal).toList := by
  cases held with
  | none => rfl
  | some accent => exact literalOf_pending accent

/-- What a typed character yields, read back, is what was withheld and the character,
less what is withheld from then on. -/
theorem transcribe_step {held : Option Accent} {event : KeyEvent} {c : Char}
    (hscalar : printableScalar event.key = some c) (hplain : uncompose c = none) :
    ((typing.holding.step held (.char event c)).1).flatMap transcribe ++
        ((typing.holding.step held (.char event c)).2.map Accent.literal).toList =
      (held.map Accent.literal).toList ++ [c] := by
  have hnonzero : c.val ≠ 0 := by
    intro hzero
    have hprintable := not_iscntrl_of_printable hscalar
    rw [hzero] at hprintable
    cases hprintable
  cases held with
  | some accent =>
      simp only [Pairing.holding_step_close, typing, List.flatMap_cons, List.flatMap_nil,
        transcribe, CString.ofText_bytes (accent.completion_zeroFree c), decode_encode,
        readBack_completion accent hnonzero]
      rfl
  | none =>
      cases hopen : Accent.ofLiteral c with
      | some accent =>
          rw [typing.holding_step_open (a := .char event c) hopen]
          rw [Accent.ofLiteral_eq_some_iff.mp hopen]
          rfl
      | none =>
          rw [typing.holding_step_alone (a := .char event c) hopen]
          by_cases hascii : c.val < 0x80
          · simp [typing, hascii, transcribe, hscalar]
          · have hfree : ZeroFree [c] := by simpa [ZeroFree] using hnonzero
            simp only [typing, if_neg hascii, List.flatMap_cons, List.flatMap_nil, transcribe,
              CString.ofText_bytes hfree, decode_encode, readBack_alone hplain hopen]
            rfl

/-- The key of a typed character spells it. -/
theorem printableScalar_of_stroke {call : Call} {event : KeyEvent} {c : Char}
    (hcall : IsTypingCall call) (hstroke : stroke call = some (.char event c)) :
    printableScalar event.key = some c := by
  cases call with
  | reset => cases hstroke
  | focusOut => cases hstroke
  | disable => cases hstroke
  | processKeyEvent pressed =>
      obtain ⟨-, -, ⟨c', hscalar, heq⟩ | ⟨-, heq⟩ | ⟨-, -, heq⟩⟩ := stroke_cases hcall hstroke
      · cases heq
        exact hscalar
      · cases heq
      · cases heq

/-- **One call delays what it types** by at most one accent. -/
theorem transcribe_record (hlawful : LawfulKeyvals keyvalToUnicode) (held : Option Accent)
    {call : Call} (hcall : IsPlainTyping call) :
    ∃ held', ((engine keyvalToUnicode).step (.holding held false) call).2 = .holding held' false ∧
      (clientItems ((engine keyvalToUnicode).record (.holding held false) call)).flatMap
            transcribe ++ withheldChars (.holding held' false) =
        withheldChars (.holding held false) ++ typedChars call := by
  rcases hcall with ⟨htyping, hplain⟩
  cases hstroke : stroke call with
  | none =>
      obtain ⟨hitems, hstate⟩ := silent_step hlawful held htyping hstroke
      refine ⟨held, hstate, ?_⟩
      simp [hitems, typedChars, hstroke]
  | some s =>
      rw [hstroke] at hplain
      cases s with
      | cancel event => cases hplain
      | navigation event => cases hplain
      | lifecycle => cases hplain
      | char event c =>
          obtain ⟨hitems, hstate⟩ := stroke_step hlawful held htyping hstroke
          refine ⟨_, hstate, ?_⟩
          rw [hitems, withheldChars_holding, withheldChars_holding, typedChars, hstroke]
          exact transcribe_step (printableScalar_of_stroke htyping hstroke) hplain

end Steps

/-! ## Whole runs -/

/-- **What arrives tells what was typed.** Over every run of plain typing on a fresh
engine, reading back what the client received yields the characters typed, in order,
except for an accent that is still withheld. -/
theorem transcript_eq_typed {keyvalToUnicode : KeyvalToUnicode}
    (hlawful : LawfulKeyvals keyvalToUnicode) (calls : List Call)
    (hcalls : ∀ call ∈ calls, IsPlainTyping call) :
    (((engine keyvalToUnicode).trace calls).flatMap clientItems).flatMap transcribe ++
        withheldChars ((engine keyvalToUnicode).stateAfter calls) =
      calls.flatMap typedChars := by
  let admissible : ScEngine → Call → Prop := fun _ call => IsPlainTyping call
  have hstep : ∀ self call, (∃ held, self = ScEngine.holding held false) → admissible self call →
      (∃ held, ((engine keyvalToUnicode).step self call).2 = ScEngine.holding held false) ∧
        (clientItems ((engine keyvalToUnicode).record self call)).flatMap transcribe ++
            withheldChars ((engine keyvalToUnicode).step self call).2 =
          withheldChars self ++ typedChars call := by
    rintro _ call ⟨held, rfl⟩ hcall
    obtain ⟨held', hstate, hshown⟩ := transcribe_record hlawful held hcall
    rw [hstate]
    exact ⟨⟨held', rfl⟩, hshown⟩
  have hinputs : ∀ r ∈ (engine keyvalToUnicode).trace calls, admissible r.pre r.input :=
    fun r hmem => hcalls _ ((engine keyvalToUnicode).input_mem_of_mem_traceFrom hmem)
  rw [List.flatMap_assoc]
  exact (engine keyvalToUnicode).flatMap_traceFrom_of_withheld hstep ⟨none, rfl⟩ hinputs

/-- Apostrophe and `e`, then `x`, then tilde and Space, and an apostrophe left pending. -/
theorem transcript_eq_typed_small :
    (((engine smallKeyvalToUnicode).trace
        [.processKeyEvent ⟨0x27, 40, 0⟩, .processKeyEvent ⟨0x65, 18, 0⟩,
          .processKeyEvent ⟨0x78, 45, 0⟩, .processKeyEvent ⟨0x7e, 41, ibusShiftMask⟩,
          .processKeyEvent ⟨0x20, 57, 0⟩, .processKeyEvent ⟨0x27, 40, 0⟩]).flatMap
        clientItems).flatMap transcribe ++ ['\''] =
      ['\'', 'e', 'x', '~', ' ', '\''] :=
  transcript_eq_typed lawfulKeyvals_small
    [.processKeyEvent ⟨0x27, 40, 0⟩, .processKeyEvent ⟨0x65, 18, 0⟩,
      .processKeyEvent ⟨0x78, 45, 0⟩, .processKeyEvent ⟨0x7e, 41, ibusShiftMask⟩,
      .processKeyEvent ⟨0x20, 57, 0⟩, .processKeyEvent ⟨0x27, 40, 0⟩] (by decide +kernel)

end SilentCompose.Analysis
