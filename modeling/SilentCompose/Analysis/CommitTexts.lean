/-
# The texts of the compose state

The two fields of a reachable compose state always belong together, so the text it
commits can always be built: one or two scalars that begin with the held literal, or a
composed letter of its accent, and never an empty or broken string. Not every key that
completes a sequence is printable, though. The control codes below ASCII's space, and
DEL, are read as text like any other ASCII keysym.
-/

import SilentCompose.Compose.Keysyms
import SilentCompose.Engine.Passthrough

namespace SilentCompose.Analysis

open SilentCompose.Foundations SilentCompose.Toolkit SilentCompose.Compose SilentCompose.Engine

/-! ## What a state and its commits look like -/

/-- The two fields of a state are those of the idle state, or an accent with its own
literal. -/
def IsRepresented (state : ComposeState) : Prop :=
  (state.pending, state.pendingLiteral) ∈
    [(PendingAccent.none, 0), (.acute, '\''.val), (.diaeresis, '"'.val), (.grave, '`'.val),
      (.circumflex, '^'.val), (.tilde, '~'.val)]

/-- A text the engine can send: valid UTF-8 of one or two scalars that begin with the
held literal or are an output of the table for the held accent. -/
structure IsSoundCommit (state : ComposeState) (text : CString) : Prop where
  nonempty : text.bytes ≠ []
  valid : gUtf8Validate text = true
  scalars : ∃ scalars : List Char, text.bytes = encode scalars ∧
    (scalars.length = 1 ∨ scalars.length = 2) ∧
    (scalars.head?.map (·.val) = some state.pendingLiteral ∨
      ∃ rule ∈ composeRules, rule.accent = state.pending ∧ scalars = rule.output.toList)
  sent : commitString (some text) = [text]

/-- What one key may do to a state: the fields belong together, the fallback text exists
for whatever the key is read as, an unhandled key without a text leaves the state alone,
and a text is sound. -/
structure IsSoundStep (state : ComposeState) (key mods : Guint) : Prop where
  represented : IsRepresented state
  fallback : state.pending ≠ .none → ∀ input, keyToUnicode key = some input →
    concatUnichars state.pendingLiteral input ≠ none
  unhandled : (composeStateProcessKey state key mods).1 = resultUnhandled →
    (composeStateProcessKey state key mods).2 = state
  commit : ∀ text, (composeStateProcessKey state key mods).1.commit = some text →
    IsSoundCommit state text

/-! ## Texts -/

/-- A string of one or two scalars, none of them zero, is sound if they begin as they
should. -/
theorem isSoundCommit_ofText {state : ComposeState} {scalars : List Char}
    (hfree : ZeroFree scalars) (hlength : scalars.length = 1 ∨ scalars.length = 2)
    (hshape : scalars.head?.map (·.val) = some state.pendingLiteral ∨
      ∃ rule ∈ composeRules, rule.accent = state.pending ∧ scalars = rule.output.toList) :
    IsSoundCommit state (.ofText scalars) := by
  obtain ⟨first, rest, rfl⟩ : ∃ first rest, scalars = first :: rest := by
    cases scalars with
    | nil => simp at hlength
    | cons first rest => exact ⟨first, rest, rfl⟩
  have hbytes := CString.ofText_bytes hfree
  refine ⟨?_, gUtf8Validate_ofText _, ⟨_, hbytes, hlength, hshape⟩, ?_⟩
  · rw [hbytes, ne_eq, encode_eq_nil_iff]
    exact List.cons_ne_nil first rest
  · exact commitString_ofText (hfree first List.mem_cons_self)

/-- A literal alone is a sound text. -/
theorem isSoundCommit_literal (accent : Accent) :
    IsSoundCommit (.holding (some accent)) (.ofText [accent.literal]) :=
  isSoundCommit_ofText accent.literal_zeroFree (.inl rfl) (.inl rfl)

/-- A completion is a sound text. -/
theorem isSoundCommit_completion (accent : Accent) (c : Char) :
    IsSoundCommit (.holding (some accent)) (.ofText (accent.completion c)) := by
  have hfree := accent.completion_zeroFree c
  rcases accent.completion_cases c with
    ⟨-, heq⟩ | ⟨rule, hmem, haccent, -, heq⟩ | ⟨-, -, -, heq⟩ <;>
    rw [heq] at hfree ⊢
  · exact isSoundCommit_literal accent
  · exact isSoundCommit_ofText hfree (.inl (rule_output_single rule hmem).1)
      (.inr ⟨rule, hmem, haccent, rfl⟩)
  · exact isSoundCommit_ofText hfree (.inr rfl) (.inl rfl)

/-! ## Every reachable state -/

theorem isRepresented_holding (held : Option Accent) : IsRepresented (.holding held) := by
  cases held with
  | none => exact List.mem_cons_self
  | some accent => cases accent <;> simp [IsRepresented, ComposeState.holding, Accent.pending,
      Accent.literal]

/-- What is read from a key is a scalar, so the fallback text exists. -/
theorem concatUnichars_ne_none (accent : Accent) {key : Guint} {input : Gunichar}
    (h : keyToUnicode key = some input) : concatUnichars accent.literal.val input ≠ none := by
  have hvalid := gUnicharValidate_of_keyToUnicode h
  have hinput : input = (validated input hvalid).val := rfl
  rw [hinput, concatUnichars_val]
  simp

/-- **Every key does a sound step** from every reachable state of the compose machine. -/
theorem isSoundStep (calls : List ComposeCall) (key mods : Guint) :
    IsSoundStep (composeMachine.stateAfter calls) key mods := by
  obtain ⟨held, hstate⟩ :=
    exists_holding_of_reachable (composeMachine.reachable_stateAfter calls)
  rw [hstate]
  refine ⟨isRepresented_holding held, ?_, ?_, ?_⟩
  · intro hpending input hinput
    cases held with
    | none => exact absurd rfl hpending
    | some accent => exact concatUnichars_ne_none accent hinput
  · rw [composeStateProcessKey_holding]
    cases held with
    | none => cases hopen : openedAccent key mods <;> simp [composerStep, hopen, resultUnhandled]
    | some accent =>
        cases heffect : heldEffect key mods <;> simp [composerStep, heffect, resultUnhandled]
  · intro text hcommit
    rw [composeStateProcessKey_holding] at hcommit
    cases held with
    | none => cases hopen : openedAccent key mods <;> simp [composerStep, hopen] at hcommit
    | some accent =>
        cases heffect : heldEffect key mods with
        | silent => simp [composerStep, heffect] at hcommit
        | cancel => simp [composerStep, heffect] at hcommit
        | text c =>
            obtain rfl : CString.ofText (accent.completion c) = text := by
              simpa [composerStep, heffect] using hcommit
            exact isSoundCommit_completion accent c
        | navigation =>
            obtain rfl : CString.ofText [accent.literal] = text := by
              simpa [composerStep, heffect] using hcommit
            exact isSoundCommit_literal accent

/-! ## Keys that complete a sequence -/

/-- The key denotes a printable scalar, and the text accounts for it. -/
def CompletedByPrintable (state : ComposeState) (key : Guint) (text : CString) : Prop :=
  ∃ literal c : Char, literal.val = state.pendingLiteral ∧ keyToUnicode key = some c.val ∧
    gUnicharIscntrl c.val = false ∧ text.bytes = encode (accountingText state.pending literal c)

/-- No scalar of the string is a control character. -/
def IsControlFree (text : CString) : Prop :=
  ∀ scalars, text.bytes = encode scalars → ∀ c ∈ scalars, gUnicharIscntrl c.val = false

/-- Only a printable key completes the sequence, and no control character is committed. -/
def CompletesPrintably (state : ComposeState) (key mods : Guint) : Prop :=
  ∀ text, (composeStateProcessKey state key mods).1.commit = some text →
    ((composeStateProcessKey state key mods).1.handled = true →
      CompletedByPrintable state key text) ∧
    IsControlFree text

/-- An ASCII keysym that is a control code: those below space, and DEL. -/
def isControlKeyval (key : Guint) : Bool := key < 0x20 ∨ key = 0x7f

/-- Among the keys that are read as text exactly the ASCII control codes denote control
characters. -/
theorem iscntrl_of_keyToUnicode {key : Guint} {input : Gunichar}
    (h : keyToUnicode key = some input) : gUnicharIscntrl input = isControlKeyval key := by
  rw [keyToUnicode] at h
  rw [gUnicharIscntrl, isControlKeyval]
  split_ifs at h with hascii _ hunicode _ hlatin1 _ <;> cases h
  · have hrange : 0x7f ≤ key ∧ key < 0xa0 ↔ key = 0x7f := by grind
    simp only [← Bool.decide_and, ← Bool.decide_or, hrange]
  · have hlow : ¬key - 0x01000000 < 0x20 := by grind
    have hhigh : ¬key - 0x01000000 < 0xa0 := by grind
    have hkey : ¬key < 0x20 := by grind
    have hdel : ¬key = 0x7f := by grind
    simp [hlow, hhigh, hkey, hdel]
  · have hlow : ¬key < 0x20 := by grind
    have hhigh : ¬key < 0xa0 := by grind
    have hdel : ¬key = 0x7f := by grind
    simp [hlow, hhigh, hdel]

theorem literal_not_iscntrl (accent : Accent) : gUnicharIscntrl accent.literal.val = false := by
  cases accent <;> decide

/-- No table output holds a control character. -/
theorem output_not_iscntrl : ∀ rule ∈ composeRules,
    rule.output.toList.all (fun c => !gUnicharIscntrl c.val) = true := by
  decide

/-- A completion by a printable scalar holds no control character. -/
theorem completion_not_iscntrl (accent : Accent) {c : Char} (h : gUnicharIscntrl c.val = false) :
    ∀ d ∈ accent.completion c, gUnicharIscntrl d.val = false := by
  have hliteral := literal_not_iscntrl accent
  rcases accent.completion_cases c with
    ⟨-, heq⟩ | ⟨rule, hmem, -, -, heq⟩ | ⟨-, -, -, heq⟩ <;>
    rw [heq]
  · simpa using hliteral
  · intro d hd
    simpa using List.all_eq_true.mp (output_not_iscntrl rule hmem) d hd
  · simp [hliteral, h]

/-- A string without zero and control scalars is the string of no others. -/
theorem isControlFree_ofText {scalars : List Char} (hfree : ZeroFree scalars)
    (h : ∀ c ∈ scalars, gUnicharIscntrl c.val = false) : IsControlFree (.ofText scalars) := by
  intro decoded hdecoded
  rw [CString.ofText_bytes hfree] at hdecoded
  rw [← encode_injective hdecoded]
  exact h

theorem isControlFree_literal (accent : Accent) : IsControlFree (.ofText [accent.literal]) := by
  apply isControlFree_ofText accent.literal_zeroFree
  simpa using literal_not_iscntrl accent

/-- Every ASCII keysym is read as a character, the control codes too. -/
theorem keyScalar_of_ascii {key : Guint} (h : key < 0x80) : ∃ c, keyScalar key = some c := by
  have hvalid : gUnicharValidate key = true := by
    apply decide_eq_true
    left
    exact Nat.lt_trans (UInt32.lt_iff_toNat_lt.mp h) (by decide)
  refine ⟨validated key hvalid, ?_⟩
  simp [keyScalar, keyToUnicode, scalarOf, h, hvalid]

/-- A control code that is no release and no shortcut completes a held accent. -/
theorem exists_text_of_control {key mods : Guint} (hpress : hits mods composeModRelease = false)
    (hplain : isModifierShortcut mods = false) (hkey : isControlKeyval key = true) :
    ∃ c, heldEffect key mods = .text c := by
  have hascii : key < 0x80 := by
    simp only [isControlKeyval, decide_eq_true_eq] at hkey
    grind
  have hcancel : isCancelKey key = false := by
    apply Bool.eq_false_iff.mpr
    intro hcancel
    have hbounds := function_bounds (isFunctionKeyval_of_cancel hcancel)
    grind
  obtain ⟨c, hscalar⟩ := keyScalar_of_ascii hascii
  exact ⟨c, by simp [heldEffect, hpress, hplain, keyEffect, hcancel, hscalar]⟩

/-- What completes a held accent is no release and no shortcut, and is read as its
character. -/
theorem plainPress_of_text {key mods : Guint} {c : Char} (h : heldEffect key mods = .text c) :
    hits mods composeModRelease = false ∧ isModifierShortcut mods = false ∧
      keyToUnicode key = some c.val := by
  rw [heldEffect] at h
  split_ifs at h with hrefused
  have hscalar := keyScalar_of_keyEffect h
  have hcancel : isCancelKey key = false := by
    apply Bool.eq_false_iff.mpr
    intro hcancel
    rw [keyEffect_of_cancel hcancel] at h
    cases h
  simp only [hcancel, Bool.false_eq_true, not_false_eq_true, and_true, not_or,
    Bool.not_eq_true] at hrefused
  exact ⟨hrefused.1, hrefused.2, by rw [keyToUnicode_eq, hscalar, Option.map_some]⟩

/-- A character completes a held accent as it should exactly when it is printable. -/
theorem completedByPrintable_iff (accent : Accent) {key : Guint} {c : Char}
    (hinput : keyToUnicode key = some c.val) :
    CompletedByPrintable (.holding (some accent)) key (.ofText (accent.completion c)) ↔
      gUnicharIscntrl c.val = false := by
  apply Iff.intro
  · intro h
    rcases h with ⟨literal, d, -, hd, hprintable, -⟩
    rw [hinput] at hd
    rw [Option.some.inj hd]
    exact hprintable
  · intro hprintable
    have hbytes := CString.ofText_bytes (accent.completion_zeroFree c)
    exact ⟨accent.literal, c, rfl, hinput, hprintable, hbytes⟩

/-- **Only printable keys complete a sequence, control codes apart.** With an accent held,
a key that completes the sequence is printable and accounted for, and nothing committed
holds a control character, exactly when the key is no ASCII control code, or is a
release or a shortcut. -/
theorem completesPrintably_iff (calls : List ComposeCall)
    (hpending : composeStateIsPending (composeMachine.stateAfter calls) = true)
    (key mods : Guint) :
    CompletesPrintably (composeMachine.stateAfter calls) key mods ↔
      hits mods composeModRelease = true ∨ isModifierShortcut mods = true ∨
        isControlKeyval key = false := by
  obtain ⟨held, hstate⟩ :=
    exists_holding_of_reachable (composeMachine.reachable_stateAfter calls)
  rw [hstate, composeStateIsPending_holding] at hpending
  obtain ⟨accent, rfl⟩ := Option.isSome_iff_exists.mp hpending
  rw [hstate, CompletesPrintably, composeStateProcessKey_holding]
  -- A key that commits no character was not stopped at a control code.
  have hother : (∀ c, heldEffect key mods ≠ .text c) →
      hits mods composeModRelease = true ∨ isModifierShortcut mods = true ∨
        isControlKeyval key = false := by
    intro hnotText
    by_contra hcondition
    simp only [not_or, Bool.not_eq_true, Bool.not_eq_false] at hcondition
    obtain ⟨c, hc⟩ := exists_text_of_control hcondition.1 hcondition.2.1 hcondition.2.2
    exact hnotText c hc
  cases heffect : heldEffect key mods with
  | silent => simpa [composerStep, heffect] using hother (by simp [heffect])
  | cancel => simpa [composerStep, heffect] using hother (by simp [heffect])
  | navigation =>
      have hliteral := isControlFree_literal accent
      simpa [composerStep, heffect, hliteral] using hother (by simp [heffect])
  | text c =>
      obtain ⟨hpress, hplain, hinput⟩ := plainPress_of_text heffect
      have hcntrl := iscntrl_of_keyToUnicode hinput
      have hcompleted := completedByPrintable_iff accent hinput
      have hfree : gUnicharIscntrl c.val = false →
          IsControlFree (.ofText (accent.completion c)) := by
        intro hprintable
        exact isControlFree_ofText (accent.completion_zeroFree c)
          (completion_not_iscntrl accent hprintable)
      simp only [composerStep, heffect, Option.some.injEq, forall_eq', forall_const, hcompleted,
        hpress, hplain, ← hcntrl, Bool.false_eq_true, false_or, and_iff_left_iff_imp]
      exact hfree

/-- Apostrophe, then `e`: a printable key completes the sequence. -/
theorem completesPrintably_small :
    CompletesPrintably (composeMachine.stateAfter [.processKey 0x27 0]) 0x65 0 :=
  (completesPrintably_iff [.processKey 0x27 0] (by decide) 0x65 0).mpr (by decide)

/-- Apostrophe, then a key without a symbol: the apostrophe is committed for a key that
denotes no printable character. -/
theorem not_completesPrintably_noSymbol :
    ¬ CompletesPrintably (composeMachine.stateAfter [.processKey 0x27 0]) 0 0 := by
  intro h
  obtain ⟨hcompleted, -⟩ := h (.ofText ['\'']) (by decide)
  obtain ⟨literal, c, -, hinput, hprintable, -⟩ := hcompleted (by decide)
  have hzero : 0 = c.val := Option.some.inj hinput
  rw [← hzero] at hprintable
  exact absurd hprintable (by decide)

end SilentCompose.Analysis
