/-
# The composer: at most one accent held back

The abstract view of the compose state is an optional accent. With nothing held
a key may open a sequence; with an accent held a key is silent, cancels, or
completes the sequence with a text. The state machine of the source computes
exactly this on the states that represent an optional accent, and it never
leaves them, so the branch that would drop an accent is dead.
-/

import SilentCompose.Compose.State

namespace SilentCompose.Compose

open SilentCompose.Foundations SilentCompose.Toolkit

/-! ## Accents -/

/-- One of the five accents. -/
inductive Accent
  | acute
  | diaeresis
  | grave
  | circumflex
  | tilde
  deriving DecidableEq

namespace Accent

/-- The enumerator that records the accent. -/
def pending : Accent → PendingAccent
  | .acute => .acute
  | .diaeresis => .diaeresis
  | .grave => .grave
  | .circumflex => .circumflex
  | .tilde => .tilde

/-- The printable character of the accent. -/
def literal : Accent → Char
  | .acute => '\''
  | .diaeresis => '"'
  | .grave => '`'
  | .circumflex => '^'
  | .tilde => '~'

/-- The keysym a layout sends for the printable accent. -/
def printableKey (accent : Accent) : Guint := accent.literal.val

/-- The keysym a layout sends for the dead accent. -/
def deadKey : Accent → Guint
  | .acute => scKeyDeadAcute
  | .diaeresis => scKeyDeadDiaeresis
  | .grave => scKeyDeadGrave
  | .circumflex => scKeyDeadCircumflex
  | .tilde => scKeyDeadTilde

/-- The accent a keysym stands for, if any. -/
def ofKey (key : Guint) : Option Accent :=
  [.acute, .diaeresis, .grave, .circumflex, .tilde].find? fun accent =>
    key = accent.printableKey ∨ key = accent.deadKey

theorem pending_ne_none (accent : Accent) : accent.pending ≠ .none := by
  cases accent <;> decide

theorem literal_ne_zero (accent : Accent) : accent.literal.val ≠ 0 := by
  cases accent <;> decide

theorem literal_zeroFree (accent : Accent) : ZeroFree [accent.literal] := by
  simpa [ZeroFree] using accent.literal_ne_zero

/-- The accent a printable character is the literal of, if any. -/
def ofLiteral (c : Char) : Option Accent :=
  [.acute, .diaeresis, .grave, .circumflex, .tilde].find? fun accent => c = accent.literal

/-- The two keysyms of an accent, and no others, stand for it. -/
theorem ofKey_eq_some_iff {key : Guint} {accent : Accent} :
    ofKey key = some accent ↔ key = accent.printableKey ∨ key = accent.deadKey := by
  apply Iff.intro
  · intro h
    simpa using List.find?_some h
  · rintro (rfl | rfl) <;> cases accent <;> decide

theorem ofLiteral_eq_some_iff {c : Char} {accent : Accent} :
    ofLiteral c = some accent ↔ c = accent.literal := by
  apply Iff.intro
  · intro h
    simpa using List.find?_some h
  · intro heq
    subst heq
    cases accent <;> decide

/-- Different accents have different literals. -/
theorem literal_injective : Function.Injective literal := by
  intro first second heq
  have hfirst : ofLiteral first.literal = some first := ofLiteral_eq_some_iff.mpr rfl
  exact Option.some.inj (hfirst.symm.trans (ofLiteral_eq_some_iff.mpr heq))

end Accent

/-- The source's accent test is the search among the five accents. -/
theorem pendingFromKey_eq (key : Guint) :
    pendingFromKey key =
      (Accent.ofKey key).map fun accent => (accent.pending, accent.literal.val) := by
  simp only [pendingFromKey, Accent.ofKey, List.find?_cons, Accent.printableKey, Accent.deadKey,
    Accent.literal, List.find?_nil]
  split_ifs <;> simp_all [Accent.pending]

/-! ## States that represent an optional accent -/

/-- The state that holds back this accent, or nothing. -/
def ComposeState.holding : Option Accent → ComposeState
  | none => composeStateNew
  | some accent => { pending := accent.pending, pendingLiteral := accent.literal.val }

@[simp]
theorem holding_none_pending : (ComposeState.holding none).pending = .none := rfl

@[simp]
theorem holding_some_pending (accent : Accent) :
    (ComposeState.holding (some accent)).pending = accent.pending := rfl

@[simp]
theorem holding_some_pendingLiteral (accent : Accent) :
    (ComposeState.holding (some accent)).pendingLiteral = accent.literal.val := rfl

@[simp]
theorem composeStateReset_eq (state : ComposeState) :
    composeStateReset state = ComposeState.holding none := rfl

@[simp]
theorem composeStateIsPending_holding (held : Option Accent) :
    composeStateIsPending (ComposeState.holding held) = held.isSome := by
  cases held with
  | none => rfl
  | some accent => simp [composeStateIsPending, accent.pending_ne_none]

/-- Different optional accents have different states. -/
theorem holding_injective : Function.Injective ComposeState.holding := by
  intro first second heq
  have hpending := congrArg ComposeState.pending heq
  cases first with
  | none =>
      cases second with
      | none => rfl
      | some accent => exact absurd hpending.symm accent.pending_ne_none
  | some first =>
      cases second with
      | none => exact absurd hpending first.pending_ne_none
      | some second => cases first <;> cases second <;> first | rfl | cases hpending

/-! ## Texts -/

/-- The string of one scalar. -/
theorem utf8FromUnichar_val (c : Char) : utf8FromUnichar c.val = some (.ofText [c]) := by
  simp [utf8FromUnichar, gStrdup_gUnicharToUtf8]

/-- The fallback string of an accent and a scalar, cut where the scalar is zero. -/
theorem concatUnichars_val (accent : Accent) (c : Char) :
    concatUnichars accent.literal.val c.val = some (.ofText [accent.literal, c]) := by
  rw [concatUnichars, utf8FromUnichar_val, utf8FromUnichar_val]
  exact congrArg some (CString.ofText_append [c] accent.literal_zeroFree).symm

/-- The rules of the table for an accent and a character. -/
def rulesFor (accent : PendingAccent) (c : Char) : List ComposeRule :=
  composeRules.filter fun rule => rule.accent = accent ∧ rule.input = c.val

theorem mem_rulesFor {accent : PendingAccent} {c : Char} {rule : ComposeRule} :
    rule ∈ rulesFor accent c ↔
      rule ∈ composeRules ∧ rule.accent = accent ∧ rule.input = c.val := by
  simp [rulesFor]

/-- The text that accounts for a held literal and a character: the literal alone for a
space, and for the zero scalar, which no string holds; the letter of the rule for them;
both characters where no rule is for them. -/
def accountingText (accent : PendingAccent) (literal c : Char) : List Char :=
  if c = ' ' ∨ c.val = 0 then [literal]
  else
    match rulesFor accent c with
    | rule :: _ => rule.output.toList
    | [] => [literal, c]

namespace Accent

/-- The text that completes an accent with a character. -/
def completion (accent : Accent) (c : Char) : List Char :=
  accountingText accent.pending accent.literal c

/-- A completion is the literal, the output of the rule for the accent and the character,
or both characters where no rule is for them. -/
theorem completion_cases (accent : Accent) (c : Char) :
    ((c = ' ' ∨ c.val = 0) ∧ accent.completion c = [accent.literal]) ∨
      (∃ rule ∈ composeRules, rule.accent = accent.pending ∧ rule.input = c.val ∧
        accent.completion c = rule.output.toList) ∨
      (c ≠ ' ' ∧ c.val ≠ 0 ∧
        (∀ rule ∈ composeRules, rule.accent = accent.pending → rule.input ≠ c.val) ∧
        accent.completion c = [accent.literal, c]) := by
  rw [completion, accountingText]
  split_ifs with halone
  · exact .inl ⟨halone, rfl⟩
  · cases hrules : rulesFor accent.pending c with
    | nil =>
        obtain ⟨hspace, hzero⟩ := not_or.mp halone
        refine .inr (.inr ⟨hspace, hzero, ?_, rfl⟩)
        intro rule hmem haccent hinput
        have hrule := mem_rulesFor.mpr ⟨hmem, haccent, hinput⟩
        rw [hrules] at hrule
        cases hrule
    | cons rule rest =>
        obtain ⟨hmem, haccent, hinput⟩ := mem_rulesFor.mp (hrules ▸ List.mem_cons_self)
        exact .inr (.inl ⟨rule, hmem, haccent, hinput, rfl⟩)

/-- A completion has one or two characters. -/
theorem completion_length (accent : Accent) (c : Char) :
    (accent.completion c).length = 1 ∨ (accent.completion c).length = 2 := by
  rcases accent.completion_cases c with
    ⟨-, heq⟩ | ⟨rule, hmem, -, -, heq⟩ | ⟨-, -, -, heq⟩ <;>
    rw [heq]
  · exact .inl rfl
  · exact .inl (rule_output_single rule hmem).1
  · exact .inr rfl

/-- The string of a literal and the zero scalar ends after the literal. -/
theorem ofText_literal_zero (accent : Accent) {c : Char} (h : c.val = 0) :
    CString.ofText [accent.literal, c] = .ofText [accent.literal] := by
  ext1
  rw [CString.bytes_ofText, CString.bytes_ofText]
  simp [CString.kept, h, accent.literal_ne_zero]

/-- The source builds the string of the completion: what the lookup finds, else both
characters. -/
theorem ofText_completion (accent : Accent) {c : Char} (hspace : c ≠ ' ') :
    CString.ofText (accent.completion c) =
      match lookupComposition accent.pending c.val with
      | some composed => .ofText composed.toList
      | none => .ofText [accent.literal, c] := by
  rcases accent.completion_cases c with
    ⟨halone, heq⟩ | ⟨rule, hmem, haccent, hinput, heq⟩ | ⟨-, -, hnone, heq⟩ <;>
    rw [heq]
  · have hzero := halone.resolve_left hspace
    have hnone : lookupComposition accent.pending c.val = none := by
      rw [hzero]
      cases accent <;> decide
    rw [hnone]
    exact (accent.ofText_literal_zero hzero).symm
  · rw [lookupComposition_eq_some_iff.mpr ⟨rule, hmem, haccent, hinput, rfl⟩]
  · rw [lookupComposition_eq_none_iff.mpr hnone]

theorem completion_space (accent : Accent) : accent.completion ' ' = [accent.literal] := by
  simp [completion, accountingText]

/-- A string holds every completion whole. -/
theorem completion_zeroFree (accent : Accent) (c : Char) : ZeroFree (accent.completion c) := by
  rcases accent.completion_cases c with
    ⟨-, heq⟩ | ⟨rule, hmem, -, -, heq⟩ | ⟨-, hzero, -, heq⟩ <;>
    rw [heq]
  · exact accent.literal_zeroFree
  · exact rule_output_zeroFree hmem
  · simp [ZeroFree, accent.literal_ne_zero, hzero]

end Accent

/-! ## The composer -/

/-- The scalar a keysym denotes as text. -/
def keyScalar (key : Guint) : Option Char := (keyToUnicode key).bind scalarOf

theorem keyToUnicode_eq (key : Guint) : keyToUnicode key = (keyScalar key).map (·.val) := by
  rw [keyScalar]
  cases hkey : keyToUnicode key with
  | none => rfl
  | some input => simp [scalarOf, gUnicharValidate_of_keyToUnicode hkey]

/-- What a key does to a held accent. -/
inductive HeldEffect
  | silent
  | cancel
  | text (c : Char)
  | navigation
  deriving DecidableEq

/-- Escape and Backspace, which cancel a held accent. -/
def isCancelKey (key : Guint) : Bool := key = scKeyEscape ∨ key = scKeyBackspace

/-- The effect of a key by itself on a held accent. -/
def keyEffect (key : Guint) : HeldEffect :=
  if isCancelKey key then .cancel
  else
    match keyScalar key with
    | some c => .text c
    | none => if isNonPrintableNavigationKey key then .navigation else .silent

/-- The effect of a key event on a held accent: releases are silent, and so are
shortcuts, except on the keys that cancel. -/
def heldEffect (key mods : Guint) : HeldEffect :=
  if hits mods composeModRelease ∨ (isModifierShortcut mods ∧ ¬isCancelKey key) then .silent
  else keyEffect key

/-- A key that is read as text or as navigation. -/
def completesSequence (key : Guint) : Bool :=
  !isCancelKey key && ((keyToUnicode key).isSome || isNonPrintableNavigationKey key)

/-- Text and navigation keys are the ones that end a sequence with its text. -/
theorem completesSequence_iff (key : Guint) :
    completesSequence key = true ↔
      (∃ c, keyEffect key = .text c) ∨ keyEffect key = .navigation := by
  simp only [completesSequence, keyEffect, keyToUnicode_eq, Option.isSome_map]
  cases isCancelKey key with
  | true => simp
  | false =>
      cases keyScalar key with
      | some c => simp
      | none => cases isNonPrintableNavigationKey key <;> simp

/-- The accent a key opens when nothing is held. -/
def openedAccent (key mods : Guint) : Option Accent :=
  if hits mods composeModRelease ∨ isModifierShortcut mods then none else Accent.ofKey key

/-- One key event on an optional accent. -/
def composerStep (held : Option Accent) (key mods : Guint) : ComposeResult × Option Accent :=
  match held with
  | none =>
    match openedAccent key mods with
    | some accent => ({ handled := true, commit := none }, some accent)
    | none => ({ handled := false, commit := none }, none)
  | some accent =>
    match heldEffect key mods with
    | .silent => ({ handled := false, commit := none }, some accent)
    | .cancel => ({ handled := true, commit := none }, none)
    | .text c => ({ handled := true, commit := some (.ofText (accent.completion c)) }, none)
    | .navigation => ({ handled := false, commit := some (.ofText [accent.literal]) }, none)

/-! ## The text that closes a sequence -/

/-- The key ends a sequence with the accent alone: navigation, the space, and what is read
as the zero scalar. -/
def closesAlone (key : Guint) : Bool :=
  isNonPrintableNavigationKey key ∨ keyToUnicode key = some ' '.val ∨ keyToUnicode key = some 0

/-- The text closes the sequence of a state on a key: it is the held literal alone, the
output of the rule for the held accent and the key's scalar, or the literal followed by
that scalar where no rule is for them. -/
def isClosingText (state : ComposeState) (key : Guint) (text : CString) : Bool :=
  (scalarOf state.pendingLiteral).any fun literal =>
    (closesAlone key ∧ text.bytes = encode [literal]) ∨
      (∃ rule ∈ composeRules, rule.accent = state.pending ∧
        keyToUnicode key = some rule.input ∧ text.bytes = encode rule.output.toList) ∨
      (keyScalar key).any fun c => c ≠ ' ' ∧
        (∀ rule ∈ composeRules, rule.accent = state.pending → rule.input ≠ c.val) ∧
        text.bytes = encode [literal, c]

/-- A navigation key closes the sequence with the literal alone. -/
theorem isClosingText_literal (accent : Accent) {key : Guint}
    (h : isNonPrintableNavigationKey key = true) :
    isClosingText (.holding (some accent)) key (.ofText [accent.literal]) = true := by
  have hbytes := CString.ofText_bytes accent.literal_zeroFree
  have halone : closesAlone key = true := by simp [closesAlone, h]
  simp only [isClosingText, holding_some_pendingLiteral, scalarOf_val, Option.any_some,
    decide_eq_true_eq]
  exact .inl ⟨halone, hbytes⟩

theorem keyScalar_of_keyEffect {key : Guint} {c : Char} (h : keyEffect key = .text c) :
    keyScalar key = some c := by
  rw [keyEffect] at h
  cases hcancel : isCancelKey key with
  | true => simp [hcancel] at h
  | false =>
      cases hscalar : keyScalar key with
      | some input => simpa [hcancel, hscalar] using h
      | none => cases hnav : isNonPrintableNavigationKey key <;> simp [hcancel, hscalar, hnav] at h

theorem isCancelKey_of_keyEffect {key : Guint} (h : keyEffect key = .cancel) :
    isCancelKey key = true := by
  rw [keyEffect] at h
  cases hcancel : isCancelKey key with
  | true => rfl
  | false =>
      cases hscalar : keyScalar key <;> cases hnav : isNonPrintableNavigationKey key <;>
        simp [hcancel, hscalar, hnav] at h

theorem keyEffect_of_cancel {key : Guint} (h : isCancelKey key = true) :
    keyEffect key = .cancel := by
  simp [keyEffect, h]

theorem isNavigation_of_keyEffect {key : Guint} (h : keyEffect key = .navigation) :
    isNonPrintableNavigationKey key = true := by
  rw [keyEffect] at h
  cases hnav : isNonPrintableNavigationKey key with
  | true => rfl
  | false =>
      cases hscalar : keyScalar key <;> cases hcancel : isCancelKey key <;>
        simp [hcancel, hscalar, hnav] at h

/-- The completion of an accent with a key's scalar closes the sequence on it. -/
theorem isClosingText_completion (accent : Accent) {key : Guint} {c : Char}
    (h : keyEffect key = .text c) :
    isClosingText (.holding (some accent)) key (.ofText (accent.completion c)) = true := by
  have hscalar := keyScalar_of_keyEffect h
  have hinput : keyToUnicode key = some c.val := by
    rw [keyToUnicode_eq, hscalar, Option.map_some]
  have hbytes := CString.ofText_bytes (accent.completion_zeroFree c)
  simp only [isClosingText, holding_some_pendingLiteral, scalarOf_val, hscalar, Option.any_some,
    decide_eq_true_eq, holding_some_pending]
  rcases accent.completion_cases c with
    ⟨halone, heq⟩ | ⟨rule, hmem, haccent, hrule, heq⟩ | ⟨hspace, -, hnone, heq⟩ <;>
    rw [heq] at hbytes ⊢
  · refine .inl ⟨?_, hbytes⟩
    rcases halone with rfl | hzero
    · simp [closesAlone, hinput]
    · simp [closesAlone, hinput, hzero]
  · exact .inr (.inl ⟨rule, hmem, haccent, by rw [hinput, hrule], hbytes⟩)
  · exact .inr (.inr (decide_eq_true ⟨hspace, hnone, hbytes⟩))

/-! ## The source's machine is the composer -/

theorem composeStateProcessKey_idle (key mods : Guint) :
    composeStateProcessKey (.holding none) key mods =
      ((composerStep none key mods).1, .holding (composerStep none key mods).2) := by
  simp only [composeStateProcessKey, holding_none_pending, ↓reduceIte, composerStep, openedAccent,
    pendingFromKey_eq]
  cases hrelease : hits mods composeModRelease with
  | true => simp [resultUnhandled]
  | false =>
      cases hshortcut : isModifierShortcut mods with
      | true => simp [resultUnhandled]
      | false =>
          cases haccent : Accent.ofKey key with
          | none => simp [resultUnhandled]
          | some accent => simp [resultHandled, ComposeState.holding]

theorem composeStateProcessKey_held (accent : Accent) (key mods : Guint) :
    composeStateProcessKey (.holding (some accent)) key mods =
      ((composerStep (some accent) key mods).1,
        .holding (composerStep (some accent) key mods).2) := by
  simp only [composeStateProcessKey, holding_some_pending, accent.pending_ne_none, ↓reduceIte,
    holding_some_pendingLiteral, composeStateReset_eq, composerStep, heldEffect, keyEffect]
  cases hrelease : hits mods composeModRelease with
  | true => simp [resultUnhandled]
  | false =>
      by_cases hcancel : key = scKeyEscape ∨ key = scKeyBackspace
      · have hkey : isCancelKey key = true := by simpa [isCancelKey] using hcancel
        simp [hcancel, hkey, resultHandled]
      · have hkey : isCancelKey key = false := by simpa [isCancelKey] using hcancel
        cases hshortcut : isModifierShortcut mods with
        | true => simp [hcancel, hkey, resultUnhandled]
        | false =>
            rw [keyToUnicode_eq]
            cases hscalar : keyScalar key with
            | none =>
                cases hnav : isNonPrintableNavigationKey key with
                | true => simp [hcancel, hkey, utf8FromUnichar_val]
                | false => simp [hcancel, hkey, resultUnhandled]
            | some c =>
                simp only [hcancel, hkey, Bool.false_eq_true, ↓reduceIte, Option.map_some, or_self,
                  false_and, ← Char.ext_iff, utf8FromUnichar_val, concatUnichars_val]
                by_cases hspace : c = ' '
                · simp [hspace, accent.completion_space]
                · rw [accent.ofText_completion hspace]
                  cases hlookup : lookupComposition accent.pending c.val with
                  | none => simp [hspace]
                  | some composed => simp [hspace, resultHandled, gStrdup, CString.ofText]

/-- **The source's machine computes the composer** on the states that represent
an optional accent, and leads back to such a state. -/
theorem composeStateProcessKey_holding (held : Option Accent) (key mods : Guint) :
    composeStateProcessKey (.holding held) key mods =
      ((composerStep held key mods).1, .holding (composerStep held key mods).2) := by
  cases held with
  | none => exact composeStateProcessKey_idle key mods
  | some accent => exact composeStateProcessKey_held accent key mods

/-- Every reachable compose state holds back one accent or nothing, with the
literal that belongs to it. -/
theorem exists_holding_of_reachable {state : ComposeState}
    (hreach : composeMachine.Reachable state) : ∃ held, state = ComposeState.holding held := by
  refine Transducer.Reachable.induct (P := fun state => ∃ held, state = ComposeState.holding held)
    ⟨none, rfl⟩ ?_ hreach
  intro _ call h
  rcases h with ⟨held, rfl⟩
  cases call with
  | processKey key mods =>
      exact ⟨(composerStep held key mods).2,
        congrArg Prod.snd (composeStateProcessKey_holding held key mods)⟩
  | reset => exact ⟨none, rfl⟩

end SilentCompose.Compose
