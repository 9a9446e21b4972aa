/-
# Typing means greedy pairing

A typist who holds no shortcut modifier and no AltGr key produces a list of
strokes. Its meaning is declarative: an accent takes the next stroke, whatever
that is, and the two yield one text; every other stroke stands alone. The client
of the engine receives exactly that, in order, over runs of any length with
releases and lifecycle calls anywhere.
-/

import SilentCompose.Compose.Keysyms
import SilentCompose.Engine.Steps
import SilentCompose.Foundations.Pairing

namespace SilentCompose.Analysis

open SilentCompose.Foundations SilentCompose.Toolkit SilentCompose.Compose SilentCompose.Engine

/-! ## Strokes and their meaning -/

/-- What the client receives: a committed text or a key event of its own. -/
inductive ClientItem
  | text (text : CString)
  | key (event : KeyEvent)
  deriving DecidableEq

/-- A stroke of the typist, or a lifecycle call between two strokes. -/
inductive Stroke
  | char (event : KeyEvent) (c : Char)
  | cancel (event : KeyEvent)
  | navigation (event : KeyEvent)
  | lifecycle
  deriving DecidableEq

/-- The meaning of a list of strokes. An accent character opens a pair; a
character closes it with the completed text, a cancel key or a lifecycle call
with nothing, a navigation key with the literal ahead of the key. Outside a pair
ASCII characters and other keys reach the client as keys, other characters as
text. -/
def typing : Pairing Stroke Accent ClientItem where
  opens
    | .char _ c => Accent.ofLiteral c
    | _ => none
  close
    | accent, .char _ c => [.text (.ofText (accent.completion c))]
    | _, .cancel _ => []
    | accent, .navigation event => [.text (.ofText [accent.literal]), .key event]
    | _, .lifecycle => []
  alone
    | .char event c => if c.val < 0x80 then [.key event] else [.text (.ofText [c])]
    | .cancel event => [.key event]
    | .navigation event => [.key event]
    | .lifecycle => []

/-- Shift_L, Shift_R and Caps_Lock. -/
def isShiftOrCapsLock (key : Guint) : Bool := key = 0xffe1 ∨ key = 0xffe2 ∨ key = 0xffe5

/-- The stroke a call is; releases and Shift or Caps Lock presses are none. -/
def stroke : Call → Option Stroke
  | .processKeyEvent event =>
    if hits event.state ibusReleaseMask ∨ isShiftOrCapsLock event.key then none
    else
      match printableScalar event.key with
      | some c => some (.char event c)
      | none =>
        if isCancelKey event.key then some (.cancel event) else some (.navigation event)
  | _ => some .lifecycle

/-- A key a typist presses: printable, cancel, navigation, Shift or Caps Lock. -/
def IsTypingKey (key : Guint) : Prop :=
  (IsLatin1Keyval key ∨ (IsUnicodeKeyval key ∧ gUnicharValidate (key - 0x01000000) = true)) ∨
    isCancelKey key = true ∨ isNonPrintableNavigationKey key = true ∨
    isShiftOrCapsLock key = true

instance (key : Guint) : Decidable (IsTypingKey key) :=
  inferInstanceAs (Decidable
    ((IsLatin1Keyval key ∨ (IsUnicodeKeyval key ∧ gUnicharValidate (key - 0x01000000) = true)) ∨
      isCancelKey key = true ∨ isNonPrintableNavigationKey key = true ∨
      isShiftOrCapsLock key = true))

/-- A call of a typing run: a lifecycle call, or a key event with all shortcut and
AltGr bits clear that is a release or presses a typing key. -/
def IsTypingCall : Call → Prop
  | .processKeyEvent event =>
    isAltgrModifierKey event.key = false ∧ plainModifiers event.state = true ∧
      (hits event.state ibusReleaseMask = false → IsTypingKey event.key)
  | _ => True

instance : (call : Call) → Decidable (IsTypingCall call)
  | .processKeyEvent event =>
    inferInstanceAs (Decidable
      (isAltgrModifierKey event.key = false ∧ plainModifiers event.state = true ∧
        (hits event.state ibusReleaseMask = false → IsTypingKey event.key)))
  | .reset => .isTrue trivial
  | .focusOut => .isTrue trivial
  | .disable => .isTrue trivial

/-- What the client receives in one step: the committed texts, then the key if a
press other than Shift or Caps Lock was left to it. -/
def clientItems (r : Record ScEngine Call Reply) : List ClientItem :=
  r.output.commits.map .text ++
    match r.input with
    | .processKeyEvent event =>
      if r.output.returned = some false ∧ ¬hits event.state ibusReleaseMask ∧
          ¬isShiftOrCapsLock event.key then [.key event]
      else []
    | _ => []

/-! ## One call at a time -/

/-- A printable key of the typist spells a character. -/
theorem exists_printableScalar {key : Guint}
    (h : IsLatin1Keyval key ∨ (IsUnicodeKeyval key ∧ gUnicharValidate (key - 0x01000000) = true)) :
    ∃ c, printableScalar key = some c := by
  unfold printableScalar scalarOf
  rcases h with hlatin1 | ⟨hunicode, hvalid⟩
  · have hvalid : gUnicharValidate key = true := by
      apply decide_eq_true
      rw [IsLatin1Keyval] at hlatin1
      simp only [UInt32.le_iff_toNat_le, UInt32.reduceToNat] at hlatin1
      apply Or.inl
      omega
    simp [hlatin1, hvalid]
  · simp [not_isLatin1Keyval_of_unicode hunicode, hunicode, hvalid]

theorem isFunctionKeyval_of_shiftOrCapsLock {key : Guint} (h : isShiftOrCapsLock key = true) :
    IsFunctionKeyval key := by
  simp only [isShiftOrCapsLock, decide_eq_true_eq] at h
  rcases h with rfl | rfl | rfl <;> decide

theorem keyEffect_of_shiftOrCapsLock {key : Guint} (h : isShiftOrCapsLock key = true) :
    keyEffect key = .silent := by
  simp only [isShiftOrCapsLock, decide_eq_true_eq] at h
  rcases h with rfl | rfl | rfl <;> decide

section Steps

variable {keyvalToUnicode : KeyvalToUnicode}

/-- A function key passes nothing through, so with nothing held it is left to the
client. -/
theorem processKeyEvent_function_idle (hlawful : LawfulKeyvals keyvalToUnicode)
    {event : KeyEvent} (haltgr : isAltgrModifierKey event.key = false)
    (hplain : plainModifiers event.state = true) (hkey : IsFunctionKeyval event.key) :
    processKeyEvent keyvalToUnicode (.holding none false) event.key event.code event.state =
      { handled := false, commits := [], engine := .holding none false } := by
  have hchar : passthroughChar keyvalToUnicode event.key event.code event.state false = none := by
    rw [passthroughChar_of_plain _ _ _ hplain, hlawful.function _ hkey]
    cases hits event.state ibusReleaseMask <;> decide
  have hopen : openedAccent event.key (translateMods event.state) = none := by
    simp [openedAccent, ofKey_eq_none_of_function hkey]
  rw [processKeyEvent_idle keyvalToUnicode _ _ _ haltgr, hchar, hopen]
  rfl

/-- A release is left to the client and changes nothing outside an AltGr session. -/
theorem processKeyEvent_release {held : Option Accent} {event : KeyEvent}
    (haltgr : isAltgrModifierKey event.key = false)
    (hrelease : hits event.state ibusReleaseMask = true) :
    processKeyEvent keyvalToUnicode (.holding held false) event.key event.code event.state =
      { handled := false, commits := [], engine := .holding held false } := by
  have hmods := hits_translateMods_release event.state
  rw [hrelease] at hmods
  have hchar : passthroughChar keyvalToUnicode event.key event.code event.state false = none :=
    passthroughChar_eq_none_of_refused _ (by simp [passthroughRefused, hrelease])
  rw [processKeyEvent_quiet keyvalToUnicode held false haltgr hchar
    (by simp [openedAccent, hmods]) (by simp [heldEffect, hmods])]
  simp [consumeAltgrChord]

/-- Calls that are no stroke show nothing and change nothing. -/
theorem silent_step (hlawful : LawfulKeyvals keyvalToUnicode) (held : Option Accent) {call : Call}
    (hcall : IsTypingCall call) (hstroke : stroke call = none) :
    clientItems ((engine keyvalToUnicode).record (.holding held false) call) = [] ∧
      ((engine keyvalToUnicode).step (.holding held false) call).2 = .holding held false := by
  cases call with
  | reset => cases hstroke
  | focusOut => cases hstroke
  | disable => cases hstroke
  | processKeyEvent event =>
      rcases hcall with ⟨haltgr, hplain, -⟩
      have hquiet : processKeyEvent keyvalToUnicode (.holding held false) event.key event.code
            event.state = { handled := false, commits := [], engine := .holding held false } ∧
          (hits event.state ibusReleaseMask = true ∨ isShiftOrCapsLock event.key = true) := by
        cases hrelease : hits event.state ibusReleaseMask with
        | true => exact ⟨processKeyEvent_release haltgr hrelease, .inl rfl⟩
        | false =>
            have hshift : isShiftOrCapsLock event.key = true := by
              by_contra hnot
              simp only [stroke, hrelease, hnot, Bool.false_eq_true, or_self, ↓reduceIte] at hstroke
              split at hstroke
              · cases hstroke
              · split_ifs at hstroke
            refine ⟨?_, .inr hshift⟩
            have hfunction := isFunctionKeyval_of_shiftOrCapsLock hshift
            cases held with
            | none => exact processKeyEvent_function_idle hlawful haltgr hplain hfunction
            | some accent =>
                rw [processKeyEvent_held keyvalToUnicode _ _ _ _ haltgr,
                  heldEffect_of_plain _ hplain hrelease, keyEffect_of_shiftOrCapsLock hshift]
      rcases hquiet with ⟨hstep, hignored⟩
      simp only [clientItems, Transducer.record, engine, hstep]
      rcases hignored with hignored | hignored <;> simp [hignored]

/-- The key event of a stroke is a press; its key spells a character, cancels or
navigates, and the stroke says which. -/
theorem stroke_cases {event : KeyEvent} {s : Stroke}
    (hcall : IsTypingCall (.processKeyEvent event))
    (hstroke : stroke (.processKeyEvent event) = some s) :
    hits event.state ibusReleaseMask = false ∧ isShiftOrCapsLock event.key = false ∧
      ((∃ c, printableScalar event.key = some c ∧ s = .char event c) ∨
        (isCancelKey event.key = true ∧ s = .cancel event) ∨
        (isCancelKey event.key = false ∧ isNonPrintableNavigationKey event.key = true ∧
          s = .navigation event)) := by
  rcases hcall with ⟨-, -, htyping⟩
  have hnone : ¬(hits event.state ibusReleaseMask = true ∨ isShiftOrCapsLock event.key = true) := by
    intro hnone
    simp [stroke, hnone] at hstroke
  rw [stroke, if_neg hnone] at hstroke
  simp only [not_or, Bool.not_eq_true] at hnone
  rcases hnone with ⟨hpress, hshift⟩
  refine ⟨hpress, hshift, ?_⟩
  cases hscalar : printableScalar event.key with
  | some c =>
      rw [hscalar] at hstroke
      exact .inl ⟨c, rfl, (Option.some.inj hstroke).symm⟩
  | none =>
      rw [hscalar] at hstroke
      cases hcancel : isCancelKey event.key with
      | true =>
          rw [hcancel] at hstroke
          exact .inr (.inl ⟨rfl, (Option.some.inj hstroke).symm⟩)
      | false =>
          rw [hcancel] at hstroke
          have hnav : isNonPrintableNavigationKey event.key = true := by
            rcases htyping hpress with hprintable | hkey | hkey | hkey
            · obtain ⟨c, hc⟩ := exists_printableScalar hprintable
              rw [hscalar] at hc
              cases hc
            · exact absurd hkey (by simp [hcancel])
            · exact hkey
            · exact absurd hkey (by simp [hshift])
          exact .inr (.inr ⟨rfl, hnav, (Option.some.inj hstroke).symm⟩)

/-- What the client receives from a press of the typist: the texts, then the key
unless it was consumed. -/
theorem clientItems_press (self : ScEngine) {event : KeyEvent} {outcome : KeyOutcome}
    (hpress : hits event.state ibusReleaseMask = false)
    (hshift : isShiftOrCapsLock event.key = false)
    (houtcome : processKeyEvent keyvalToUnicode self event.key event.code event.state = outcome) :
    clientItems ((engine keyvalToUnicode).record self (.processKeyEvent event)) =
      outcome.commits.map .text ++ if outcome.handled then [] else [.key event] := by
  subst houtcome
  cases hhandled :
      (processKeyEvent keyvalToUnicode self event.key event.code event.state).handled <;>
    simp [clientItems, Transducer.record, engine, hpress, hshift, hhandled]

/-- A character passes through by itself exactly when it is above ASCII. -/
theorem aboveAscii_of_printable {key : Guint} {c : Char} (h : printableScalar key = some c) :
    aboveAscii c.val = if c.val < 0x80 then none else some c := by
  simp [aboveAscii, not_iscntrl_of_printable h]

/-- The accents are ASCII characters. -/
theorem ofLiteral_eq_none_of_le {c : Char} (h : 0x80 ≤ c.val) : Accent.ofLiteral c = none := by
  rw [Option.eq_none_iff_forall_ne_some]
  intro accent haccent
  rw [Accent.ofLiteral_eq_some_iff] at haccent
  subst haccent
  revert h
  cases accent <;> decide

/-- With nothing held a character opens an accent or stands alone. -/
theorem processKeyEvent_char_idle (hlawful : LawfulKeyvals keyvalToUnicode) {event : KeyEvent}
    {c : Char} (haltgr : isAltgrModifierKey event.key = false)
    (hplain : plainModifiers event.state = true)
    (hpress : hits event.state ibusReleaseMask = false)
    (hscalar : printableScalar event.key = some c) :
    processKeyEvent keyvalToUnicode (.holding none false) event.key event.code event.state =
      if c.val < 0x80 then
        match Accent.ofLiteral c with
        | some accent =>
          { handled := true, commits := [], engine := .holding (some accent) false }
        | none => { handled := false, commits := [], engine := .holding none false }
      else { handled := true, commits := [.ofText [c]], engine := .holding none false } := by
  rw [processKeyEvent_idle keyvalToUnicode _ _ _ haltgr, passthroughChar_of_plain _ _ _ hplain,
    hpress, keyvalToUnicode_of_printable hlawful hscalar, aboveAscii_of_printable hscalar,
    openedAccent_of_plain _ hplain hpress, ofKey_of_printable hscalar]
  by_cases hascii : c.val < 0x80
  · cases Accent.ofLiteral c <;> simp [hascii, consumeAltgrChord]
  · simp [hascii]

/-- A stroke shows what the pairing machine yields and leads to the state that
holds what the machine holds. -/
theorem stroke_step (hlawful : LawfulKeyvals keyvalToUnicode) (held : Option Accent) {call : Call}
    {s : Stroke} (hcall : IsTypingCall call) (hstroke : stroke call = some s) :
    clientItems ((engine keyvalToUnicode).record (.holding held false) call) =
        (typing.holding.step held s).1 ∧
      ((engine keyvalToUnicode).step (.holding held false) call).2 =
        .holding (typing.holding.step held s).2 false := by
  cases call with
  | reset => cases hstroke; cases held <;> exact ⟨rfl, rfl⟩
  | focusOut => cases hstroke; cases held <;> exact ⟨rfl, rfl⟩
  | disable => cases hstroke; cases held <;> exact ⟨rfl, rfl⟩
  | processKeyEvent event =>
      obtain ⟨hpress, hshift, hcases⟩ := stroke_cases hcall hstroke
      rcases hcall with ⟨haltgr, hplain, -⟩
      cases held with
      | none =>
          rcases hcases with ⟨c, hscalar, rfl⟩ | ⟨hcancel, rfl⟩ | ⟨-, hnav, rfl⟩
          · have houtcome := processKeyEvent_char_idle hlawful haltgr hplain hpress hscalar
            rw [clientItems_press _ hpress hshift houtcome]
            simp only [engine, houtcome]
            by_cases hascii : c.val < 0x80
            · cases hopen : Accent.ofLiteral c <;>
                simp [typing, Pairing.holding, hascii, hopen]
            · have hopen := ofLiteral_eq_none_of_le (UInt32.not_lt.mp hascii)
              simp [typing, Pairing.holding, hascii, hopen]
          · have houtcome := processKeyEvent_function_idle hlawful haltgr hplain
              (isFunctionKeyval_of_cancel hcancel)
            rw [clientItems_press _ hpress hshift houtcome]
            simp only [engine, houtcome]
            exact ⟨rfl, rfl⟩
          · have houtcome := processKeyEvent_function_idle hlawful haltgr hplain
              (isFunctionKeyval_of_navigation hnav)
            rw [clientItems_press _ hpress hshift houtcome]
            simp only [engine, houtcome]
            exact ⟨rfl, rfl⟩
      | some accent =>
          have houtcome := processKeyEvent_held keyvalToUnicode accent false event.code event.state
            haltgr
          rw [heldEffect_of_plain _ hplain hpress] at houtcome
          rcases hcases with ⟨c, hscalar, rfl⟩ | ⟨hcancel, rfl⟩ | ⟨hcancel, hnav, rfl⟩
          · rw [keyEffect_of_printable hscalar] at houtcome
            rw [clientItems_press _ hpress hshift houtcome]
            simp only [engine, houtcome]
            exact ⟨rfl, rfl⟩
          · rw [keyEffect, hcancel] at houtcome
            rw [clientItems_press _ hpress hshift houtcome]
            simp only [engine, houtcome]
            exact ⟨rfl, rfl⟩
          · have hfunction := isFunctionKeyval_of_navigation hnav
            have hchar : passthroughChar keyvalToUnicode event.key event.code event.state false =
                none := by
              rw [passthroughChar_of_plain _ _ _ hplain, hpress, hlawful.function _ hfunction]
              rfl
            rw [keyEffect_of_function hfunction, hcancel, hnav] at houtcome
            simp only [Bool.false_eq_true, ↓reduceIte, hchar] at houtcome
            rw [clientItems_press _ hpress hshift houtcome]
            simp only [engine, houtcome]
            exact ⟨rfl, rfl⟩

end Steps

/-! ## Whole runs -/

/-- **A typing run means its greedy pairing.** Over every run of typing calls on a
fresh engine, the client receives what the pairing of the strokes yields. -/
theorem client_receives_pairing {keyvalToUnicode : KeyvalToUnicode}
    (hlawful : LawfulKeyvals keyvalToUnicode) (calls : List Call)
    (hcalls : ∀ call ∈ calls, IsTypingCall call) :
    ((engine keyvalToUnicode).trace calls).flatMap clientItems =
      typing.pairUp (calls.filterMap stroke) := by
  rw [← Pairing.heldYield_none]
  apply Transducer.flatMap_traceFrom_eq_of_simulation (engine keyvalToUnicode) typing.holding
    stroke clientItems Record.output (fun self held => self = .holding held false) IsTypingCall
  · intro self held call hself hcall hstroke
    subst hself
    exact silent_step hlawful held hcall hstroke
  · intro self held call s hself hcall hstroke
    subst hself
    exact stroke_step hlawful held hcall hstroke
  · rfl
  · exact hcalls

/-- Apostrophe and `e`, the release of `e`, then tilde and Left, tilde and a reset, and `x`. -/
theorem client_receives_pairing_small :
    ((engine smallKeyvalToUnicode).trace
      [.processKeyEvent ⟨0x27, 40, 0⟩, .processKeyEvent ⟨0x65, 18, 0⟩,
        .processKeyEvent ⟨0x65, 18, ibusReleaseMask⟩, .processKeyEvent ⟨0x7e, 41, ibusShiftMask⟩,
        .processKeyEvent ⟨0xff51, 105, 0⟩, .processKeyEvent ⟨0x7e, 41, ibusShiftMask⟩, .reset,
        .processKeyEvent ⟨0x78, 45, 0⟩]).flatMap clientItems =
      [.text (.ofText ['é']), .text (.ofText ['~']), .key ⟨0xff51, 105, 0⟩,
        .key ⟨0x78, 45, 0⟩] :=
  (client_receives_pairing lawfulKeyvals_small _ (by decide)).trans (by decide)

end SilentCompose.Analysis
