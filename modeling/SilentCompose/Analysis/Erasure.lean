/-
# Releases and modifier keys are transparent

The engine does nothing on the release of a key that is no AltGr key, and nothing on
the press of a Shift, Control, Caps Lock, Meta, left Alt, Super or Hyper key. Any of
these events may be erased from a run: the texts that are sent, what the other events
return, and the state at the end stay the same.
-/

import SilentCompose.Analysis.Chords
import SilentCompose.Compose.Keysyms
import SilentCompose.Engine.SymbolTable
import SilentCompose.Foundations.TwoRuns

namespace SilentCompose.Analysis

open SilentCompose.Foundations SilentCompose.Toolkit SilentCompose.Compose SilentCompose.Engine

/-- The release of a key that is no AltGr key, or the press of a modifier key other than
Right Alt whose keycode is zero or not in the AltGr table. -/
def IsTransparent (event : KeyEvent) : Prop :=
  (hits event.state ibusReleaseMask = true ∧ isAltgrModifierKey event.key = false) ∨
    (hits event.state ibusReleaseMask = false ∧ isModifierKeyval event.key = true ∧
      event.key ≠ ibusKeyAltR ∧
      (event.code = 0 ∨ ∀ symbol ∈ winIntlSymbols, event.code ≠ symbol.code))

instance (event : KeyEvent) : Decidable (IsTransparent event) :=
  inferInstanceAs (Decidable
    ((hits event.state ibusReleaseMask = true ∧ isAltgrModifierKey event.key = false) ∨
      (hits event.state ibusReleaseMask = false ∧ isModifierKeyval event.key = true ∧
        event.key ≠ ibusKeyAltR ∧
        (event.code = 0 ∨ ∀ symbol ∈ winIntlSymbols, event.code ≠ symbol.code))))

/-- The call delivers a transparent event. -/
def IsTransparentCall : Call → Prop
  | .processKeyEvent event => IsTransparent event
  | _ => False

instance (call : Call) : Decidable (IsTransparentCall call) :=
  match call with
  | .processKeyEvent event => inferInstanceAs (Decidable (IsTransparent event))
  | .reset => .isFalse id
  | .focusOut => .isFalse id
  | .disable => .isFalse id

/-! ## Modifier keys -/

/-- The modifier keys end the keysyms of the function-key page, short of Delete. -/
theorem isModifierKeyval_bounds {key : Guint} (h : isModifierKeyval key = true) :
    0xffe1 ≤ key ∧ key ≤ 0xffee := by
  simpa [isModifierKeyval] using h

theorem isFunctionKeyval_of_modifier {key : Guint} (h : isModifierKeyval key = true) :
    IsFunctionKeyval key := by
  have hbounds := isModifierKeyval_bounds h
  right
  grind

/-- Of the AltGr keys only Right Alt is a modifier keysym. -/
theorem isAltgrModifierKey_of_modifier {key : Guint} (h : isModifierKeyval key = true)
    (hkey : key ≠ ibusKeyAltR) : isAltgrModifierKey key = false := by
  have hbounds := isModifierKeyval_bounds h
  rw [isAltgrModifierKey, ibusKeyISOLevel3Shift, ibusKeyModeSwitch]
  have hlevel3 : key ≠ 0xfe03 := by grind
  have hswitch : key ≠ 0xff7e := by grind
  simp [hkey, hlevel3, hswitch]

/-- A modifier key neither cancels nor flushes a held accent. -/
theorem keyEffect_of_modifier {key : Guint} (h : isModifierKeyval key = true) :
    keyEffect key = .silent := by
  have hbounds := isModifierKeyval_bounds h
  have hcancel : isCancelKey key = false := by
    apply Bool.eq_false_iff.mpr
    intro hcancel
    simp only [isCancelKey, decide_eq_true_eq] at hcancel
    rcases hcancel with rfl | rfl <;> exact absurd hbounds (by decide)
  have hnav : isNonPrintableNavigationKey key = false := by
    apply Bool.eq_false_iff.mpr
    intro hnav
    simp only [isNonPrintableNavigationKey, decide_eq_true_eq] at hnav
    rcases hnav with rfl | rfl | rfl | rfl | rfl | rfl | rfl | rfl | rfl | rfl | ⟨-, hhigh⟩
    any_goals (revert hbounds; decide)
    -- The function keys of the list end right before the modifier keys.
    exact absurd (UInt32.le_trans hbounds.1 hhigh) (by decide)
  simp [keyEffect_of_function (isFunctionKeyval_of_modifier h), hcancel, hnav]

/-- The AltGr table has no entry for a modifier key, unless its keycode is in the table. -/
theorem not_matches_of_modifier {key code : Guint} (h : isModifierKeyval key = true)
    (hcode : code = 0 ∨ ∀ symbol ∈ winIntlSymbols, code ≠ symbol.code) {symbol : WinIntlSymbol}
    (hmem : symbol ∈ winIntlSymbols) : ¬symbol.Matches key code := by
  by_cases hzero : code = 0
  · have hlow : 0x80 ≤ key := UInt32.le_trans (by decide) (isModifierKeyval_bounds h).1
    rw [hzero]
    exact not_matches_of_le hmem hlow
  · rw [WinIntlSymbol.Matches, if_neg hzero]
    exact hcode.elim (fun heq => absurd heq hzero) fun hother => hother symbol hmem

/-! ## One transparent event -/

section OneEvent

variable {keyvalToUnicode : KeyvalToUnicode}

theorem isAltgrModifierKey_of_transparent {event : KeyEvent} (h : IsTransparent event) :
    isAltgrModifierKey event.key = false := by
  rcases h with ⟨-, hkey⟩ | ⟨-, hmodifier, hkey, -⟩
  · exact hkey
  · exact isAltgrModifierKey_of_modifier hmodifier hkey

/-- A transparent event passes no character through. -/
theorem passthroughChar_of_transparent
    (hzero : ∀ key, isModifierKeyval key = true → key ≠ ibusKeyAltR → keyvalToUnicode key = 0)
    {event : KeyEvent} (h : IsTransparent event) (altgr : Bool) :
    passthroughChar keyvalToUnicode event.key event.code event.state altgr = none := by
  cases hrefused : passthroughRefused event.state altgr with
  | true => exact passthroughChar_eq_none_of_refused keyvalToUnicode hrefused
  | false =>
      rcases h with ⟨hup, -⟩ | ⟨-, hmodifier, hkey, hcode⟩
      · simp [passthroughRefused, hup] at hrefused
      · have hnone : keyvalToUnicode event.key = 0 := hzero event.key hmodifier hkey
        cases hactive : altgrActive event.state altgr with
        | false =>
            have habove : aboveAscii 0 = none := by decide
            rw [passthroughChar, hrefused, hactive, hnone, habove]
            rfl
        | true =>
            rw [Option.eq_none_iff_forall_ne_some]
            intro c hchar
            have htable := (passthroughChar_eq_some_iff keyvalToUnicode hactive hrefused).mp hchar
            rcases matches_or_ne_zero_of_tableSymbol keyvalToUnicode htable with
              ⟨symbol, hmem, hmatch⟩ | hnonzero
            · exact not_matches_of_modifier hmodifier hcode hmem hmatch
            · exact hnonzero hnone

/-- A transparent event opens no accent. -/
theorem openedAccent_of_transparent {event : KeyEvent} (h : IsTransparent event) :
    openedAccent event.key (translateMods event.state) = none := by
  rw [openedAccent_translateMods]
  rcases h with ⟨hup, -⟩ | ⟨-, hmodifier, -, -⟩
  · rw [if_pos (.inl hup)]
  · rw [ofKey_eq_none_of_function (isFunctionKeyval_of_modifier hmodifier), ite_self]

/-- A transparent event does nothing to a held accent. -/
theorem heldEffect_of_transparent {event : KeyEvent} (h : IsTransparent event) :
    heldEffect event.key (translateMods event.state) = .silent := by
  rw [heldEffect_translateMods]
  rcases h with ⟨hup, -⟩ | ⟨-, hmodifier, -, -⟩
  · rw [if_pos (.inl hup)]
  · rw [keyEffect_of_modifier hmodifier, ite_self]

/-- A transparent event sends nothing and leaves a reachable engine as it was. -/
theorem step_of_transparent
    (hzero : ∀ key, isModifierKeyval key = true → key ≠ ibusKeyAltR → keyvalToUnicode key = 0)
    {self : ScEngine} (hreach : (engine keyvalToUnicode).Reachable self) {call : Call}
    (hcall : IsTransparentCall call) :
    ((engine keyvalToUnicode).step self call).1.commits = [] ∧
      ((engine keyvalToUnicode).step self call).2 = self := by
  obtain ⟨event, rfl, h⟩ : ∃ event, call = .processKeyEvent event ∧ IsTransparent event := by
    cases call with
    | processKeyEvent event => exact ⟨event, rfl, hcall⟩
    | reset => exact hcall.elim
    | focusOut => exact hcall.elim
    | disable => exact hcall.elim
  obtain ⟨held, altgr, rfl⟩ := exists_holding_of_reachable keyvalToUnicode hreach
  have hquiet := processKeyEvent_quiet keyvalToUnicode held altgr
    (isAltgrModifierKey_of_transparent h) (passthroughChar_of_transparent hzero h altgr)
    (openedAccent_of_transparent h) (heldEffect_of_transparent h)
  simp only [engine, hquiet, and_self]

end OneEvent

/-! ## Whole runs -/

/-- **Transparent events can be erased.** Erasing any of them from a run changes neither
the texts sent, nor the records of the other calls (what they return and send, and the
states around them), nor the state at the end. -/
theorem transparent_erased (keyvalToUnicode : KeyvalToUnicode)
    (hzero : ∀ key, isModifierKeyval key = true → key ≠ ibusKeyAltR → keyvalToUnicode key = 0)
    (marks : List Bool) (calls : List Call)
    (htransparent : ∀ call ∈ erased marks calls, IsTransparentCall call) :
    ((engine keyvalToUnicode).trace (kept marks calls)).flatMap (·.output.commits) =
        ((engine keyvalToUnicode).trace calls).flatMap (·.output.commits) ∧
      (engine keyvalToUnicode).trace (kept marks calls) =
        kept marks ((engine keyvalToUnicode).trace calls) ∧
      (engine keyvalToUnicode).stateAfter (kept marks calls) =
        (engine keyvalToUnicode).stateAfter calls := by
  have hreach := (engine keyvalToUnicode).reachable_stateAfter []
  obtain ⟨htrace, hstate⟩ := (engine keyvalToUnicode).kept_traceFrom hreach
    fun self hself call hcall => (step_of_transparent hzero hself (htransparent call hcall)).2
  refine ⟨?_, htrace.symm, hstate.symm⟩
  have hquiet : ∀ r ∈ erased marks ((engine keyvalToUnicode).trace calls),
      r.output.commits = [] := by
    intro r hmem
    obtain ⟨self, call, hself, hcall, rfl⟩ :=
      (engine keyvalToUnicode).exists_record_of_mem_erased hreach hmem
    exact (step_of_transparent hzero hself (htransparent call hcall)).1
  calc ((engine keyvalToUnicode).trace (kept marks calls)).flatMap (·.output.commits)
      = (kept marks ((engine keyvalToUnicode).trace calls)).flatMap (·.output.commits) :=
        congrArg (List.flatMap (·.output.commits)) htrace.symm
    _ = ((engine keyvalToUnicode).trace calls).flatMap (·.output.commits) :=
        flatMap_kept _ hquiet

/-- Apostrophe and `e` with Shift pressed and the apostrophe released in between. -/
theorem transparent_erased_small :
    ((engine smallKeyvalToUnicode).trace
        [.processKeyEvent ⟨0x27, 40, 0⟩, .processKeyEvent ⟨0x65, 18, 0⟩]).flatMap
          (·.output.commits) =
      ((engine smallKeyvalToUnicode).trace
        [.processKeyEvent ⟨0x27, 40, 0⟩, .processKeyEvent ⟨0xffe1, 42, 0⟩,
          .processKeyEvent ⟨0x27, 40, ibusReleaseMask⟩, .processKeyEvent ⟨0x65, 18, 0⟩]).flatMap
          (·.output.commits) :=
  (transparent_erased smallKeyvalToUnicode
    (fun key hmodifier _ =>
      lawfulKeyvals_small.function key (isFunctionKeyval_of_modifier hmodifier))
    [true, false, false, true]
    [.processKeyEvent ⟨0x27, 40, 0⟩, .processKeyEvent ⟨0xffe1, 42, 0⟩,
      .processKeyEvent ⟨0x27, 40, ibusReleaseMask⟩, .processKeyEvent ⟨0x65, 18, 0⟩]
    (by decide)).1

end SilentCompose.Analysis
