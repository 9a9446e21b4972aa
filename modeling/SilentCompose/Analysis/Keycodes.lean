/-
# Where keycodes matter

Most of the engine reads keysyms. The keycode of an event is looked at only by the AltGr
table, so only while AltGr is active, for an event that is no chord and no release, and
only if no accent stands in between. There it does matter: two keycodes are answered
differently. Anywhere else a layout or a remapping tool may report any keycode.
-/

import SilentCompose.Engine.SymbolTable
import SilentCompose.Engine.Steps
import SilentCompose.Foundations.TwoRuns

namespace SilentCompose.Analysis

open SilentCompose.Foundations SilentCompose.Toolkit SilentCompose.Compose SilentCompose.Engine

/-- In this state the keycode of an event with this keysym and these modifiers is read. -/
def readsKeycode (self : ScEngine) (key state : Guint) : Bool :=
  !isAltgrModifierKey key && altgrActive state self.altgr &&
    !passthroughRefused state self.altgr &&
    (!isPending self || decide (heldEffect key (translateMods state) = .navigation))

/-- The same call, up to a keycode that is not read in this state. -/
inductive SameKeypress (self : ScEngine) : Call → Call → Prop
  | event {key code code' state : Guint}
      (hcode : readsKeycode self key state = true → code = code') :
      SameKeypress self (.processKeyEvent ⟨key, code, state⟩) (.processKeyEvent ⟨key, code', state⟩)
  | lifecycle {call : Call} (hcall : ∀ event, call ≠ .processKeyEvent event) :
      SameKeypress self call call

section OneEvent

variable (keyvalToUnicode : KeyvalToUnicode)

/-- Refused events and events without AltGr pass through what their keysym says. -/
theorem passthroughChar_keycode {key state : Guint} {altgr : Bool}
    (hunread : passthroughRefused state altgr = true ∨ altgrActive state altgr = false)
    (code code' : Guint) :
    passthroughChar keyvalToUnicode key code state altgr =
      passthroughChar keyvalToUnicode key code' state altgr := by
  rcases hunread with hrefused | hinactive
  · rw [passthroughChar_eq_none_of_refused keyvalToUnicode hrefused,
      passthroughChar_eq_none_of_refused keyvalToUnicode hrefused]
  · rw [passthroughChar, passthroughChar, hinactive]
    rfl

/-- A keycode that is not read does not change the step. -/
theorem step_keycode {held : Option Accent} {altgr : Bool} {key state : Guint}
    (hunread : readsKeycode (.holding held altgr) key state = false) (code code' : Guint) :
    (engine keyvalToUnicode).step (.holding held altgr) (.processKeyEvent ⟨key, code, state⟩) =
      (engine keyvalToUnicode).step (.holding held altgr)
        (.processKeyEvent ⟨key, code', state⟩) := by
  simp only [readsKeycode, holding_altgr, isPending_holding, Bool.and_eq_false_iff,
    Bool.not_eq_false', Bool.or_eq_false_iff, decide_eq_false_iff_not] at hunread
  simp only [engine]
  cases hkey : isAltgrModifierKey key with
  | true =>
      rw [processKeyEvent_altgrKey keyvalToUnicode _ _ _ hkey,
        processKeyEvent_altgrKey keyvalToUnicode _ _ _ hkey]
  | false =>
      by_cases hchar : passthroughRefused state altgr = true ∨ altgrActive state altgr = false
      · have hsame := @passthroughChar_keycode keyvalToUnicode key _ _ hchar code code'
        cases held with
        | none =>
            rw [processKeyEvent_idle keyvalToUnicode _ _ _ hkey,
              processKeyEvent_idle keyvalToUnicode _ _ _ hkey, hsame]
        | some accent =>
            rw [processKeyEvent_held keyvalToUnicode _ _ _ _ hkey,
              processKeyEvent_held keyvalToUnicode _ _ _ _ hkey, hsame]
      · -- The character would be read, so an accent is held and the key is no navigation.
        have hheld : held.isSome = true ∧ heldEffect key (translateMods state) ≠ .navigation := by
          rcases hunread with ((hunread | hunread) | hunread) | hunread
          · exact absurd hunread (by simp [hkey])
          · exact absurd (.inr hunread) hchar
          · exact absurd (.inl hunread) hchar
          · exact hunread
        obtain ⟨accent, rfl⟩ := Option.isSome_iff_exists.mp hheld.1
        rw [processKeyEvent_held keyvalToUnicode _ _ _ _ hkey,
          processKeyEvent_held keyvalToUnicode _ _ _ _ hkey]
        cases heffect : heldEffect key (translateMods state) with
        | silent => rfl
        | cancel => rfl
        | text c => rfl
        | navigation => exact absurd heffect hheld.2

/-- Where the keycode is read, that of the key `1` and that of Escape are answered
differently: the first passes a character through, the second nothing. -/
theorem step_ne_of_readsKeycode {held : Option Accent} {altgr : Bool} {key state : Guint}
    (hread : readsKeycode (.holding held altgr) key state = true) :
    (engine keyvalToUnicode).step (.holding held altgr) (.processKeyEvent ⟨key, 2, state⟩) ≠
      (engine keyvalToUnicode).step (.holding held altgr) (.processKeyEvent ⟨key, 1, state⟩) := by
  simp only [readsKeycode, holding_altgr, isPending_holding, Bool.and_eq_true, Bool.not_eq_true',
    Bool.or_eq_true, decide_eq_true_eq] at hread
  obtain ⟨⟨⟨hkey, hactive⟩, haccepted⟩, hreached⟩ := hread
  have hone : ∃ symbol ∈ winIntlSymbols, symbol.code = 2 ∧
      ∀ shifted : Bool, symbol.symbolAt shifted ≠ 0 := by decide
  obtain ⟨symbol, hmem, hcode, hnonzero⟩ := hone
  obtain ⟨c, -, hchar⟩ := @passthroughChar_of_listed keyvalToUnicode symbol key state altgr
    hactive haccepted hmem (hnonzero _)
  have hnone : passthroughChar keyvalToUnicode key 1 state altgr = none :=
    passthroughChar_of_unlisted keyvalToUnicode hactive (by decide) (by decide)
  rw [hcode] at hchar
  simp only [engine]
  cases held with
  | none =>
      rw [processKeyEvent_idle keyvalToUnicode _ _ _ hkey,
        processKeyEvent_idle keyvalToUnicode _ _ _ hkey, hchar, hnone]
      cases openedAccent key (translateMods state) <;> simp
  | some accent =>
      have heffect : heldEffect key (translateMods state) = .navigation :=
        hreached.resolve_left (by simp)
      rw [processKeyEvent_held keyvalToUnicode _ _ _ _ hkey,
        processKeyEvent_held keyvalToUnicode _ _ _ _ hkey, heffect, hchar, hnone]
      simp

end OneEvent

/-! ## Whole runs -/

/-- **The keycode of an event matters exactly where it is read**, after every run. -/
theorem keycode_matters_iff (keyvalToUnicode : KeyvalToUnicode) (calls : List Call)
    (key state : Guint) :
    (∃ code code',
      (engine keyvalToUnicode).step ((engine keyvalToUnicode).stateAfter calls)
          (.processKeyEvent ⟨key, code, state⟩) ≠
        (engine keyvalToUnicode).step ((engine keyvalToUnicode).stateAfter calls)
          (.processKeyEvent ⟨key, code', state⟩)) ↔
      readsKeycode ((engine keyvalToUnicode).stateAfter calls) key state = true := by
  obtain ⟨held, altgr, hstate⟩ := exists_holding_of_reachable keyvalToUnicode
    ((engine keyvalToUnicode).reachable_stateAfter calls)
  rw [hstate]
  apply Iff.intro
  · rintro ⟨code, code', hne⟩
    by_contra hunread
    exact hne (step_keycode keyvalToUnicode (Bool.eq_false_iff.mpr hunread) code code')
  · intro hread
    exact ⟨2, 1, step_ne_of_readsKeycode keyvalToUnicode hread⟩

/-- **Keycodes that are not read do not interfere.** Two runs that make the same calls up
to such keycodes return the same, send the same texts and are in the same state at every
step. -/
theorem everyStep_keycodes (keyvalToUnicode : KeyvalToUnicode) (pairs : List (Call × Call))
    (hpairs : EveryStep pairs fun before pair =>
      SameKeypress ((engine keyvalToUnicode).stateAfter (before.map Prod.fst)) pair.1 pair.2) :
    EveryStep pairs (engine keyvalToUnicode).RunsAgree := by
  let related : ScEngine → Call → Call → Prop := fun self first second =>
    (∃ held altgr, self = .holding held altgr) ∧ SameKeypress self first second
  have hstep : ∀ self first second, related self first second →
      (engine keyvalToUnicode).step self first = (engine keyvalToUnicode).step self second := by
    rintro _ first second ⟨⟨held, altgr, rfl⟩, hsame⟩
    cases hsame with
    | lifecycle hcall => rfl
    | @event key code code' state hcode =>
        cases hread : readsKeycode (.holding held altgr) key state with
        | true => rw [hcode hread]
        | false => exact step_keycode keyvalToUnicode hread code code'
  refine (engine keyvalToUnicode).everyStep_runsAgree hstep ?_
  intro before pair after hsplit
  exact ⟨exists_holding_of_reachable keyvalToUnicode
    ((engine keyvalToUnicode).reachable_stateAfter _), hpairs before pair after hsplit⟩

/-- An apostrophe and `e` with other keycodes, and `e` with AltGr held and its own one. -/
theorem everyStep_keycodes_small :
    EveryStep
      [(.processKeyEvent ⟨0x27, 40, 0⟩, .processKeyEvent ⟨0x27, 12, 0⟩),
        (.processKeyEvent ⟨0x65, 18, ibusMod5Mask⟩, .processKeyEvent ⟨0x65, 0, ibusMod5Mask⟩),
        (.processKeyEvent ⟨0x65, 18, ibusMod5Mask⟩, .processKeyEvent ⟨0x65, 18, ibusMod5Mask⟩)]
      (engine smallKeyvalToUnicode).RunsAgree :=
  everyStep_keycodes smallKeyvalToUnicode _ <|
    everyStep_cons.mpr ⟨.event (by decide), everyStep_cons.mpr ⟨.event (by decide),
      everyStep_cons.mpr ⟨.event (by decide), everyStep_nil⟩⟩⟩

end SilentCompose.Analysis
