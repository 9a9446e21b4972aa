/-
# Modifier bits that never matter

The engine reads seven modifiers of an event: Shift, Control, Mod1, Mod4, Mod5, Super
and Release, of which Mod4 and Super mean the same and Shift counts only while AltGr is
active. Two runs whose events differ in other bits cannot be told apart, neither by
what they return and send nor by the states they pass through.
-/

import SilentCompose.Engine.Steps
import SilentCompose.Foundations.TwoRuns

namespace SilentCompose.Analysis

open SilentCompose.Foundations SilentCompose.Toolkit SilentCompose.Compose SilentCompose.Engine

/-! ## Events with the same relevant bits -/

/-- Two modifier masks report the same Release, Control, Mod1 and Mod5, both or neither
a Super chord, in whatever way, and, where AltGr is active for a key that is not an AltGr
key itself, the same Shift. -/
@[mk_iff sameRelevantBits_iff]
structure SameRelevantBits (altgr : Bool) (key first second : Guint) : Prop where
  release : hits first ibusReleaseMask = hits second ibusReleaseMask
  control : hits first ibusControlMask = hits second ibusControlMask
  mod1 : hits first ibusMod1Mask = hits second ibusMod1Mask
  mod5 : hits first ibusMod5Mask = hits second ibusMod5Mask
  super : (hits first ibusSuperMask || hits first ibusMod4Mask) =
    (hits second ibusSuperMask || hits second ibusMod4Mask)
  shift : isAltgrModifierKey key = false → altgrActive first altgr = true →
    hits first ibusShiftMask = hits second ibusShiftMask

instance (altgr : Bool) (key first second : Guint) :
    Decidable (SameRelevantBits altgr key first second) :=
  decidable_of_iff' _ (sameRelevantBits_iff altgr key first second)

/-- The same call, made with this AltGr flag, up to bits that do not matter. -/
inductive SameCall (altgr : Bool) : Call → Call → Prop
  | event {first second : KeyEvent} (hkey : first.key = second.key)
      (hcode : first.code = second.code)
      (hbits : SameRelevantBits altgr first.key first.state second.state) :
      SameCall altgr (.processKeyEvent first) (.processKeyEvent second)
  | reset : SameCall altgr .reset .reset
  | focusOut : SameCall altgr .focusOut .focusOut
  | disable : SameCall altgr .disable .disable

/-! ## One event -/

section OneEvent

variable (keyvalToUnicode : KeyvalToUnicode) {altgr : Bool} {key first second : Guint}

theorem blockedChord_congr (hbits : SameRelevantBits altgr key first second) :
    blockedChord first = blockedChord second := by
  rw [blockedChord_eq, blockedChord_eq, hits_or, hits_or, hbits.control, hbits.super]

theorem altgrActive_congr (hbits : SameRelevantBits altgr key first second) :
    altgrActive first altgr = altgrActive second altgr := by
  rw [altgrActive, altgrActive, hbits.mod5]

theorem isModifierShortcut_congr (hbits : SameRelevantBits altgr key first second) :
    isModifierShortcut (translateMods first) = isModifierShortcut (translateMods second) := by
  rw [isModifierShortcut_translateMods, isModifierShortcut_translateMods, hbits.mod1,
    blockedChord_congr hbits]

/-- The lookup reads Shift, and only while AltGr is active. -/
theorem winIntlLookup_congr (code : Guint) (hkey : isAltgrModifierKey key = false)
    (hbits : SameRelevantBits altgr key first second) :
    winIntlLookup keyvalToUnicode key code first altgr =
      winIntlLookup keyvalToUnicode key code second altgr := by
  cases hactive : altgrActive first altgr with
  | true => rw [winIntlLookup, winIntlLookup, hbits.mod5, hbits.shift hkey hactive]
  | false =>
      have hactive' : altgrActive second altgr = false :=
        (altgrActive_congr hbits).symm.trans hactive
      rw [winIntlLookup_eq_none keyvalToUnicode hactive,
        winIntlLookup_eq_none keyvalToUnicode hactive']

theorem passthroughChar_congr (code : Guint) (hkey : isAltgrModifierKey key = false)
    (hbits : SameRelevantBits altgr key first second) :
    passthroughChar keyvalToUnicode key code first altgr =
      passthroughChar keyvalToUnicode key code second altgr := by
  rw [passthroughChar, passthroughChar, passthroughRefused, passthroughRefused, hbits.release,
    hbits.mod1, blockedChord_congr hbits, altgrActive_congr hbits,
    winIntlLookup_congr keyvalToUnicode code hkey hbits]

theorem consumeAltgrChord_congr (hbits : SameRelevantBits altgr key first second) :
    consumeAltgrChord altgr first = consumeAltgrChord altgr second := by
  have hblocked : blockedChord first = blockedChord second := blockedChord_congr hbits
  rw [blockedChord, blockedChord] at hblocked
  rw [consumeAltgrChord, consumeAltgrChord, hblocked]

/-- The handler of key events returns, sends and stores the same for both masks. -/
theorem processKeyEvent_congr (self : ScEngine) (code : Guint)
    (hbits : SameRelevantBits self.altgr key first second) :
    processKeyEvent keyvalToUnicode self key code first =
      processKeyEvent keyvalToUnicode self key code second := by
  cases hkey : isAltgrModifierKey key with
  | true =>
      rw [processKeyEvent_altgrKey keyvalToUnicode self code first hkey,
        processKeyEvent_altgrKey keyvalToUnicode self code second hkey, hbits.release]
  | false =>
      have hchar := passthroughChar_congr keyvalToUnicode code hkey hbits
      have hcompose := composeStateProcessKey_congr self.compose key
        (by rw [hits_translateMods_release, hits_translateMods_release, hbits.release])
        (isModifierShortcut_congr hbits)
      simp only [processKeyEvent, updateAltgrSession, hkey, Bool.false_eq_true, not_false_eq_true,
        ↓reduceIte, commitPassthrough_eq, hchar, hcompose, consumeAltgrChord_congr hbits]

end OneEvent

/-! ## Whole runs -/

/-- A call takes the same step whichever of the two masks it reports. -/
theorem step_congr (keyvalToUnicode : KeyvalToUnicode) (self : ScEngine) {first second : Call}
    (hsame : SameCall self.altgr first second) :
    (engine keyvalToUnicode).step self first = (engine keyvalToUnicode).step self second := by
  cases hsame with
  | @event first second hkey hcode hbits =>
      simp only [engine]
      rw [← hkey, ← hcode, processKeyEvent_congr keyvalToUnicode self first.code hbits]
  | reset => rfl
  | focusOut => rfl
  | disable => rfl

/-- **Irrelevant bits do not interfere.** Two runs that make the same calls up to bits
that do not matter return the same, send the same texts and are in the same state at
every step. -/
theorem everyStep_irrelevantBits (keyvalToUnicode : KeyvalToUnicode)
    (pairs : List (Call × Call))
    (hpairs : EveryStep pairs fun before pair =>
      SameCall ((engine keyvalToUnicode).stateAfter (before.map Prod.fst)).altgr pair.1 pair.2) :
    EveryStep pairs (engine keyvalToUnicode).RunsAgree :=
  (engine keyvalToUnicode).everyStep_runsAgree (E := fun self first second =>
    SameCall self.altgr first second) (fun self _ _ hsame => step_congr keyvalToUnicode self hsame)
    hpairs

/-- An accent with and without Caps Lock and Num Lock, a Super chord as Super and as Mod4,
and a letter with and without Shift. -/
theorem everyStep_irrelevantBits_small :
    EveryStep
      [(.processKeyEvent ⟨0x27, 40, 0⟩, .processKeyEvent ⟨0x27, 40, 0x12⟩),
        (.processKeyEvent ⟨0x63, 46, ibusSuperMask⟩, .processKeyEvent ⟨0x63, 46, ibusMod4Mask⟩),
        (.processKeyEvent ⟨0x65, 18, 0⟩, .processKeyEvent ⟨0x65, 18, ibusShiftMask⟩)]
      (engine smallKeyvalToUnicode).RunsAgree :=
  everyStep_irrelevantBits smallKeyvalToUnicode _ <|
    everyStep_cons.mpr ⟨.event rfl rfl (by decide),
      everyStep_cons.mpr ⟨.event rfl rfl (by decide),
        everyStep_cons.mpr ⟨.event rfl rfl (by decide), everyStep_nil⟩⟩⟩

end SilentCompose.Analysis
