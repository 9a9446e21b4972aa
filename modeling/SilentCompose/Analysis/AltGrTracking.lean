/-
# The AltGr flag against the keys that are down

The engine keeps one flag for AltGr, set and cleared by keysyms. The physical fact
behind it is a set of keycodes: those pressed as an AltGr key whose release has not
come yet, under whatever keysym. The flag says whether that set is inhabited as long
as no release tells the two apart.
-/

import Mathlib.Data.Finset.Basic
import SilentCompose.Engine.Steps

namespace SilentCompose.Analysis

open SilentCompose.Foundations SilentCompose.Toolkit SilentCompose.Compose SilentCompose.Engine

/-! ## The keys that are down -/

/-- The keycodes held as AltGr keys after one more call: an AltGr press adds its
keycode, any release removes its own, a lifecycle call removes all. -/
def trackAltgrKeys (held : Finset Guint) : Call → Finset Guint
  | .processKeyEvent event =>
    if hits event.state ibusReleaseMask then held.erase event.code
    else if isAltgrModifierKey event.key then insert event.code held
    else held
  | _ => ∅

/-- The keycodes held as AltGr keys after a run. -/
def heldAltgrKeys (calls : List Call) : Finset Guint := calls.foldl trackAltgrKeys ∅

@[simp]
theorem heldAltgrKeys_nil : heldAltgrKeys [] = ∅ := rfl

@[simp]
theorem heldAltgrKeys_concat (calls : List Call) (call : Call) :
    heldAltgrKeys (calls ++ [call]) = trackAltgrKeys (heldAltgrKeys calls) call := by
  simp [heldAltgrKeys]

/-- After this call the flag is set exactly if an AltGr key is held. -/
def FlagIsHeld (keyvalToUnicode : KeyvalToUnicode) (before : List Call) (call : Call) : Prop :=
  ((engine keyvalToUnicode).stateAfter (before ++ [call])).altgr = true ↔
    (heldAltgrKeys (before ++ [call])).Nonempty

/-- A release under an AltGr keysym leaves no other AltGr key held, and a release under
another keysym is not that of the last one held. -/
def ReleaseAgrees (before : List Call) : Call → Prop
  | .processKeyEvent event =>
    hits event.state ibusReleaseMask = true →
      if isAltgrModifierKey event.key then (heldAltgrKeys before).erase event.code = ∅
      else (heldAltgrKeys before).erase event.code = ∅ → heldAltgrKeys before = ∅
  | _ => True

/-! ## One call -/

/-- The flag after a call: its own keys set and clear it, a lifecycle call clears it. -/
def flagAfter (altgr : Bool) : Call → Bool
  | .processKeyEvent event =>
    if isAltgrModifierKey event.key then !hits event.state ibusReleaseMask else altgr
  | _ => false

theorem altgr_of_engineStep {keyvalToUnicode : KeyvalToUnicode} {held held' : Option Accent}
    {altgr altgr' : Bool} {call : Call} {reply : Reply}
    (hstep : EngineStep keyvalToUnicode held altgr call reply held' altgr') :
    altgr' = flagAfter altgr call := by
  cases hstep with
  | lifecycle hcall =>
      cases call with
      | processKeyEvent event => exact absurd rfl (hcall event)
      | reset => rfl
      | focusOut => rfl
      | disable => rfl
  | altgrKey hkey => simp [flagAfter, hkey]
  | passed hkey hchar => simp [flagAfter, hkey]
  | opened hkey hchar hopen => simp [flagAfter, hkey]
  | ignored hkey hchar hopen => simp [flagAfter, hkey]
  | silent hkey heffect => simp [flagAfter, hkey]
  | cancelled hkey heffect => simp [flagAfter, hkey]
  | completed hkey heffect => simp [flagAfter, hkey]
  | flushed hkey heffect hchar => simp [flagAfter, hkey]
  | flushedPassed hkey heffect hchar => simp [flagAfter, hkey]

/-- The flag after one more call of a run. -/
theorem altgr_stateAfter_concat (keyvalToUnicode : KeyvalToUnicode) (before : List Call)
    (call : Call) :
    ((engine keyvalToUnicode).stateAfter (before ++ [call])).altgr =
      flagAfter ((engine keyvalToUnicode).stateAfter before).altgr call := by
  obtain ⟨held, altgr, reply, held', altgr', hstate, heq, hstep⟩ :=
    exists_engineStep_after keyvalToUnicode before call
  rw [Transducer.stateAfter_concat, hstate, heq]
  exact altgr_of_engineStep hstep

/-- If the flag was right before a call it is right after it exactly when the call, if a
release, agrees with the keys held. -/
theorem flagIsHeld_iff {keyvalToUnicode : KeyvalToUnicode} {before : List Call} {call : Call}
    (hflag : ((engine keyvalToUnicode).stateAfter before).altgr = true ↔
      (heldAltgrKeys before).Nonempty) :
    FlagIsHeld keyvalToUnicode before call ↔ ReleaseAgrees before call := by
  rw [FlagIsHeld, altgr_stateAfter_concat, heldAltgrKeys_concat]
  cases call with
  | reset => simp [flagAfter, trackAltgrKeys, ReleaseAgrees]
  | focusOut => simp [flagAfter, trackAltgrKeys, ReleaseAgrees]
  | disable => simp [flagAfter, trackAltgrKeys, ReleaseAgrees]
  | processKeyEvent event =>
      cases hrelease : hits event.state ibusReleaseMask with
      | false =>
          cases hkey : isAltgrModifierKey event.key with
          | true => simp [flagAfter, trackAltgrKeys, ReleaseAgrees, hrelease, hkey]
          | false => simpa [flagAfter, trackAltgrKeys, ReleaseAgrees, hrelease, hkey] using hflag
      | true =>
          cases hkey : isAltgrModifierKey event.key with
          | true =>
              simp [flagAfter, trackAltgrKeys, ReleaseAgrees, hrelease, hkey,
                Finset.not_nonempty_iff_eq_empty]
          | false =>
              have hfewer : ((heldAltgrKeys before).erase event.code).Nonempty →
                  (heldAltgrKeys before).Nonempty := Finset.Nonempty.mono (Finset.erase_subset _ _)
              simp only [flagAfter, trackAltgrKeys, ReleaseAgrees, hrelease, hkey, ↓reduceIte,
                Bool.false_eq_true, forall_const, hflag, ← Finset.not_nonempty_iff_eq_empty]
              tauto

/-! ## Whole runs -/

/-- **The flag tells whether an AltGr key is held, through a whole run, exactly when
every release agrees with the keys held.** -/
theorem everyStep_flagIsHeld_iff (keyvalToUnicode : KeyvalToUnicode) (calls : List Call) :
    EveryStep calls (FlagIsHeld keyvalToUnicode) ↔ EveryStep calls ReleaseAgrees := by
  apply everyStep_iff_of_invariant (I := fun before =>
    ((engine keyvalToUnicode).stateAfter before).altgr = true ↔ (heldAltgrKeys before).Nonempty)
  · exact ⟨fun hset => (by cases hset), fun hheld => absurd hheld (by simp)⟩
  · intro before call hflag
    exact flagIsHeld_iff hflag
  · intro before call hflag hheld
    exact hheld

/-- Right Alt is pressed, and released as Meta_R because Shift was pressed in between:
no key is held, yet the flag stays set. -/
theorem not_everyStep_flagIsHeld_metaRelease :
    ¬ EveryStep
      [.processKeyEvent ⟨ibusKeyAltR, 100, 0⟩,
        .processKeyEvent ⟨0xffe1, 42, ibusMod1Mask⟩,
        .processKeyEvent ⟨0xffe8, 100, ibusMod1Mask ||| ibusShiftMask ||| ibusReleaseMask⟩]
      (FlagIsHeld smallKeyvalToUnicode) := by
  intro hflag
  have hlast := hflag [_, _] _ [] rfl
  revert hlast
  rw [FlagIsHeld]
  decide

end SilentCompose.Analysis
