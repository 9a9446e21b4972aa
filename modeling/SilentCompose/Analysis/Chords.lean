/-
# Chords of AltGr and of the shortcut modifiers

A chord with a tracked AltGr key should never reach the client, where it would act as
an Alt shortcut, and a chord with Control, Alt or Super should always reach it
untouched. Both fail only while an accent is held back: the first because the chord
filter sits behind the compose state, the second because Escape and Backspace cancel
before the modifiers are looked at.
-/

import SilentCompose.Engine.Steps

namespace SilentCompose.Analysis

open SilentCompose.Foundations SilentCompose.Toolkit SilentCompose.Compose SilentCompose.Engine

/-! ## AltGr chords -/

section Chords

variable (keyvalToUnicode : KeyvalToUnicode)

/-- The keysyms of Shift, Control, Caps Lock, Meta, Alt, Super and Hyper. -/
def isModifierKeyval (key : Guint) : Bool := 0xffe1 ≤ key ∧ key ≤ 0xffee

/-- A press under a tracked AltGr key without Control, Super or Mod4, of a key that is
no modifier. -/
def IsAltgrChord (self : ScEngine) (event : KeyEvent) : Prop :=
  self.altgr = true ∧ hits event.state ibusReleaseMask = false ∧
    blockedChord event.state = false ∧ isModifierKeyval event.key = false

instance (self : ScEngine) (event : KeyEvent) : Decidable (IsAltgrChord self event) :=
  inferInstanceAs (Decidable
    (self.altgr = true ∧ hits event.state ibusReleaseMask = false ∧
      blockedChord event.state = false ∧ isModifierKeyval event.key = false))

/-- Nothing is held back, or the key belongs to AltGr or cancels, or without Mod1 it is
read as text or as navigation. -/
def ChordIsTaken (self : ScEngine) (event : KeyEvent) : Prop :=
  isPending self = false ∨ isAltgrModifierKey event.key = true ∨ isCancelKey event.key = true ∨
    (hits event.state ibusMod1Mask = false ∧ completesSequence event.key = true)

instance (self : ScEngine) (event : KeyEvent) : Decidable (ChordIsTaken self event) :=
  inferInstanceAs (Decidable
    (isPending self = false ∨ isAltgrModifierKey event.key = true ∨ isCancelKey event.key = true ∨
      (hits event.state ibusMod1Mask = false ∧ completesSequence event.key = true)))

/-- An AltGr chord is consumed exactly when it meets no held accent or does something
to the one it meets. -/
theorem returned_altgrChord_iff {keyvalToUnicode : KeyvalToUnicode} {held held' : Option Accent}
    {altgr altgr' : Bool} {event : KeyEvent} {reply : Reply}
    (hstep : EngineStep keyvalToUnicode held altgr (.processKeyEvent event) reply held' altgr')
    (hchord : IsAltgrChord (.holding held altgr) event) :
    reply.returned = some true ↔ ChordIsTaken (.holding held altgr) event := by
  rcases hchord with ⟨haltgr, hpress, hblocked, -⟩
  obtain rfl : altgr = true := haltgr
  have hconsumed : consumeAltgrChord true event.state = true := by
    simpa [consumeAltgrChord, blockedChord] using hblocked
  have hcompletes := completesSequence_iff event.key
  rw [ChordIsTaken, isPending_holding]
  cases hstep with
  | lifecycle hcall => exact absurd rfl (hcall event)
  | altgrKey hkey => simp [hkey]
  | passed hkey hchar => simp
  | opened hkey hchar hopen => simp
  | ignored hkey hchar hopen => simp [hconsumed]
  | silent hkey heffect =>
      rw [heldEffect_translateMods, hpress, hblocked] at heffect
      cases hcancel : isCancelKey event.key with
      | true => simp [keyEffect, hcancel] at heffect
      | false =>
          cases hmod1 : hits event.state ibusMod1Mask with
          | true => simp [hkey]
          | false =>
              have hsilent : keyEffect event.key = .silent := by
                simpa [hmod1, hcancel] using heffect
              simp [hkey, hcompletes, hsilent]
  | cancelled hkey heffect =>
      simp [isCancelKey_of_keyEffect (press_of_heldEffect heffect (by simp)).2]
  | completed hkey heffect =>
      have hmod1 := (noShortcut_of_heldEffect heffect (by simp) (by simp)).1
      simp [hmod1, completesSequence_of_heldEffect heffect (by simp) (by simp)]
  | flushed hkey heffect hchar =>
      have hmod1 := (noShortcut_of_heldEffect heffect (by simp) (by simp)).1
      simp [hmod1, completesSequence_of_heldEffect heffect (by simp) (by simp), hconsumed]
  | flushedPassed hkey heffect hchar =>
      have hmod1 := (noShortcut_of_heldEffect heffect (by simp) (by simp)).1
      simp [hmod1, completesSequence_of_heldEffect heffect (by simp) (by simp)]

/-- **An AltGr chord is consumed exactly when** nothing is held back, its key belongs to
AltGr or cancels, or it completes the held accent without Mod1, at every step of every
run. -/
theorem altgrChord_returned_iff (calls : List Call) :
    ∀ r ∈ (engine keyvalToUnicode).trace calls, ∀ event, r.input = .processKeyEvent event →
      IsAltgrChord r.pre event → (r.output.returned = some true ↔ ChordIsTaken r.pre event) := by
  intro r hmem event hinput hchord
  obtain ⟨held, altgr, reply, held', altgr', rfl, hstep⟩ :=
    exists_engineStep_of_event keyvalToUnicode hmem hinput
  exact returned_altgrChord_iff hstep hchord

end Chords

/-- Apostrophe, Right Alt and `e` without Mod1: the chord is consumed. -/
theorem altgrChord_returned_small :
    ((engine smallKeyvalToUnicode).step
      ((engine smallKeyvalToUnicode).stateAfter
        [.processKeyEvent ⟨0x27, 40, 0⟩, .processKeyEvent ⟨ibusKeyAltR, 100, 0⟩])
      (.processKeyEvent ⟨0x65, 18, 0⟩)).1.returned = some true :=
  (altgrChord_returned_iff smallKeyvalToUnicode
    [.processKeyEvent ⟨0x27, 40, 0⟩, .processKeyEvent ⟨ibusKeyAltR, 100, 0⟩,
      .processKeyEvent ⟨0x65, 18, 0⟩] _
    (List.mem_cons_of_mem _ (List.mem_cons_of_mem _ List.mem_cons_self)) _ rfl (by decide)).mpr
    (by decide)

/-- Apostrophe, Right Alt and `x` reported with Mod1: the client receives Alt and `x`. -/
theorem altgrChord_leaks_while_pending :
    let self := (engine smallKeyvalToUnicode).stateAfter
      [.processKeyEvent ⟨0x27, 40, 0⟩, .processKeyEvent ⟨ibusKeyAltR, 100, 0⟩]
    IsAltgrChord self ⟨0x78, 45, ibusMod1Mask⟩ ∧
      ((engine smallKeyvalToUnicode).step self
        (.processKeyEvent ⟨0x78, 45, ibusMod1Mask⟩)).1.returned ≠ some true := by
  decide

/-! ## Shortcut chords -/

section Shortcuts

variable (keyvalToUnicode : KeyvalToUnicode)

/-- A press with Control, Super or Mod4, or with Mod1 outside an AltGr session, of a key
that does not belong to AltGr. -/
def IsShortcutChord (self : ScEngine) (event : KeyEvent) : Prop :=
  isAltgrModifierKey event.key = false ∧ hits event.state ibusReleaseMask = false ∧
    (blockedChord event.state = true ∨
      (hits event.state ibusMod1Mask = true ∧ hits event.state ibusMod5Mask = false ∧
        self.altgr = false))

instance (self : ScEngine) (event : KeyEvent) : Decidable (IsShortcutChord self event) :=
  inferInstanceAs (Decidable
    (isAltgrModifierKey event.key = false ∧ hits event.state ibusReleaseMask = false ∧
      (blockedChord event.state = true ∨
        (hits event.state ibusMod1Mask = true ∧ hits event.state ibusMod5Mask = false ∧
          self.altgr = false))))

/-- The event is left to the client, sends nothing and changes nothing. -/
def PassesUntouched (r : Record ScEngine Call Reply) : Prop :=
  r.output = { returned := some false, commits := [] } ∧ r.post = r.pre

/-- A shortcut passes untouched exactly when it does not cancel a held accent. -/
theorem passesUntouched_iff {keyvalToUnicode : KeyvalToUnicode} {held held' : Option Accent}
    {altgr altgr' : Bool} {event : KeyEvent} {reply : Reply}
    (hstep : EngineStep keyvalToUnicode held altgr (.processKeyEvent event) reply held' altgr')
    (hchord : IsShortcutChord (.holding held altgr) event) :
    PassesUntouched (stepRecord held altgr (.processKeyEvent event) reply held' altgr') ↔
      ¬(held.isSome = true ∧ isCancelKey event.key = true) := by
  rcases hchord with ⟨haltgrKey, hpress, hmods⟩
  have hrefused : passthroughRefused event.state altgr = true := by
    rcases hmods with hblocked | ⟨hmod1, hmod5, haltgr⟩
    · simp [passthroughRefused, hblocked]
    · rw [holding_altgr] at haltgr
      simp [passthroughRefused, altgrActive, hmod1, hmod5, haltgr]
  have hshortcut : (hits event.state ibusMod1Mask || blockedChord event.state) = true := by
    rcases hmods with hblocked | ⟨hmod1, -⟩
    · simp [hblocked]
    · simp [hmod1]
  have hleft : consumeAltgrChord altgr event.state = false := by
    rcases hmods with hblocked | ⟨-, -, haltgr⟩
    · simpa [consumeAltgrChord, blockedChord] using fun _ => hblocked
    · rw [holding_altgr] at haltgr
      simp [consumeAltgrChord, haltgr]
  cases hstep with
  | lifecycle hcall => exact absurd rfl (hcall event)
  | altgrKey hkey => simp [hkey] at haltgrKey
  | passed hkey hchar =>
      simp [passthroughRefused_of_passthroughChar keyvalToUnicode hchar] at hrefused
  | opened hkey hchar hopen =>
      simp [openedAccent_translateMods, hshortcut] at hopen
  | ignored hkey hchar hopen => simp [PassesUntouched, hleft, stepRecord]
  | silent hkey heffect =>
      have hcancel : isCancelKey event.key = false := by
        apply Bool.eq_false_iff.mpr
        intro hcancels
        rw [heldEffect_translateMods, hpress, hcancels] at heffect
        simp [keyEffect_of_cancel hcancels] at heffect
      simp [PassesUntouched, hcancel, stepRecord]
  | cancelled hkey heffect =>
      have hcancel := isCancelKey_of_keyEffect (press_of_heldEffect heffect (by simp)).2
      simp [PassesUntouched, hcancel]
  | completed hkey heffect =>
      have hnone := noShortcut_of_heldEffect heffect (by simp) (by simp)
      simp [hnone] at hshortcut
  | flushed hkey heffect hchar =>
      have hnone := noShortcut_of_heldEffect heffect (by simp) (by simp)
      simp [hnone] at hshortcut
  | flushedPassed hkey heffect hchar =>
      have hnone := noShortcut_of_heldEffect heffect (by simp) (by simp)
      simp [hnone] at hshortcut

/-- **A shortcut passes untouched exactly when** it is not Escape or Backspace meeting
a held accent, at every step of every run. -/
theorem shortcut_untouched_iff (calls : List Call) :
    ∀ r ∈ (engine keyvalToUnicode).trace calls, ∀ event, r.input = .processKeyEvent event →
      IsShortcutChord r.pre event →
        (PassesUntouched r ↔ ¬(isPending r.pre = true ∧ isCancelKey event.key = true)) := by
  intro r hmem event hinput hchord
  obtain ⟨held, altgr, reply, held', altgr', rfl, hstep⟩ :=
    exists_engineStep_of_event keyvalToUnicode hmem hinput
  rw [stepRecord_pre, isPending_holding]
  exact passesUntouched_iff hstep hchord

end Shortcuts

/-- Apostrophe and Control with `c`: the shortcut passes, the apostrophe stays held. -/
theorem shortcut_untouched_small :
    PassesUntouched ((engine smallKeyvalToUnicode).record
      ((engine smallKeyvalToUnicode).stateAfter [.processKeyEvent ⟨0x27, 40, 0⟩])
      (.processKeyEvent ⟨0x63, 46, ibusControlMask⟩)) :=
  (shortcut_untouched_iff smallKeyvalToUnicode
    [.processKeyEvent ⟨0x27, 40, 0⟩, .processKeyEvent ⟨0x63, 46, ibusControlMask⟩] _
    (List.mem_cons_of_mem _ List.mem_cons_self) _ rfl (by decide)).mpr (by decide)

/-- Apostrophe and Control with Backspace: the shortcut is consumed and the apostrophe
dropped. -/
theorem shortcut_backspace_consumed :
    let self := (engine smallKeyvalToUnicode).stateAfter [.processKeyEvent ⟨0x27, 40, 0⟩]
    IsShortcutChord self ⟨scKeyBackspace, 14, ibusControlMask⟩ ∧
      ((engine smallKeyvalToUnicode).step self
        (.processKeyEvent ⟨scKeyBackspace, 14, ibusControlMask⟩)).1.returned ≠ some false ∧
      ((engine smallKeyvalToUnicode).step self
        (.processKeyEvent ⟨scKeyBackspace, 14, ibusControlMask⟩)).2 ≠ self := by
  decide

end SilentCompose.Analysis
