/-
# Releases of keys the client holds

A client that received the press of a key waits for its release. The engine decides
on the release by its own state at that moment, so the release arrives exactly when
an accent is held back, no AltGr session is tracked, or the release itself carries a
shortcut bit.
-/

import SilentCompose.Engine.Steps

namespace SilentCompose.Analysis

open SilentCompose.Foundations SilentCompose.Toolkit SilentCompose.Compose SilentCompose.Engine

section Releases

variable (keyvalToUnicode : KeyvalToUnicode)

/-- A release of the key that an event is about: the same keysym and keycode. -/
def IsReleaseOf (event : KeyEvent) (call : Call) : Prop :=
  ∃ release, call = .processKeyEvent release ∧ hits release.state ibusReleaseMask = true ∧
    release.key = event.key ∧ release.code = event.code

/-- The event is the next release, after the calls `before`, of a key other than AltGr
whose press was left to the client. -/
def ReleasesKeyLeftToClient (before : List Call) (release : KeyEvent) : Prop :=
  ∃ earlier press between, before = earlier ++ .processKeyEvent press :: between ∧
    isAltgrModifierKey press.key = false ∧ hits press.state ibusReleaseMask = false ∧
    ((engine keyvalToUnicode).step ((engine keyvalToUnicode).stateAfter earlier)
      (.processKeyEvent press)).1.returned = some false ∧
    (∀ call ∈ between, ¬IsReleaseOf press call) ∧
    IsReleaseOf press (.processKeyEvent release)

/-- The release of a key other than AltGr is left to the client unless it meets a
tracked AltGr key with nothing held back and no shortcut bit. -/
theorem returned_release_iff {keyvalToUnicode : KeyvalToUnicode} {held held' : Option Accent}
    {altgr altgr' : Bool} {event : KeyEvent} {reply : Reply}
    (hstep : EngineStep keyvalToUnicode held altgr (.processKeyEvent event) reply held' altgr')
    (haltgr : isAltgrModifierKey event.key = false)
    (hrelease : hits event.state ibusReleaseMask = true) :
    reply.returned = some false ↔
      held.isSome = true ∨ altgr = false ∨ blockedChord event.state = true := by
  have hrefused : passthroughRefused event.state altgr = true := by
    simp [passthroughRefused, hrelease]
  have hpress : hits event.state ibusReleaseMask ≠ false := by simp [hrelease]
  cases hstep with
  | lifecycle hcall => exact absurd rfl (hcall event)
  | altgrKey hkey => simp [hkey] at haltgr
  | passed hkey hchar =>
      simp [passthroughRefused_of_passthroughChar keyvalToUnicode hchar] at hrefused
  | opened hkey hchar hopen => exact absurd (press_of_openedAccent hopen).1 hpress
  | ignored hkey hchar hopen =>
      cases altgr <;> simp [consumeAltgrChord, blockedChord]
  | silent hkey heffect => simp
  | cancelled hkey heffect => exact absurd (press_of_heldEffect heffect (by simp)).1 hpress
  | completed hkey heffect => exact absurd (press_of_heldEffect heffect (by simp)).1 hpress
  | flushed hkey heffect hchar => exact absurd (press_of_heldEffect heffect (by simp)).1 hpress
  | flushedPassed hkey heffect hchar =>
      exact absurd (press_of_heldEffect heffect (by simp)).1 hpress

/-- **The client receives the release of a key it holds exactly when** an accent is
held back, no AltGr key is tracked, or the release carries Control, Super or Mod4, at
every step of every run. -/
theorem everyStep_release_iff (calls : List Call) :
    EveryStep calls fun before call => ∀ release, call = .processKeyEvent release →
      ReleasesKeyLeftToClient keyvalToUnicode before release →
        (((engine keyvalToUnicode).step ((engine keyvalToUnicode).stateAfter before)
            call).1.returned = some false ↔
          isPending ((engine keyvalToUnicode).stateAfter before) = true ∨
            ((engine keyvalToUnicode).stateAfter before).altgr = false ∨
            blockedChord release.state = true) := by
  intro before call after hsplit release hcall hreleases
  subst hcall
  rcases hreleases with ⟨earlier, press, between, -, hkey, -, -, -, hrelease⟩
  rcases hrelease with ⟨_, heq, hup, hsame, -⟩
  obtain rfl := Call.processKeyEvent.inj heq
  obtain ⟨held, altgr, reply, held', altgr', hstate, heq, hstep⟩ :=
    exists_engineStep_after keyvalToUnicode before (.processKeyEvent release)
  rw [hstate, heq, isPending_holding, holding_altgr]
  exact returned_release_iff hstep (hsame ▸ hkey) hup

end Releases

/-- The press and the release of `a` both reach the client. -/
theorem everyStep_release_small :
    ((engine smallKeyvalToUnicode).step
      ((engine smallKeyvalToUnicode).stateAfter [.processKeyEvent ⟨0x61, 30, 0⟩])
      (.processKeyEvent ⟨0x61, 30, ibusReleaseMask⟩)).1.returned = some false :=
  (everyStep_release_iff smallKeyvalToUnicode
    [.processKeyEvent ⟨0x61, 30, 0⟩, .processKeyEvent ⟨0x61, 30, ibusReleaseMask⟩]
    [.processKeyEvent ⟨0x61, 30, 0⟩] _ [] rfl _ rfl
    ⟨[], _, [], rfl, by decide, by decide, by decide, by simp, _, rfl, by decide, rfl, rfl⟩).mpr
    (by decide)

/-- Right Alt pressed while `a` is down: the client received the press of `a`, and its
release is consumed. -/
theorem release_of_a_consumed :
    ReleasesKeyLeftToClient smallKeyvalToUnicode
        [.processKeyEvent ⟨0x61, 30, 0⟩, .processKeyEvent ⟨ibusKeyAltR, 100, 0⟩]
        ⟨0x61, 30, ibusMod1Mask ||| ibusReleaseMask⟩ ∧
      ((engine smallKeyvalToUnicode).step
        ((engine smallKeyvalToUnicode).stateAfter
          [.processKeyEvent ⟨0x61, 30, 0⟩, .processKeyEvent ⟨ibusKeyAltR, 100, 0⟩])
        (.processKeyEvent ⟨0x61, 30, ibusMod1Mask ||| ibusReleaseMask⟩)).1.returned ≠
          some false := by
  refine ⟨⟨[], _, [_], rfl, by decide, by decide, by decide, ?_, _, rfl, by decide, rfl, rfl⟩,
    by decide⟩
  intro call hcall h
  rcases h with ⟨release, heq, hup, -⟩
  obtain rfl := List.mem_singleton.mp hcall
  cases heq
  revert hup
  decide

end SilentCompose.Analysis
