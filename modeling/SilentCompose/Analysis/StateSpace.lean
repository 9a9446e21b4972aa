/-
# The states of the engine

The engine keeps an optional accent and one bit. All twelve combinations occur, nothing
else does, and two presses of Space tell them apart, so none of the state is redundant.
Letting go of AltGr and pressing Escape brings every one of them back to the fresh state
without sending any text, after which the past is forgotten.
-/

import SilentCompose.Analysis.Typing
import SilentCompose.Engine.SymbolTable
import SilentCompose.Foundations.Experiments

namespace SilentCompose.Analysis

open SilentCompose.Foundations SilentCompose.Toolkit SilentCompose.Compose SilentCompose.Engine

/-! ## Presses that pass nothing through -/

/-- A press with AltGr on a keycode that the table does not list. -/
def blankPress (key : Guint) : Call := .processKeyEvent ⟨key, 1, ibusMod5Mask⟩

section Blank

variable (keyvalToUnicode : KeyvalToUnicode)

/-- The table decides for AltGr, and it has no symbol there. -/
theorem passthroughChar_blank (key : Guint) (altgr : Bool) :
    passthroughChar keyvalToUnicode key 1 ibusMod5Mask altgr = none := by
  have hactive : altgrActive ibusMod5Mask altgr = true := by cases altgr <;> decide
  exact passthroughChar_of_unlisted keyvalToUnicode hactive (by decide) (by decide)

/-- A blank press of an accent key opens the accent. -/
theorem blankPress_accent (accent : Accent) (altgr : Bool) :
    (engine keyvalToUnicode).step (.holding none altgr) (blankPress accent.printableKey) =
      (⟨some true, []⟩, .holding (some accent) altgr) := by
  have hkey : isAltgrModifierKey accent.printableKey = false := by cases accent <;> decide
  have hopen : openedAccent accent.printableKey (translateMods ibusMod5Mask) = some accent := by
    cases accent <;> decide
  simp only [blankPress, engine, processKeyEvent_idle keyvalToUnicode altgr _ _ hkey,
    passthroughChar_blank, hopen]

/-- A blank press of Space. -/
def spacePress : Call := blankPress ' '.val

/-- With nothing held a blank press of Space shows whether AltGr is tracked. -/
theorem blankPress_space_idle (altgr : Bool) :
    (engine keyvalToUnicode).step (.holding none altgr) spacePress =
      (⟨some altgr, []⟩, .holding none altgr) := by
  have hkey : isAltgrModifierKey ' '.val = false := by decide
  have hopen : openedAccent ' '.val (translateMods ibusMod5Mask) = none := by decide
  have hconsume : consumeAltgrChord altgr ibusMod5Mask = altgr := by cases altgr <;> decide
  simp only [spacePress, blankPress, engine, processKeyEvent_idle keyvalToUnicode altgr _ _ hkey,
    passthroughChar_blank, hopen, hconsume]

/-- With an accent held a blank press of Space sends its literal. -/
theorem blankPress_space_held (accent : Accent) (altgr : Bool) :
    (engine keyvalToUnicode).step (.holding (some accent) altgr) spacePress =
      (⟨some true, [.ofText [accent.literal]]⟩, .holding none altgr) := by
  have hkey : isAltgrModifierKey ' '.val = false := by decide
  have heffect : heldEffect ' '.val (translateMods ibusMod5Mask) = .text ' ' := by decide
  simp only [spacePress, blankPress, engine,
    processKeyEvent_held keyvalToUnicode accent altgr _ _ hkey, heffect,
    accent.completion_space]

/-! ## The reachable states -/

/-- A press of the right Alt key. -/
def altPress : Call := .processKeyEvent ⟨ibusKeyAltR, 100, 0⟩

theorem altPress_step (held : Option Accent) (altgr : Bool) :
    (engine keyvalToUnicode).step (.holding held altgr) altPress =
      (⟨some true, []⟩, .holding held true) := by
  have hkey : isAltgrModifierKey ibusKeyAltR = true := by decide
  simp only [altPress, engine, processKeyEvent_altgrKey keyvalToUnicode _ _ _ hkey]
  rfl

/-- A run that ends with this accent, or nothing, held back and AltGr tracked or not. -/
def reaching (held : Option Accent) (altgr : Bool) : List Call :=
  (held.toList.map fun accent => blankPress accent.printableKey) ++
    if altgr then [altPress] else []

theorem stateAfter_reaching (held : Option Accent) (altgr : Bool) :
    (engine keyvalToUnicode).stateAfter (reaching held altgr) = .holding held altgr := by
  have hinit : (engine keyvalToUnicode).init = .holding none false := rfl
  cases held <;> cases altgr <;>
    simp [reaching, Transducer.stateAfter, Transducer.stateFrom, hinit, blankPress_accent,
      altPress_step]

/-- **The engine has twelve states.** Each accent, or none, occurs with and without a
tracked AltGr key, and no other state is ever reached. -/
theorem holding_bijOn_reachable :
    Set.BijOn (fun state : Option Accent × Bool => ScEngine.holding state.1 state.2) Set.univ
      {self | (engine keyvalToUnicode).Reachable self} := by
  refine ⟨?_, ?_, ?_⟩
  · rintro ⟨held, altgr⟩ -
    exact ⟨reaching held altgr, stateAfter_reaching keyvalToUnicode held altgr⟩
  · rintro ⟨held, altgr⟩ - ⟨held', altgr'⟩ - heq
    obtain ⟨rfl, rfl⟩ := ScEngine.holding_inj.mp heq
    rfl
  · intro self hreach
    obtain ⟨held, altgr, rfl⟩ := exists_holding_of_reachable keyvalToUnicode hreach
    exact ⟨(held, altgr), trivial, rfl⟩

/-! ## Two presses of Space tell them apart -/

/-- What two blank presses of Space show of a state. -/
theorem answersFrom_spaces (held : Option Accent) (altgr : Bool) :
    (engine keyvalToUnicode).answersFrom (.holding held altgr)
        [spacePress, spacePress] =
      match held with
      | none => [⟨some altgr, []⟩, ⟨some altgr, []⟩]
      | some accent => [⟨some true, [.ofText [accent.literal]]⟩, ⟨some altgr, []⟩] := by
  cases held with
  | none => simp [blankPress_space_idle]
  | some accent => simp [blankPress_space_held, blankPress_space_idle]

/-- **No part of the state is redundant.** Two presses of Space are answered differently
in any two reachable states. -/
theorem identifies_spaces :
    (engine keyvalToUnicode).Identifies [spacePress, spacePress] := by
  let state : Option Accent × Bool → ScEngine := fun pair => .holding pair.1 pair.2
  refine @Transducer.identifies_of_label _ _ _ (engine keyvalToUnicode) _ _ state ?_ ?_
  · intro self hreach
    obtain ⟨held, altgr, rfl⟩ := exists_holding_of_reachable keyvalToUnicode hreach
    exact ⟨(held, altgr), rfl⟩
  · rintro ⟨held, altgr⟩ ⟨held', altgr'⟩ hsame
    simp only [state, answersFrom_spaces] at hsame
    cases held with
    | none =>
        cases held' with
        | none => simpa using hsame
        | some accent' => simp at hsame
    | some accent =>
        cases held' with
        | none => simp at hsame
        | some accent' =>
            simp only [List.cons.injEq, Reply.mk.injEq, true_and, and_true,
              CString.ofText_singleton_inj accent'.literal_ne_zero, Option.some.injEq] at hsame
            rcases hsame with ⟨hliteral, rfl⟩
            obtain rfl := Accent.literal_injective hliteral
            rfl

end Blank

/-! ## The way back -/

section Recovery

variable {keyvalToUnicode : KeyvalToUnicode}

/-- Letting go of an AltGr key ends the session and keeps a held accent. -/
theorem altgrRelease_step {event : KeyEvent} (hkey : isAltgrModifierKey event.key = true)
    (hrelease : hits event.state ibusReleaseMask = true) (held : Option Accent) (altgr : Bool) :
    (engine keyvalToUnicode).step (.holding held altgr) (.processKeyEvent event) =
      (⟨some true, []⟩, .holding held false) := by
  simp only [engine, processKeyEvent_altgrKey keyvalToUnicode _ _ _ hkey, hrelease]
  rfl

/-- Outside an AltGr session a plain press of Escape or Backspace drops a held accent,
and is left to the client if there is none. -/
theorem cancelPress_step (hlawful : LawfulKeyvals keyvalToUnicode) {event : KeyEvent}
    (hcancel : isCancelKey event.key = true) (hplain : plainModifiers event.state = true)
    (hpress : hits event.state ibusReleaseMask = false) (held : Option Accent) :
    (engine keyvalToUnicode).step (.holding held false) (.processKeyEvent event) =
      (⟨some held.isSome, []⟩, .holding none false) := by
  have hkey : isAltgrModifierKey event.key = false := by
    rcases (by simpa [isCancelKey] using hcancel) with hkey | hkey <;> rw [hkey] <;> decide
  cases held with
  | none =>
      simp only [engine, processKeyEvent_function_idle hlawful hkey hplain
        (isFunctionKeyval_of_cancel hcancel)]
      rfl
  | some accent =>
      simp only [engine, processKeyEvent_held keyvalToUnicode accent false _ _ hkey,
        heldEffect_of_plain _ hplain hpress, keyEffect_of_cancel hcancel]
      rfl

/-- **The engine can always be brought back.** Whatever happened before, letting go of
AltGr and pressing Escape or Backspace sends nothing, and from then on every run is
answered as a fresh engine answers it. -/
theorem answers_recovered (hlawful : LawfulKeyvals keyvalToUnicode) {release cancel : KeyEvent}
    (haltgr : isAltgrModifierKey release.key = true)
    (hrelease : hits release.state ibusReleaseMask = true)
    (hcancel : isCancelKey cancel.key = true) (hplain : plainModifiers cancel.state = true)
    (hpress : hits cancel.state ibusReleaseMask = false) (before after : List Call) :
    (engine keyvalToUnicode).answers
        (before ++ [.processKeyEvent release, .processKeyEvent cancel] ++ after) =
      (engine keyvalToUnicode).answers before ++
          [⟨some true, []⟩, ⟨some (isPending ((engine keyvalToUnicode).stateAfter before)), []⟩] ++
        (engine keyvalToUnicode).answers after := by
  obtain ⟨held, altgr, hstate⟩ := exists_holding_of_reachable keyvalToUnicode
    ((engine keyvalToUnicode).reachable_stateAfter before)
  have hfirst := @altgrRelease_step keyvalToUnicode _ haltgr hrelease held altgr
  have hsecond := cancelPress_step hlawful hcancel hplain hpress held
  rw [(engine keyvalToUnicode).answers_append_of_reset]
  · simp only [hstate, Transducer.answersFrom_cons, Transducer.answersFrom_nil, hfirst, hsecond,
      isPending_holding]
  · simp only [hstate, Transducer.stateFrom, hfirst, hsecond]
    rfl

/-- An apostrophe is pending in an AltGr session; afterwards `e` is a plain `e`. -/
theorem answers_recovered_small :
    (engine smallKeyvalToUnicode).answers
        [.processKeyEvent ⟨0x27, 40, 0⟩, altPress,
          .processKeyEvent ⟨ibusKeyAltR, 100, ibusReleaseMask⟩,
          .processKeyEvent ⟨scKeyEscape, 1, 0⟩, .processKeyEvent ⟨0x65, 18, 0⟩] =
      [⟨some true, []⟩, ⟨some true, []⟩, ⟨some true, []⟩, ⟨some true, []⟩, ⟨some false, []⟩] :=
  (answers_recovered lawfulKeyvals_small (by decide) (by decide) (by decide) (by decide)
    (by decide) [_, _] [_]).trans (by decide)

end Recovery

end SilentCompose.Analysis
