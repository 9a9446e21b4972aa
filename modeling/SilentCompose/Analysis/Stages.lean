/-
# The engine in two stages

What the engine is for takes two small machines in a row. The first has one bit: it
tracks the AltGr key and turns each call into what it means, as characters and accents
and without masks, keysyms and keycodes. The second holds back at most one accent and
sees these meanings only. The engine answers every run as the two of them do, so whether
AltGr is tracked never depends on accents, and accents never see how AltGr is reported.
-/

import SilentCompose.Engine.Steps
import SilentCompose.Foundations.Experiments

namespace SilentCompose.Analysis

open SilentCompose.Foundations SilentCompose.Toolkit SilentCompose.Compose SilentCompose.Engine

/-! ## The stages -/

/-- What a call means once AltGr is resolved. -/
inductive Meaning
  /-- A call that ends whatever was begun. -/
  | lifecycle
  /-- An event of an AltGr key. -/
  | altgrKey
  /-- Another event: the character it passes through and the accent it opens with nothing
  held, what it does to a held accent, and whether the client must not see it. -/
  | key (passes : Option Char) (opens : Option Accent) (effect : HeldEffect) (hidden : Bool)
  deriving DecidableEq

/-- The first stage tracks the AltGr key and says what each call means. -/
def altgrStage (keyvalToUnicode : KeyvalToUnicode) : Transducer Bool Call Meaning where
  init := false
  step
    | altgr, .processKeyEvent event =>
      if isAltgrModifierKey event.key then (.altgrKey, !hits event.state ibusReleaseMask)
      else
        (.key (passthroughChar keyvalToUnicode event.key event.code event.state altgr)
          (openedAccent event.key (translateMods event.state))
          (heldEffect event.key (translateMods event.state))
          (consumeAltgrChord altgr event.state), altgr)
    | _, _ => (.lifecycle, false)

/-- With nothing held a character passes, an accent is opened, or the key is left to the
client unless it is hidden. -/
def idleStep (passes : Option Char) (opens : Option Accent) (hidden : Bool) :
    Reply × Option Accent :=
  match passes, opens with
  | some c, _ => (⟨some true, [.ofText [c]]⟩, none)
  | none, some accent => (⟨some true, []⟩, some accent)
  | none, none => (⟨some hidden, []⟩, none)

/-- With an accent held a key is silent, cancels it, completes it, or sends it ahead and
then counts as it does with nothing held, except that it opens no other accent. -/
def heldStep (accent : Accent) (passes : Option Char) (effect : HeldEffect) (hidden : Bool) :
    Reply × Option Accent :=
  match effect with
  | .silent => (⟨some false, []⟩, some accent)
  | .cancel => (⟨some true, []⟩, none)
  | .text c => (⟨some true, [.ofText (accent.completion c)]⟩, none)
  | .navigation =>
    let (reply, held) := idleStep passes none hidden
    ({ reply with commits := .ofText [accent.literal] :: reply.commits }, held)

/-- The second stage holds back at most one accent. -/
def accentStage : Transducer (Option Accent) Meaning Reply where
  init := none
  step
    | _, .lifecycle => (⟨none, []⟩, none)
    | held, .altgrKey => (⟨some true, []⟩, held)
    | none, .key passes opens _ hidden => idleStep passes opens hidden
    | some accent, .key passes _ effect hidden => heldStep accent passes effect hidden

/-! ## The engine is the two stages in a row -/

section Stages

variable (keyvalToUnicode : KeyvalToUnicode)

/-- Both stages. -/
abbrev stages : Transducer (Bool × Option Accent) Call Reply :=
  (altgrStage keyvalToUnicode).cascade accentStage

/-- One call of the engine is one step of the stages. -/
theorem step_holding (altgr : Bool) (held : Option Accent) (call : Call) :
    (engine keyvalToUnicode).step (.holding held altgr) call =
      (((stages keyvalToUnicode).step (altgr, held) call).1,
        .holding ((stages keyvalToUnicode).step (altgr, held) call).2.2
          ((stages keyvalToUnicode).step (altgr, held) call).2.1) := by
  cases call with
  | reset => rfl
  | focusOut => rfl
  | disable => rfl
  | processKeyEvent event =>
      simp only [engine, stages, Transducer.cascade, altgrStage]
      cases hkey : isAltgrModifierKey event.key with
      | true =>
          rw [processKeyEvent_altgrKey keyvalToUnicode _ _ _ hkey]
          rfl
      | false =>
          cases held with
          | none =>
              rw [processKeyEvent_idle keyvalToUnicode _ _ _ hkey]
              simp only [Bool.false_eq_true, ↓reduceIte, accentStage, idleStep]
              cases passthroughChar keyvalToUnicode event.key event.code event.state altgr with
              | some c => rfl
              | none => cases openedAccent event.key (translateMods event.state) <;> rfl
          | some accent =>
              rw [processKeyEvent_held keyvalToUnicode _ _ _ _ hkey]
              simp only [Bool.false_eq_true, ↓reduceIte, accentStage, heldStep, idleStep]
              cases heldEffect event.key (translateMods event.state) with
              | silent => rfl
              | cancel => rfl
              | text c => rfl
              | navigation =>
                  cases passthroughChar keyvalToUnicode event.key event.code event.state altgr <;>
                    rfl

/-- **The engine is two stages in a row.** Over every run it answers as the accent stage
answers the meanings that the AltGr stage gives the calls. -/
theorem answers_eq_stages (calls : List Call) :
    (engine keyvalToUnicode).answers calls =
      accentStage.answers ((altgrStage keyvalToUnicode).answers calls) := by
  rw [← Transducer.answers_cascade]
  let holding : Bool × Option Accent → ScEngine := fun state => .holding state.2 state.1
  exact @Transducer.answersFrom_of_translation _ _ _ _ (engine keyvalToUnicode)
    (stages keyvalToUnicode) holding
    (fun state call => step_holding keyvalToUnicode state.1 state.2 call) (false, none) calls

end Stages

end SilentCompose.Analysis
