/-
# The input context shows no temporary text

An accent that is still pending must stay invisible. Temporary text can reach the
application in three ways: it is announced by a signal, the delegate is told to use it,
or a report contains some. Whatever the application and the delegate do, and however
their calls nest, the context takes none of them.
-/

import SilentCompose.Im.Segments

namespace SilentCompose.Analysis

open SilentCompose.Foundations SilentCompose.Toolkit SilentCompose.Im

section TemporaryText

variable (features : GtkFeatures) (object : Pointer)

/-- A reported text that would show something. -/
def IsVisible (preedit : PreeditString) : Prop :=
  (∃ str, preedit.str = some str ∧ str.bytes ≠ []) ∨
    (∃ attrs, preedit.attrs = some attrs ∧ attrs ≠ []) ∨
    ∃ cursor, preedit.cursor = some cursor ∧ cursor ≠ 0

/-- The ways in which temporary text could become visible: a signal that announces it, a
delegate that is told to use it, or a report that shows some. -/
inductive ShowsPreedit : Output provided required → Prop
  | announces {call : ContextCall} {signal : ImSignal} (h : signal.isPreedit = true) :
      ShowsPreedit (.asked call (.emit signal))
  | enables {call : ContextCall} {delegate : Pointer} :
      ShowsPreedit (.asked call (.delegate delegate (.setUsePreedit true)))
  | reports {str attrs cursor : Bool} {preedit : PreeditString} (h : IsVisible preedit) :
      ShowsPreedit (.returned (.getPreeditString str attrs cursor) preedit)

/-- The text that the context reports shows nothing. -/
theorem not_isVisible_empty (str attrs cursor : Bool) :
    ¬IsVisible ⟨if str then some (.ofText []) else none, if attrs then some [] else none,
      if cursor then some 0 else none⟩ := by
  have hempty : (CString.ofText []).bytes = [] := rfl
  simp [IsVisible, hempty]

variable {features}

/-- The first segment of a function shows no temporary text. -/
theorem not_showsPreedit_first {call : ContextCall} {state state' : ContextState}
    {halt : Halt required call.Answer} (hfirst : FirstSegment features call state halt state') :
    ¬ShowsPreedit (halt.output (O := provided) call) := by
  intro hshows
  cases hfirst with
  | passedOn hcall hdelegate =>
      cases hshows
      -- The one call that sets the mode passes `false` on.
      cases call <;> cases hcall
  | refused hcall hdelegate =>
      cases hshows
      cases hcall
  | @pushed propId value state object property hproperty hdelegate =>
      cases property <;> cases hshows
  | cached hproperty hdelegate => cases hshows
  | unknownProperty hproperty => cases hshows
  | reported => cases hshows
  | disposed hdelegate => cases hshows
  | disposedAgain hdelegate => cases hshows
  | emptyPreedit =>
      cases hshows with
      | reports hvisible => exact not_isVisible_empty _ _ _ hvisible
  | defaultHandler hparent => cases hshows
  | noDefaultHandler hparent => cases hshows
  | emitted hreaches =>
      cases hshows with
      | announces hpreedit => simp [reachesClient, hpreedit] at hreaches
  | swallowed hreaches => cases hshows

/-- A later segment shows no temporary text. -/
theorem not_showsPreedit_later {call : ContextCall} {state state' : ContextState}
    {halt : Halt required call.Answer} (hlater : LaterSegment call state halt state') :
    ¬ShowsPreedit (halt.output (O := provided) call) := by
  intro hshows
  cases hlater with
  | returned hasked =>
      cases hshows with
      | reports hvisible => exact hasked _ _ _ rfl
  | chainedUp => cases hshows

variable (features)

/-- **No temporary text, ever.** A new delegate is told not to use any, and whatever the
application and the delegate then do, in whatever nesting, the context announces none to
the application, never tells the delegate to use any, and reports none. -/
theorem preedit_never_shown (inputs : List (Input provided required)) :
    .delegate object (.setUsePreedit false) ∈ (creation features object).1 ∧
      .delegate object (.setUsePreedit true) ∉ (creation features object).1 ∧
      ∀ r ∈ (contextMachine features object).trace inputs, ¬ShowsPreedit r.output := by
  refine ⟨by simp [creation_eq], by simp [creation_eq], fun r hmem => ?_⟩
  have hsegment := context_segment features object hmem
  rcases r with ⟨pre, input, output, post⟩
  cases hsegment with
  | started hfirst => exact not_showsPreedit_first hfirst
  | resumed hstack hlater => exact not_showsPreedit_later hlater
  | ignored =>
      intro hshows
      cases hshows

end TemporaryText

end SilentCompose.Analysis
