/-
# The part of GTK the input context talks to

An input context emits signals to whoever owns it and is driven through the calls of
`GtkIMContext`. Widgets, events and rectangles are only passed on, so an address
stands for each. A call on a null context returns at once with the values below, as
the guards of the library do.
-/

import SilentCompose.Toolkit.GLib

namespace SilentCompose.Toolkit

open SilentCompose.Foundations

/-- `GTK_INPUT_PURPOSE_FREE_FORM` -/
def gtkInputPurposeFreeForm : Guint := 0

/-- `GTK_INPUT_HINT_NONE` -/
def gtkInputHintNone : Guint := 0

/-! ## Signals -/

/-- The signals of a `GtkIMContext`, by name. -/
inductive SignalName
  | commit
  | retrieveSurrounding
  | deleteSurrounding
  | invalidComposition
  | preeditStart
  | preeditChanged
  | preeditEnd
  deriving DecidableEq

/-- A signal with its arguments. -/
inductive ImSignal
  | commit (str : CString)
  | retrieveSurrounding
  | deleteSurrounding (offset n : Gint)
  | invalidComposition (str : CString)
  | preeditStart
  | preeditChanged
  | preeditEnd
  deriving DecidableEq

namespace ImSignal

def name : ImSignal → SignalName
  | .commit _ => .commit
  | .retrieveSurrounding => .retrieveSurrounding
  | .deleteSurrounding _ _ => .deleteSurrounding
  | .invalidComposition _ => .invalidComposition
  | .preeditStart => .preeditStart
  | .preeditChanged => .preeditChanged
  | .preeditEnd => .preeditEnd

/-- Three signals are answered with whether they were handled. -/
@[reducible]
def Answer : ImSignal → Type
  | .retrieveSurrounding | .deleteSurrounding _ _ | .invalidComposition _ => Bool
  | .commit _ | .preeditStart | .preeditChanged | .preeditEnd => Unit

/-- The answer to a signal that no handler is connected to. -/
def unhandled : (signal : ImSignal) → signal.Answer
  | .retrieveSurrounding | .deleteSurrounding _ _ | .invalidComposition _ => false
  | .commit _ | .preeditStart | .preeditChanged | .preeditEnd => ()

/-- The signals that announce temporary text. -/
def isPreedit : ImSignal → Bool
  | .preeditStart | .preeditChanged | .preeditEnd => true
  | _ => false

end ImSignal

/-! ## Calls on an input context -/

/-- Text around the cursor, with the cursor and the anchor of the selection. -/
structure Surrounding where
  text : List UInt8
  cursor : Gint
  anchor : Gint
  deriving DecidableEq

/-- What the caller of `gtk_im_context_get_preedit_string` gets in those of its three
pointers that are not null. -/
structure PreeditString where
  str : Option CString
  attrs : Option (List Pointer)
  cursor : Option Gint
  deriving DecidableEq

/-- The calls on another input context, and the release of a reference to it. -/
inductive ImContextCall
  | setClientWidget (widget : Pointer)
  | filterKeypress (event : Pointer)
  | focusIn
  | focusOut
  | reset
  | setCursorLocation (area : Pointer)
  | setUsePreedit (use : Bool)
  | setSurroundingWithSelection (text : List UInt8) (len cursor anchor : Gint)
  | getSurroundingWithSelection
  | activateOsk (event : Pointer)
  | setInputPurpose (value : Guint)
  | setInputHints (value : Guint)
  | unref
  deriving DecidableEq

namespace ImContextCall

@[reducible]
def Answer : ImContextCall → Type
  | .filterKeypress _ | .activateOsk _ => Bool
  | .getSurroundingWithSelection => Option Surrounding
  | _ => Unit

/-- The answer of a call on a null context. -/
def refused : (call : ImContextCall) → call.Answer
  | .filterKeypress _ | .activateOsk _ => false
  | .getSurroundingWithSelection => none
  | .setClientWidget _ | .focusIn | .focusOut | .reset | .setCursorLocation _ | .setUsePreedit _
  | .setSurroundingWithSelection .. | .setInputPurpose _ | .setInputHints _ | .unref => ()

end ImContextCall

end SilentCompose.Toolkit
