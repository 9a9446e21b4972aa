/-
# The compose state machine

One accent at most is held back. A key either starts a sequence, cancels one,
completes one, flushes its literal, or is left to the application. Pointers to
the state are never null here, since the state is passed by value.
-/

import SilentCompose.Compose.Rules
import SilentCompose.Foundations.Transducer

namespace SilentCompose.Compose

open SilentCompose.Foundations SilentCompose.Toolkit

/-- The private state: the held accent and the literal it was typed as. -/
structure ComposeState where
  pending : PendingAccent
  pendingLiteral : Gunichar
  deriving DecidableEq

/-- Outcome of one key: whether the caller stops its propagation, and the text to
commit, if any. -/
structure ComposeResult where
  handled : Bool
  commit : Option CString
  deriving DecidableEq

def resultUnhandled : ComposeResult := { handled := false, commit := none }

/-- Handled, with a copy of static text or silently. -/
def resultHandled (commit : Option String) : ComposeResult :=
  { handled := true, commit := commit.map fun text => gStrdup (encode text.toList) }

/-- The UTF-8 string of a Unicode value, if the value is a scalar. -/
def utf8FromUnichar (ch : Gunichar) : Option CString :=
  if hvalid : gUnicharValidate ch then
    -- The seven-byte buffer is zero behind the bytes the encoder wrote.
    some (gStrdup (gUnicharToUtf8 (validated ch hvalid) ++ [0]))
  else
    none

/-- The fallback text of two Unicode values, if both are scalars. -/
def concatUnichars (first second : Gunichar) : Option CString :=
  match utf8FromUnichar first, utf8FromUnichar second with
  | some firstUtf8, some secondUtf8 => some (gStrconcat firstUtf8 secondUtf8)
  | _, _ => none

/-- A new state is zeroed memory, which is the idle state. -/
def composeStateNew : ComposeState := { pending := .none, pendingLiteral := 0 }

def composeStateReset (state : ComposeState) : ComposeState :=
  { state with pending := .none, pendingLiteral := 0 }

def composeStateIsPending (state : ComposeState) : Bool := state.pending ≠ .none

/-- Process one normalized key event. -/
def composeStateProcessKey (state : ComposeState) (key mods : Guint) :
    ComposeResult × ComposeState :=
  if hits mods composeModRelease then
    (resultUnhandled, state)
  else if state.pending = .none then
    if isModifierShortcut mods then
      (resultUnhandled, state)
    else
      match pendingFromKey key with
      | some (accent, literal) =>
        (resultHandled none, { state with pending := accent, pendingLiteral := literal })
      | none => (resultUnhandled, state)
  else if key = scKeyEscape ∨ key = scKeyBackspace then
    (resultHandled none, composeStateReset state)
  else if isModifierShortcut mods then
    (resultUnhandled, state)
  else
    match keyToUnicode key with
    | some input =>
      if input = ' '.val then
        ({ handled := true, commit := utf8FromUnichar state.pendingLiteral },
          composeStateReset state)
      else
        match lookupComposition state.pending input with
        | some composed => (resultHandled (some composed), composeStateReset state)
        | none =>
          match concatUnichars state.pendingLiteral input with
          | some fallback =>
            ({ handled := true, commit := some fallback }, composeStateReset state)
          | none => (resultUnhandled, composeStateReset state)
    | none =>
      if isNonPrintableNavigationKey key then
        ({ handled := false, commit := utf8FromUnichar state.pendingLiteral },
          composeStateReset state)
      else
        (resultUnhandled, state)

/-- Only the release and shortcut bits of the modifiers change how a key is treated. -/
theorem composeStateProcessKey_congr (state : ComposeState) (key : Guint) {first second : Guint}
    (hrelease : hits first composeModRelease = hits second composeModRelease)
    (hshortcut : isModifierShortcut first = isModifierShortcut second) :
    composeStateProcessKey state key first = composeStateProcessKey state key second := by
  simp only [composeStateProcessKey, hrelease, hshortcut]

/-- The calls a caller makes on its compose state. -/
inductive ComposeCall
  | processKey (key mods : Guint)
  | reset
  deriving DecidableEq

/-- The compose state as a machine over its calls; a reset returns nothing. -/
def composeMachine : Transducer ComposeState ComposeCall (Option ComposeResult) where
  init := composeStateNew
  step
    | state, .processKey key mods =>
      let (result, state') := composeStateProcessKey state key mods
      (some result, state')
    | state, .reset => (none, composeStateReset state)

end SilentCompose.Compose
