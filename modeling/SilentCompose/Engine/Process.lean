/-
# The IBus engine

One engine instance owns a compose state and tracks a held AltGr key. IBus calls
it with key events and with three lifecycle calls; it answers a key event with
whether it consumed the key, and on the way sends texts to the client. Logging
writes to no state the engine reads, so it has no counterpart here.
-/

import SilentCompose.Compose.State
import SilentCompose.Engine.Passthrough

namespace SilentCompose.Engine

open SilentCompose.Foundations SilentCompose.Toolkit SilentCompose.Compose

/-! ## Modifiers and the AltGr session -/

/-- Translate the IBus modifier state to the compose modifier bits. -/
def translateMods (state : Guint) : Guint :=
  let mods : Guint := 0
  let mods := if hits state ibusShiftMask then mods ||| composeModShift else mods
  let mods := if hits state ibusControlMask then mods ||| composeModControl else mods
  let mods := if hits state ibusMod1Mask then mods ||| composeModAlt else mods
  let mods :=
    if hits state (ibusSuperMask ||| ibusMod4Mask) then mods ||| composeModSuper else mods
  let mods := if hits state ibusReleaseMask then mods ||| composeModRelease else mods
  mods

/-- Keys that start or end an AltGr session. -/
def isAltgrModifierKey (key : Guint) : Bool :=
  key = ibusKeyAltR ∨ key = ibusKeyISOLevel3Shift ∨ key = ibusKeyModeSwitch

/-- State of one engine instance. -/
structure ScEngine where
  compose : ComposeState
  altgr : Bool
  deriving DecidableEq

/-- Update the AltGr session and report whether this was its key. -/
def updateAltgrSession (self : ScEngine) (key state : Guint) : Bool × ScEngine :=
  if ¬isAltgrModifierKey key then (false, self)
  else (true, { self with altgr := !hits state ibusReleaseMask })

/-! ## Key events -/

/-- One key event as IBus delivers it. -/
structure KeyEvent where
  key : Guint
  code : Guint
  state : Guint
  deriving DecidableEq

/-- What handling one key event returns and does: whether the key was consumed,
the texts sent to the client in order, and the engine afterwards. -/
structure KeyOutcome where
  handled : Bool
  commits : List CString
  engine : ScEngine
  deriving DecidableEq

section Process

variable (keyvalToUnicode : KeyvalToUnicode)

/-- Handle one key event delivered by IBus. -/
def processKeyEvent (self : ScEngine) (key code state : Guint) : KeyOutcome :=
  let (altgrEvent, self) := updateAltgrSession self key state
  if altgrEvent then { handled := true, commits := [], engine := self }
  else
    let (passed, texts) :=
      if composeStateIsPending self.compose then (false, [])
      else commitPassthrough keyvalToUnicode key code state self.altgr
    if passed then { handled := true, commits := texts, engine := self }
    else
      let (result, compose) := composeStateProcessKey self.compose key (translateMods state)
      let self := { self with compose := compose }
      let pending := composeStateIsPending self.compose
      let handled := result.handled
      let commits := commitString result.commit
      if !handled && !pending then
        let (passed, texts) := commitPassthrough keyvalToUnicode key code state self.altgr
        if passed then { handled := true, commits := commits ++ texts, engine := self }
        else if consumeAltgrChord self.altgr state then
          { handled := true, commits := commits, engine := self }
        else { handled := handled, commits := commits, engine := self }
      else { handled := handled, commits := commits, engine := self }

/-! ## Lifecycle and runs -/

def reset (self : ScEngine) : ScEngine :=
  { self with compose := composeStateReset self.compose, altgr := false }

def focusOut (self : ScEngine) : ScEngine :=
  { self with compose := composeStateReset self.compose, altgr := false }

def disable (self : ScEngine) : ScEngine :=
  { self with compose := composeStateReset self.compose, altgr := false }

/-- A new engine instance. -/
def scEngineInit : ScEngine := { compose := composeStateNew, altgr := false }

/-- The calls IBus makes on an engine. -/
inductive Call
  | processKeyEvent (event : KeyEvent)
  | reset
  | focusOut
  | disable
  deriving DecidableEq

/-- What is asked of the event of a call is decided by looking at the call. -/
instance (call : Call) (p : KeyEvent → Prop) [DecidablePred p] :
    Decidable (∀ event, call = .processKeyEvent event → p event) :=
  match call with
  | .processKeyEvent event => decidable_of_iff (p event) (by simp)
  | .reset => .isTrue (by simp)
  | .focusOut => .isTrue (by simp)
  | .disable => .isTrue (by simp)

/-- What one call shows outside: its return value, absent for the lifecycle calls,
and the texts sent to the client. -/
structure Reply where
  returned : Option Bool
  commits : List CString
  deriving DecidableEq

/-- The engine as a machine over the calls of IBus. -/
def engine : Transducer ScEngine Call Reply where
  init := scEngineInit
  step
    | self, .processKeyEvent event =>
      let outcome := processKeyEvent keyvalToUnicode self event.key event.code event.state
      ({ returned := some outcome.handled, commits := outcome.commits }, outcome.engine)
    | self, .reset => ({ returned := none, commits := [] }, reset self)
    | self, .focusOut => ({ returned := none, commits := [] }, focusOut self)
    | self, .disable => ({ returned := none, commits := [] }, disable self)

end Process

end SilentCompose.Engine
