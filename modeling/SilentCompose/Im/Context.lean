/-
# The GTK input context

The context owns a delegate, GTK's own simple context, and passes every call on to it
and every signal of it on to the application, except the signals that announce
temporary text. While it waits for either of them it may be called again, so each
function is a program that asks. Logging writes to no state the context reads, so it
has no counterpart here.
-/

import SilentCompose.Foundations.Programs
import SilentCompose.Toolkit.Gtk

namespace SilentCompose.Im

open SilentCompose.Foundations SilentCompose.Toolkit

/-! ## State and interfaces -/

/-- State of one input context. -/
structure ScIMContext where
  delegate : Option Pointer
  inputPurpose : Guint
  inputHints : Guint
  deriving DecidableEq

/-- A context with the handlers it has connected to its delegate. -/
structure ContextState where
  self : ScIMContext
  connected : List SignalName
  deriving DecidableEq

/-- What the GTK in use provides: the signal `invalid-composition`, looked up on the
type of the delegate and on that of the context, and a default handler for it. -/
structure GtkFeatures where
  delegateHasInvalidComposition : Bool
  contextHasInvalidComposition : Bool
  parentHandlesInvalidComposition : Bool
  deriving DecidableEq

/-- What the context asks for: a new delegate, a call on it, a signal to the
application, and the functions of its parent class. -/
inductive ContextRequest
  | newDelegate
  | delegate (object : Pointer) (call : ImContextCall)
  | emit (signal : ImSignal)
  | parentDispose
  | parentInvalidComposition (str : CString)
  deriving DecidableEq

@[reducible]
def ContextRequest.Answer : ContextRequest → Type
  | .newDelegate => Pointer
  | .delegate _ call => call.Answer
  | .emit signal => signal.Answer
  | .parentDispose => Unit
  | .parentInvalidComposition _ => Bool

/-- What the context asks other parties. -/
abbrev required : Interface := ⟨ContextRequest, ContextRequest.Answer⟩

/-- What other parties call on the context: the functions its class installs, and the
emission of a signal by its delegate. -/
inductive ContextCall
  | setProperty (propId value : Guint)
  | getProperty (propId : Guint)
  | dispose
  | setClientWidget (widget : Pointer)
  | getPreeditString (str attrs cursor : Bool)
  | filterKeypress (event : Pointer)
  | focusIn
  | focusOut
  | reset
  | setCursorLocation (area : Pointer)
  | setUsePreedit (use : Bool)
  | setSurrounding (text : List UInt8) (len cursor : Gint)
  | getSurrounding
  | setSurroundingWithSelection (text : List UInt8) (len cursor anchor : Gint)
  | getSurroundingWithSelection
  | activateOsk
  | activateOskWithEvent (event : Pointer)
  | invalidComposition (str : CString)
  | delegateSignal (signal : ImSignal)
  deriving DecidableEq

@[reducible]
def ContextCall.Answer : ContextCall → Type
  | .getProperty _ => Option Guint
  | .getPreeditString .. => PreeditString
  | .filterKeypress _ | .activateOskWithEvent _ | .invalidComposition _ => Bool
  | .getSurrounding => Option (List UInt8 × Gint)
  | .getSurroundingWithSelection => Option Surrounding
  | .delegateSignal signal => signal.Answer
  | _ => Unit

/-- What the context provides. -/
abbrev provided : Interface := ⟨ContextCall, ContextCall.Answer⟩

instance : DecidableEq required.Request := inferInstanceAs (DecidableEq ContextRequest)

/-- A function of the context. -/
abbrev ContextProgram := Program ContextState required

/-- Call the delegate; without one the call returns at once. -/
def callDelegate (call : ImContextCall) : ContextProgram call.Answer := do
  let state ← Program.get
  match state.self.delegate with
  | some object => Program.request (P := required) (.delegate object call)
  | none => pure call.refused

/-- Emit a signal of the context. -/
def emit (signal : ImSignal) : ContextProgram signal.Answer :=
  Program.request (P := required) (.emit signal)

/-! ## Signals of the delegate -/

section Signals

variable (features : GtkFeatures)

/-- Forward completed text. -/
def delegateCommitCb (str : CString) : ContextProgram Unit := emit (.commit str)

/-- Let the delegate ask the application for surrounding text. -/
def delegateRetrieveSurroundingCb : ContextProgram Bool := emit .retrieveSurrounding

/-- Forward a request to delete surrounding text. -/
def delegateDeleteSurroundingCb (offset n : Gint) : ContextProgram Bool :=
  emit (.deleteSurrounding offset n)

/-- Forward a rejected sequence where the signal exists. -/
def delegateInvalidCompositionCb (str : CString) : ContextProgram Bool :=
  if ¬features.contextHasInvalidComposition then pure false else emit (.invalidComposition str)

/-- Swallow a signal that announces temporary text. -/
def delegatePreeditIgnoredCb : ContextProgram Unit := pure ()

/-- The handler connected to each signal of the delegate. -/
def delegateCb : (signal : ImSignal) → ContextProgram signal.Answer
  | .commit str => delegateCommitCb str
  | .retrieveSurrounding => delegateRetrieveSurroundingCb
  | .deleteSurrounding offset n => delegateDeleteSurroundingCb offset n
  | .invalidComposition str => delegateInvalidCompositionCb features str
  | .preeditStart => delegatePreeditIgnoredCb
  | .preeditChanged => delegatePreeditIgnoredCb
  | .preeditEnd => delegatePreeditIgnoredCb

/-- The delegate emits a signal, which runs the handler connected to it. -/
def delegateSignal (signal : ImSignal) : ContextProgram signal.Answer := do
  let state ← Program.get
  if signal.name ∈ state.connected then delegateCb features signal else pure signal.unhandled

/-- Connect the handlers to the delegate. -/
def connectDelegate : ContextProgram Unit := do
  let connect (names : List SignalName) : ContextProgram Unit :=
    Program.modify fun state => { state with connected := state.connected ++ names }
  connect [.commit, .retrieveSurrounding, .deleteSurrounding]
  if features.delegateHasInvalidComposition then
    connect [.invalidComposition]
  connect [.preeditStart, .preeditChanged, .preeditEnd]

end Signals

/-! ## Properties -/

/-- `PROP_INPUT_PURPOSE` -/
def propInputPurpose : Guint := 1

/-- `PROP_INPUT_HINTS` -/
def propInputHints : Guint := 2

/-- Cache a property and push it to the delegate, if there is one. -/
def setProperty (propId value : Guint) : ContextProgram Unit :=
  if propId = propInputPurpose then do
    Program.modify fun state => { state with self := { state.self with inputPurpose := value } }
    callDelegate (.setInputPurpose value)
  else if propId = propInputHints then do
    Program.modify fun state => { state with self := { state.self with inputHints := value } }
    callDelegate (.setInputHints value)
  else
    pure ()

/-- Report a cached property; for another identifier the value is left as it was. -/
def getProperty (propId : Guint) : ContextProgram (Option Guint) := do
  let state ← Program.get
  if propId = propInputPurpose then pure (some state.self.inputPurpose)
  else if propId = propInputHints then pure (some state.self.inputHints)
  else pure none

/-! ## Disposal -/

/-- Disconnect the handlers, then release the delegate, then chain up. -/
def dispose : ContextProgram Unit := do
  let state ← Program.get
  match state.self.delegate with
  | some object =>
    Program.modify fun state => { state with connected := [] }
    -- The pointer is null before the reference behind it is released.
    Program.modify fun state => { state with self := { state.self with delegate := none } }
    Program.request (P := required) (.delegate object .unref)
  | none => pure ()
  Program.request (P := required) .parentDispose

/-! ## Functions of the input context class -/

def setClientWidget (widget : Pointer) : ContextProgram Unit :=
  callDelegate (.setClientWidget widget)

/-- Always an empty text, for those of the three pointers that are not null. -/
def getPreeditString (str attrs cursor : Bool) : ContextProgram PreeditString :=
  pure
    { str := if str then some (gStrdup (encode [])) else none
      attrs := if attrs then some [] else none
      cursor := if cursor then some 0 else none }

def filterKeypress (event : Pointer) : ContextProgram Bool := callDelegate (.filterKeypress event)

def focusIn : ContextProgram Unit := callDelegate .focusIn

def focusOut : ContextProgram Unit := callDelegate .focusOut

def reset : ContextProgram Unit := callDelegate .reset

def setCursorLocation (area : Pointer) : ContextProgram Unit :=
  callDelegate (.setCursorLocation area)

/-- The requested value is dropped. -/
def setUsePreedit (_use : Bool) : ContextProgram Unit := callDelegate (.setUsePreedit false)

/-- The cursor doubles as the anchor. -/
def setSurrounding (text : List UInt8) (len cursor : Gint) : ContextProgram Unit :=
  callDelegate (.setSurroundingWithSelection text len cursor cursor)

/-- The anchor is dropped. -/
def getSurrounding : ContextProgram (Option (List UInt8 × Gint)) := do
  let surrounding ← callDelegate .getSurroundingWithSelection
  pure (Option.map (fun found : Surrounding => (found.text, found.cursor)) surrounding)

def setSurroundingWithSelection (text : List UInt8) (len cursor anchor : Gint) :
    ContextProgram Unit :=
  callDelegate (.setSurroundingWithSelection text len cursor anchor)

def getSurroundingWithSelection : ContextProgram (Option Surrounding) :=
  callDelegate .getSurroundingWithSelection

/-- Without an event, and the answer is dropped. -/
def activateOsk : ContextProgram Unit := do
  let _ ← callDelegate (.activateOsk 0)
  pure ()

def activateOskWithEvent (event : Pointer) : ContextProgram Bool :=
  callDelegate (.activateOsk event)

/-- The default handler of `invalid-composition`: that of the parent class, if any. -/
def invalidComposition (features : GtkFeatures) (str : CString) : ContextProgram Bool :=
  if features.parentHandlesInvalidComposition then
    Program.request (P := required) (.parentInvalidComposition str)
  else pure false

/-! ## The context as a component -/

/-- The functions the class installs, and the signals of the delegate. -/
def scImContextClass (features : GtkFeatures) : (call : ContextCall) → ContextProgram call.Answer
  | .setProperty propId value => setProperty propId value
  | .getProperty propId => getProperty propId
  | .dispose => dispose
  | .setClientWidget widget => setClientWidget widget
  | .getPreeditString str attrs cursor => getPreeditString str attrs cursor
  | .filterKeypress event => filterKeypress event
  | .focusIn => focusIn
  | .focusOut => focusOut
  | .reset => reset
  | .setCursorLocation area => setCursorLocation area
  | .setUsePreedit use => setUsePreedit use
  | .setSurrounding text len cursor => setSurrounding text len cursor
  | .getSurrounding => getSurrounding
  | .setSurroundingWithSelection text len cursor anchor =>
    setSurroundingWithSelection text len cursor anchor
  | .getSurroundingWithSelection => getSurroundingWithSelection
  | .activateOsk => activateOsk
  | .activateOskWithEvent event => activateOskWithEvent event
  | .invalidComposition str => invalidComposition features str
  | .delegateSignal signal => delegateSignal features signal

/-- Create the delegate, configure it, and only then connect to it. -/
def scImContextInit (features : GtkFeatures) : ContextProgram Unit := do
  Program.modify fun state =>
    { state with self :=
      { state.self with
        inputPurpose := gtkInputPurposeFreeForm, inputHints := gtkInputHintNone } }
  let object ← Program.request (P := required) .newDelegate
  Program.modify fun state => { state with self := { state.self with delegate := some object } }
  let state ← Program.get
  callDelegate (.setInputPurpose state.self.inputPurpose)
  callDelegate (.setInputHints state.self.inputHints)
  callDelegate (.setUsePreedit false)
  connectDelegate features

/-- An instance before its initializer ran is zeroed memory. -/
def zeroedContext : ContextState :=
  { self := { delegate := none, inputPurpose := 0, inputHints := 0 }, connected := [] }

/-- The answers during creation, when no other party has the instance yet. -/
def creationAnswers (object : Pointer) : (request : ContextRequest) → request.Answer
  | .newDelegate => object
  | .delegate _ call => call.refused
  | .emit signal => signal.unhandled
  | .parentDispose => ()
  | .parentInvalidComposition _ => false

/-- The creation of a context: what it asks for, and the state it leaves. -/
def creation (features : GtkFeatures) (object : Pointer) :
    List ContextRequest × Unit × ContextState :=
  (scImContextInit features).runWith (P := required) (creationAnswers object) zeroedContext

/-- A context with its delegate, as a component between the application and GTK. -/
def context (features : GtkFeatures) (object : Pointer) :
    Component ContextState provided required where
  init := (creation features object).2.2
  body := scImContextClass features

end SilentCompose.Im
