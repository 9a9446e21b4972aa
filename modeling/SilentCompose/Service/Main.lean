/-
# The component executable

The process that ibus-daemon starts: it answers `--version`, or connects to the bus,
registers the engine, asks for its name and serves until the bus goes away. The bus and
the factory are static variables; the function called when the bus disconnects touches
neither. Logging has no counterpart here.
-/

import SilentCompose.Foundations.Programs
import SilentCompose.Toolkit.GLib

namespace SilentCompose.Service

open SilentCompose.Foundations SilentCompose.Toolkit

/-- `ENGINE_NAME` -/
def engineName : String := "silent-compose"

/-- `BUS_NAME` -/
def busName : String := "org.freedesktop.IBus.SilentCompose"

/-- The static variables. -/
structure Statics where
  bus : Option Pointer
  factory : Option Pointer
  deriving DecidableEq

/-- What the process asks of the libraries it uses. -/
inductive ServiceRequest
  | gPrint (text : String)
  | gPrinterr (text : String)
  | setlocale
  | ibusInit
  | ibusBusNew
  | ibusBusIsConnected (bus : Pointer)
  | gSignalConnectDisconnected (bus : Pointer)
  | ibusBusGetConnection (bus : Pointer)
  | ibusFactoryNew (connection : Pointer)
  | ibusFactoryAddEngine (factory : Pointer) (name : String)
  | ibusBusRequestName (bus : Pointer) (name : String) (flags : Guint)
  | ibusMain
  | ibusQuit
  | gObjectUnref (object : Pointer)
  deriving DecidableEq

@[reducible]
def ServiceRequest.Answer : ServiceRequest → Type
  | .ibusBusNew => Option Pointer
  | .ibusBusIsConnected _ => Bool
  | .ibusBusGetConnection _ => Pointer
  | .ibusFactoryNew _ => Pointer
  | .ibusBusRequestName .. => Guint
  | _ => Unit

/-- What the process asks other parties. -/
abbrev libraries : Interface := ⟨ServiceRequest, ServiceRequest.Answer⟩

/-- A function of the process. -/
abbrev ServiceProgram := Program Statics libraries

/-- Ask one of the libraries. -/
def ask (request : ServiceRequest) : ServiceProgram request.Answer :=
  Program.request (P := libraries) request

/-- The argument asks for the version. -/
def argumentIsVersion (arg : String) : Bool := arg = "--version" ∨ arg = "-V"

/-- Exit the main loop when the daemon goes away. -/
def busDisconnectedCb : ServiceProgram Unit := ask .ibusQuit

/-- `g_clear_object (&bus)` -/
def clearBus : ServiceProgram Unit := do
  let statics ← Program.get
  match statics.bus with
  | some bus =>
    Program.modify fun statics => { statics with bus := none }
    ask (.gObjectUnref bus)
  | none => pure ()

/-- `g_clear_object (&factory)` -/
def clearFactory : ServiceProgram Unit := do
  let statics ← Program.get
  match statics.factory with
  | some factory =>
    Program.modify fun statics => { statics with factory := none }
    ask (.gObjectUnref factory)
  | none => pure ()

/-- The branch without a connected bus. -/
def unavailable : ServiceProgram Gint := do
  ask (.gPrinterr "silent-compose-ibus: ibus-daemon is not available\n")
  clearBus
  pure 1

/-- The branch with a connected bus. -/
def serve (bus : Pointer) : ServiceProgram Gint := do
  ask (.gSignalConnectDisconnected bus)
  let connection ← ask (.ibusBusGetConnection bus)
  let factory ← ask (.ibusFactoryNew connection)
  Program.modify fun statics => { statics with factory := some factory }
  ask (.ibusFactoryAddEngine factory engineName)
  let requestNameReply ← ask (.ibusBusRequestName bus busName 0)
  if requestNameReply = 0 then
    ask (.gPrinterr ("silent-compose-ibus: failed to request bus name " ++ busName ++ "\n"))
    clearFactory
    clearBus
    pure 1
  else
    ask .ibusMain
    clearFactory
    clearBus
    pure 0

/-- Normal startup path of the executable, with the version it was built with. -/
def main (scVersion : String) (argv : List String) : ServiceProgram Gint :=
  if argv.length = 2 ∧ argumentIsVersion (argv.getD 1 "") then do
    ask (.gPrint ("Silent Compose " ++ scVersion ++ "\n"))
    pure 0
  else do
    ask .setlocale
    ask .ibusInit
    let bus ← ask .ibusBusNew
    Program.modify fun statics => { statics with bus := bus }
    match bus with
    | none => unavailable
    | some bus =>
      let connected ← ask (.ibusBusIsConnected bus)
      if ¬connected then unavailable else serve bus

end SilentCompose.Service
