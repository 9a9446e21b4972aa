/-
# The executable keeps its promises to the libraries

Whatever the libraries answer, the process uses the bus and the factory only while it
holds them, asks for its name only after the engine is registered, enters the main loop
only under that name, never leaves it by itself, and releases what it acquired exactly
once before it ends. Its status tells whether it served or only had to say its version.
-/

import SilentCompose.Foundations.Protocols
import SilentCompose.Service.Main
import Mathlib.Logic.Relation

namespace SilentCompose.Analysis

open SilentCompose.Foundations SilentCompose.Toolkit SilentCompose.Service

/-- How far the process has come. -/
structure Progress where
  /-- The references it holds. -/
  live : List Pointer
  /-- The library is initialized. -/
  initialized : Bool
  /-- The engine is registered with a factory. -/
  registered : Bool
  /-- The bus granted the name. -/
  named : Bool
  /-- The main loop ran. -/
  served : Bool
  deriving DecidableEq

/-- A process that has just been started. -/
def Progress.fresh : Progress :=
  { live := [], initialized := false, registered := false, named := false, served := false }

/-- What the process may ask when: objects are used and released while they are held, and
each stage waits for the one before. -/
def serviceProtocol : Protocol libraries Progress where
  allows
    | _, .gPrint _ | _, .gPrinterr _ | _, .setlocale | _, .ibusInit => True
    | progress, .ibusBusNew => progress.initialized = true
    | progress, .ibusBusIsConnected bus => bus ∈ progress.live
    | progress, .gSignalConnectDisconnected bus => bus ∈ progress.live
    | progress, .ibusBusGetConnection bus => bus ∈ progress.live
    | progress, .ibusFactoryNew _ => progress.initialized = true
    | progress, .ibusFactoryAddEngine factory _ => factory ∈ progress.live
    | progress, .ibusBusRequestName bus _ _ => bus ∈ progress.live ∧ progress.registered = true
    | progress, .ibusMain => progress.named = true ∧ progress.live.length = 2
    | _, .ibusQuit => False
    | progress, .gObjectUnref object => object ∈ progress.live
  next
    | progress, .ibusInit, _ => { progress with initialized := true }
    | progress, .ibusBusNew, bus => { progress with live := bus.toList ++ progress.live }
    | progress, .ibusFactoryNew _, factory => { progress with live := factory :: progress.live }
    | progress, .ibusFactoryAddEngine _ _, _ => { progress with registered := true }
    | progress, .ibusBusRequestName _ _ _, reply => { progress with named := decide (reply ≠ 0) }
    | progress, .ibusMain, _ => { progress with served := true }
    | progress, .gObjectUnref object, _ => { progress with live := progress.live.erase object }
    | progress, _, _ => progress

/-- Nothing is held any more, and the status is zero if the main loop ran or the library
was not even initialized. -/
def IsCleanEnd (progress : Progress) (status : Gint) (statics : Statics) : Prop :=
  progress.live = [] ∧ statics = ⟨none, none⟩ ∧
    status = if progress.served ∨ ¬progress.initialized then 0 else 1

/-- The static variables are left alone. -/
def keepsStatics (before after : Statics) : Prop := after = before

/-- The function called when the bus disconnects runs, to its end or not. -/
def disconnects (before after : Statics) : Prop :=
  ∃ log rest, busDisconnectedCb.Reaches keepsStatics before log rest after

/-- However often the bus disconnects, the static variables are left alone. -/
theorem keepsStatics_of_disconnects {before after : Statics}
    (h : Relation.ReflTransGen disconnects before after) : keepsStatics before after := by
  induction h with
  | refl => rfl
  | tail _ hlast ih =>
      rcases hlast with ⟨log, rest, hlast⟩
      cases hlast with
      | here => exact ih
      | ask a hrely hrest =>
          cases hrest with
          | here => exact Eq.trans hrely ih

/-- A program that obeys the protocol and ends clean. -/
abbrev Behaves (program : ServiceProgram Gint) (progress : Progress) (statics : Statics) : Prop :=
  program.Obeys keepsStatics serviceProtocol IsCleanEnd progress statics

/-- The references that are left once this one, if any, is released. -/
def Progress.release (progress : Progress) (object : Option Pointer) : Progress :=
  match object with
  | some object => { progress with live := progress.live.erase object }
  | none => progress

section Behaves

variable {progress : Progress} {k : Unit → ServiceProgram Gint}

/-- Clearing the bus releases it, if it is held. -/
theorem clearBus_behaves {bus factory : Option Pointer} (hheld : ∀ p ∈ bus, p ∈ progress.live)
    (hk : Behaves (k ()) (progress.release bus) ⟨none, factory⟩) :
    Behaves (clearBus >>= k) progress ⟨bus, factory⟩ := by
  cases bus with
  | none => exact hk
  | some p =>
      refine ⟨hheld p rfl, ?_⟩
      rintro a _ rfl
      exact hk

/-- Clearing the factory releases it, if it is held. -/
theorem clearFactory_behaves {bus factory : Option Pointer}
    (hheld : ∀ p ∈ factory, p ∈ progress.live)
    (hk : Behaves (k ()) (progress.release factory) ⟨bus, none⟩) :
    Behaves (clearFactory >>= k) progress ⟨bus, factory⟩ := by
  cases factory with
  | none => exact hk
  | some p =>
      refine ⟨hheld p rfl, ?_⟩
      rintro a _ rfl
      exact hk

/-- The process ends by clearing the bus, and the factory before it. -/
theorem clearBus_last_behaves {bus : Option Pointer} {status : Gint}
    (hlive : progress.live = bus.toList)
    (hstatus : status = if progress.served ∨ ¬progress.initialized then 0 else 1) :
    Behaves (clearBus >>= fun _ => pure status) progress ⟨bus, none⟩ := by
  apply clearBus_behaves
  · intro p hp
    rw [hlive]
    exact Option.mem_toList.mpr hp
  · cases bus with
    | none => exact ⟨hlive, rfl, hstatus⟩
    | some p => exact ⟨by simp [Progress.release, hlive], rfl, hstatus⟩

theorem clearBoth_behaves {bus factory : Pointer} {status : Gint}
    (hlive : progress.live = [factory, bus])
    (hstatus : status = if progress.served ∨ ¬progress.initialized then 0 else 1) :
    Behaves (clearFactory >>= fun _ => clearBus >>= fun _ => pure status) progress
      ⟨some bus, some factory⟩ := by
  apply clearFactory_behaves
  · rintro p ⟨⟩
    simp [hlive]
  · exact clearBus_last_behaves (by simp [Progress.release, hlive]) hstatus

/-- Without a connected bus the process ends with an error. -/
theorem unavailable_behaves {bus : Option Pointer} (hlive : progress.live = bus.toList)
    (hinit : progress.initialized = true) (hserved : progress.served = false) :
    Behaves unavailable progress ⟨bus, none⟩ := by
  refine ⟨trivial, ?_⟩
  rintro a _ rfl
  exact clearBus_last_behaves hlive (by simp [serviceProtocol, hinit, hserved])

/-- With a connected bus the process serves, unless it does not get its name. -/
theorem serve_behaves {bus : Pointer} (hlive : progress.live = [bus])
    (hinit : progress.initialized = true) (hserved : progress.served = false) :
    Behaves (serve bus) progress ⟨some bus, none⟩ := by
  have hbus : bus ∈ progress.live := by simp [hlive]
  refine ⟨hbus, ?_⟩
  rintro a _ rfl
  refine ⟨hbus, ?_⟩
  rintro connection _ rfl
  refine ⟨hinit, ?_⟩
  rintro factory _ rfl
  refine ⟨List.mem_cons_self, ?_⟩
  rintro a _ rfl
  refine ⟨⟨List.mem_cons_of_mem factory hbus, rfl⟩, ?_⟩
  rintro reply _ rfl
  have hboth : factory :: progress.live = [factory, bus] := by rw [hlive]
  change Behaves (if reply = 0 then _ else _) _ _
  by_cases hreply : reply = 0
  · rw [if_pos hreply]
    refine ⟨trivial, ?_⟩
    rintro a _ rfl
    exact clearBoth_behaves hboth (by simp [serviceProtocol, hinit, hserved])
  · rw [if_neg hreply]
    refine ⟨⟨by simpa [serviceProtocol] using hreply, congrArg List.length hboth⟩, ?_⟩
    rintro a _ rfl
    exact clearBoth_behaves hboth (by simp [serviceProtocol])

/-- The executable behaves, from its start. -/
theorem main_behaves (scVersion : String) (argv : List String) :
    Behaves (main scVersion argv) .fresh ⟨none, none⟩ := by
  unfold main
  split_ifs with hversion
  · refine ⟨trivial, ?_⟩
    rintro a _ rfl
    exact ⟨rfl, rfl, rfl⟩
  · refine ⟨trivial, ?_⟩
    rintro a _ rfl
    refine ⟨trivial, ?_⟩
    rintro a _ rfl
    refine ⟨rfl, ?_⟩
    rintro bus _ rfl
    cases bus with
    | none => exact unavailable_behaves rfl rfl rfl
    | some bus =>
        refine ⟨List.mem_cons_self, ?_⟩
        rintro connected _ rfl
        cases connected with
        | true => exact serve_behaves rfl rfl rfl
        | false => exact @unavailable_behaves _ (some bus) rfl rfl rfl

end Behaves

/-- **The executable keeps the protocol** in every execution, whatever it is answered
and however often the bus disconnects while it waits, and every execution that ends has
released everything. -/
theorem main_keepsProtocol (scVersion : String) (argv : List String) {log : Log libraries}
    {rest : ServiceProgram Gint} {statics : Statics}
    (hreach : (main scVersion argv).Reaches (Relation.ReflTransGen disconnects) ⟨none, none⟩ log
      rest statics) :
    serviceProtocol.Keeps .fresh log ∧ ∀ status, rest = .done status →
      IsCleanEnd (serviceProtocol.after .fresh log) status statics := by
  have halone := hreach.mono fun _ _ => keepsStatics_of_disconnects
  obtain ⟨hkeeps, hrest⟩ := (main_behaves scVersion argv).reaches halone
  refine ⟨hkeeps, ?_⟩
  rintro status rfl
  exact hrest

/-- The process serves until the bus goes away. -/
def servedLog : Log libraries :=
  [⟨.setlocale, ()⟩, ⟨.ibusInit, ()⟩, ⟨.ibusBusNew, some 1⟩, ⟨.ibusBusIsConnected 1, true⟩,
    ⟨.gSignalConnectDisconnected 1, ()⟩, ⟨.ibusBusGetConnection 1, 7⟩, ⟨.ibusFactoryNew 7, 2⟩,
    ⟨.ibusFactoryAddEngine 2 engineName, ()⟩, ⟨.ibusBusRequestName 1 busName 0, 1⟩,
    ⟨.ibusMain, ()⟩, ⟨.gObjectUnref 2, ()⟩, ⟨.gObjectUnref 1, ()⟩]

theorem main_reaches_served :
    (main "1.0" ["silent-compose-ibus"]).Reaches (Relation.ReflTransGen disconnects) ⟨none, none⟩
      servedLog (.done 0) ⟨none, none⟩ := by
  have same (statics : Statics) : Relation.ReflTransGen disconnects statics statics := .refl
  have alone (statics : Statics) : keepsStatics statics statics := rfl
  have hquit : Relation.ReflTransGen disconnects ⟨some 1, some 2⟩ ⟨some 1, some 2⟩ :=
    .single ⟨[⟨.ibusQuit, ()⟩], .done (), .ask _ (alone _) .here⟩
  refine .ask _ (same _) (.ask _ (same _) (.ask _ (same _) (.update ?_)))
  refine .ask _ (same _) (.ask _ (same _) (.ask _ (same _) (.ask _ (same _) (.update ?_))))
  refine .ask _ (same _) (.ask _ (same _) ?_)
  refine .ask _ hquit (.read (.update ?_))
  exact .ask _ (same _) (.read (.update (.ask _ (same _) .here)))

theorem main_keepsProtocol_served :
    serviceProtocol.Keeps .fresh servedLog ∧
      IsCleanEnd (serviceProtocol.after .fresh servedLog) 0 ⟨none, none⟩ :=
  let h := main_keepsProtocol "1.0" ["silent-compose-ibus"] main_reaches_served
  ⟨h.1, h.2 0 rfl⟩

end SilentCompose.Analysis
