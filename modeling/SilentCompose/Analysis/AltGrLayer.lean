/-
# The AltGr layer can be read back

No symbol stands twice in the AltGr table, so a symbol that arrives tells the keycode
and the Shift level it was typed with. Over a whole run of AltGr presses the text that
the client receives determines the presses, whether the session reports AltGr as Mod5
or the engine tracks the key itself.
-/

import SilentCompose.Engine.Steps
import SilentCompose.Engine.SymbolTable
import SilentCompose.Foundations.Observations

namespace SilentCompose.Analysis

open SilentCompose.Foundations SilentCompose.Toolkit SilentCompose.Compose SilentCompose.Engine

/-! ## Places in the table -/

/-- The keycode and the Shift level of a symbol. -/
def tablePlace (ch : Gunichar) : Option (Guint × Bool) :=
  (winIntlSymbols.find? fun symbol => symbol.altgr = ch ∨ symbol.altgrShift = ch).map fun symbol =>
    (symbol.code, decide (symbol.altgrShift = ch))

/-- Every symbol stands in one place of the table only. -/
theorem tablePlace_symbolAt : ∀ symbol ∈ winIntlSymbols, ∀ shifted : Bool,
    symbol.symbolAt shifted ≠ 0 →
      tablePlace (symbol.symbolAt shifted) = some (symbol.code, shifted) := by
  decide

/-- A press on a keycode that has a symbol at its Shift level, with AltGr active and no
other modifier that makes it a chord. -/
def IsLayerPress (altgr : Bool) (event : KeyEvent) : Prop :=
  isAltgrModifierKey event.key = false ∧ hits event.state ibusReleaseMask = false ∧
    blockedChord event.state = false ∧ altgrActive event.state altgr = true ∧
    ∃ symbol ∈ winIntlSymbols,
      event.code = symbol.code ∧ symbol.symbolAt (hits event.state ibusShiftMask) ≠ 0

instance (altgr : Bool) (event : KeyEvent) : Decidable (IsLayerPress altgr event) :=
  inferInstanceAs (Decidable
    (isAltgrModifierKey event.key = false ∧ hits event.state ibusReleaseMask = false ∧
      blockedChord event.state = false ∧ altgrActive event.state altgr = true ∧
      ∃ symbol ∈ winIntlSymbols,
        event.code = symbol.code ∧ symbol.symbolAt (hits event.state ibusShiftMask) ≠ 0))

/-- A call of someone who types symbols with AltGr only: an event of an AltGr key, a
release, a press that has a symbol, or a lifecycle call. -/
def IsLayerCall (altgr : Bool) : Call → Prop
  | .processKeyEvent event =>
    isAltgrModifierKey event.key = true ∨ hits event.state ibusReleaseMask = true ∨
      IsLayerPress altgr event
  | _ => True

instance (altgr : Bool) : (call : Call) → Decidable (IsLayerCall altgr call)
  | .processKeyEvent event =>
    inferInstanceAs (Decidable
      (isAltgrModifierKey event.key = true ∨ hits event.state ibusReleaseMask = true ∨
        IsLayerPress altgr event))
  | .reset => .isTrue trivial
  | .focusOut => .isTrue trivial
  | .disable => .isTrue trivial

/-- The keycode and the Shift level of a press, other than of an AltGr key. -/
def pressedPlace : Call → List (Guint × Bool)
  | .processKeyEvent event =>
    if isAltgrModifierKey event.key ∨ hits event.state ibusReleaseMask then []
    else [(event.code, hits event.state ibusShiftMask)]
  | _ => []

/-- The places of the characters a step sends. -/
def sentPlaces (r : Record ScEngine Call Reply) : List (Guint × Bool) :=
  (r.output.commits.flatMap fun text => decode text.bytes).filterMap fun c => tablePlace c.val

/-! ## One call at a time -/

section Steps

variable {keyvalToUnicode : KeyvalToUnicode} {altgr : Bool} {event : KeyEvent}

/-- A release is quiet and keeps the engine idle. -/
theorem processKeyEvent_release_idle (hkey : isAltgrModifierKey event.key = false)
    (hrelease : hits event.state ibusReleaseMask = true) :
    processKeyEvent keyvalToUnicode (.holding none altgr) event.key event.code event.state =
      { handled := consumeAltgrChord altgr event.state, commits := []
        engine := .holding none altgr } := by
  have hmods := hits_translateMods_release event.state
  rw [hrelease] at hmods
  have hchar : passthroughChar keyvalToUnicode event.key event.code event.state altgr = none :=
    passthroughChar_eq_none_of_refused _ (by simp [passthroughRefused, hrelease])
  rw [processKeyEvent_quiet keyvalToUnicode none altgr hkey hchar
    (by simp [openedAccent, hmods]) (by simp [heldEffect, hmods])]
  rfl

/-- A press that has a symbol sends it. -/
theorem processKeyEvent_layerPress (hpress : IsLayerPress altgr event) :
    ∃ c, tablePlace c.val = some (event.code, hits event.state ibusShiftMask) ∧
      ZeroFree [c] ∧
      processKeyEvent keyvalToUnicode (.holding none altgr) event.key event.code event.state =
        { handled := true, commits := [.ofText [c]], engine := .holding none altgr } := by
  obtain ⟨hkey, hdown, hblocked, hactive, symbol, hmem, hcode, hnonzero⟩ := hpress
  have haccepted : passthroughRefused event.state altgr = false := by
    simp [passthroughRefused, hdown, hblocked, hactive]
  obtain ⟨c, hc, hchar⟩ := @passthroughChar_of_listed keyvalToUnicode symbol event.key _ _
    hactive haccepted hmem hnonzero
  refine ⟨c, ?_, by simpa [ZeroFree, hc] using hnonzero, ?_⟩
  · rw [hc, hcode]
    exact tablePlace_symbolAt symbol hmem _ hnonzero
  · rw [processKeyEvent_idle keyvalToUnicode altgr _ _ hkey, hcode, hchar]

/-- **An AltGr press arrives as its place.** -/
theorem sentPlaces_record {call : Call} (hcall : IsLayerCall altgr call) :
    ∃ altgr', ((engine keyvalToUnicode).step (.holding none altgr) call).2 =
        .holding none altgr' ∧
      sentPlaces ((engine keyvalToUnicode).record (.holding none altgr) call) =
        pressedPlace call := by
  cases call with
  | reset => exact ⟨false, rfl, rfl⟩
  | focusOut => exact ⟨false, rfl, rfl⟩
  | disable => exact ⟨false, rfl, rfl⟩
  | processKeyEvent event =>
      cases hkey : isAltgrModifierKey event.key with
      | true =>
          have houtcome := processKeyEvent_altgrKey keyvalToUnicode (.holding none altgr)
            event.code event.state hkey
          refine ⟨!hits event.state ibusReleaseMask, ?_, ?_⟩
          · simp only [engine, houtcome]
            rfl
          · simp [sentPlaces, Transducer.record, engine, houtcome, pressedPlace, hkey]
      | false =>
          cases hrelease : hits event.state ibusReleaseMask with
          | true =>
              have houtcome := @processKeyEvent_release_idle keyvalToUnicode altgr event hkey
                hrelease
              refine ⟨altgr, by simp only [engine, houtcome], ?_⟩
              simp [sentPlaces, Transducer.record, engine, houtcome, pressedPlace, hrelease]
          | false =>
              have hpress : IsLayerPress altgr event := by
                rcases hcall with hcall | hcall | hcall
                · exact absurd hcall (by simp [hkey])
                · exact absurd hcall (by simp [hrelease])
                · exact hcall
              obtain ⟨c, hplace, hfree, houtcome⟩ :=
                @processKeyEvent_layerPress keyvalToUnicode altgr event hpress
              have hdecode : decode (CString.ofText [c]).bytes = [c] := by
                rw [CString.ofText_bytes hfree, decode_encode]
              refine ⟨altgr, by simp only [engine, houtcome], ?_⟩
              simp [sentPlaces, Transducer.record, engine, houtcome, pressedPlace, hkey, hrelease,
                hdecode, hplace]

end Steps

/-! ## Whole runs -/

/-- **The text of the AltGr layer tells how it was typed.** Over every run of AltGr
typing on a fresh engine, the places of the characters sent are the keycodes and Shift
levels pressed, in order. -/
theorem places_eq_pressed (keyvalToUnicode : KeyvalToUnicode) (calls : List Call)
    (hcalls : ∀ r ∈ (engine keyvalToUnicode).trace calls, IsLayerCall r.pre.altgr r.input) :
    ((engine keyvalToUnicode).trace calls).flatMap sentPlaces = calls.flatMap pressedPlace := by
  -- Nothing is ever withheld, as no accent is opened.
  let withheld : ScEngine → List (Guint × Bool) := fun _ => []
  let admissible : ScEngine → Call → Prop := fun self call => IsLayerCall self.altgr call
  have hstep : ∀ self call, (∃ altgr, self = ScEngine.holding none altgr) →
      admissible self call →
      (∃ altgr, ((engine keyvalToUnicode).step self call).2 = ScEngine.holding none altgr) ∧
        sentPlaces ((engine keyvalToUnicode).record self call) ++
            withheld ((engine keyvalToUnicode).step self call).2 =
          withheld self ++ pressedPlace call := by
    rintro _ call ⟨altgr, rfl⟩ hcall
    obtain ⟨altgr', hstate, hsent⟩ := @sentPlaces_record keyvalToUnicode altgr call hcall
    exact ⟨⟨altgr', hstate⟩, by simp only [withheld, List.append_nil, List.nil_append, hsent]⟩
  have hplaces : ∀ r ∈ (engine keyvalToUnicode).trace calls, admissible r.pre r.input := hcalls
  have hrun := (engine keyvalToUnicode).flatMap_traceFrom_of_withheld hstep ⟨false, rfl⟩ hplaces
  simp only [withheld, List.append_nil, List.nil_append] at hrun
  exact hrun

/-- `e` with a tracked right Alt that is reported as Mod1, and shifted `1` with Mod5. -/
theorem places_eq_pressed_small :
    ((engine smallKeyvalToUnicode).trace
        [.processKeyEvent ⟨ibusKeyAltR, 100, 0⟩, .processKeyEvent ⟨0x65, 18, ibusMod1Mask⟩,
          .processKeyEvent ⟨ibusKeyAltR, 100, ibusReleaseMask⟩,
          .processKeyEvent ⟨0x21, 2, ibusMod5Mask ||| ibusShiftMask⟩]).flatMap sentPlaces =
      [(18, false), (2, true)] :=
  places_eq_pressed smallKeyvalToUnicode
    [.processKeyEvent ⟨ibusKeyAltR, 100, 0⟩, .processKeyEvent ⟨0x65, 18, ibusMod1Mask⟩,
      .processKeyEvent ⟨ibusKeyAltR, 100, ibusReleaseMask⟩,
      .processKeyEvent ⟨0x21, 2, ibusMod5Mask ||| ibusShiftMask⟩] (by decide)

end SilentCompose.Analysis
