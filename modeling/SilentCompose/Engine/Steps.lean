/-
# What one call of the engine does

Reachable engines hold back one accent or nothing. On them every call takes one of
the steps listed by `EngineStep`, which speaks of accents and characters in place of
compose states, masks and buffers. Later arguments split on that relation and never
unfold the handler of key events.
-/

import SilentCompose.Compose.Composer
import SilentCompose.Engine.Process

namespace SilentCompose.Engine

open SilentCompose.Foundations SilentCompose.Toolkit SilentCompose.Compose

/-! ## Modifier bits across the translation -/

theorem blockedChord_eq (state : Guint) :
    blockedChord state =
      (hits state ibusControlMask || hits state (ibusSuperMask ||| ibusMod4Mask)) := by
  rw [blockedChord, hits_or, hits_or, hits_or, Bool.or_assoc]

theorem hits_translateMods_release (state : Guint) :
    hits (translateMods state) composeModRelease = hits state ibusReleaseMask := by
  rw [translateMods]
  cases hits state ibusShiftMask <;> cases hits state ibusControlMask <;>
    cases hits state ibusMod1Mask <;> cases hits state (ibusSuperMask ||| ibusMod4Mask) <;>
    cases hits state ibusReleaseMask <;> rfl

/-- The compose state calls a shortcut what carries Mod1 or blocks passthrough. -/
theorem isModifierShortcut_translateMods (state : Guint) :
    isModifierShortcut (translateMods state) = (hits state ibusMod1Mask || blockedChord state) := by
  rw [blockedChord_eq]
  rw [translateMods]
  cases hits state ibusShiftMask <;> cases hits state ibusControlMask <;>
    cases hits state ibusMod1Mask <;> cases hits state (ibusSuperMask ||| ibusMod4Mask) <;>
    cases hits state ibusReleaseMask <;> rfl

/-- The effect of an event on a held accent, in the modifier bits of IBus. -/
theorem heldEffect_translateMods (key state : Guint) :
    heldEffect key (translateMods state) =
      if hits state ibusReleaseMask ∨
          ((hits state ibusMod1Mask || blockedChord state) ∧ ¬isCancelKey key) then .silent
      else keyEffect key := by
  rw [heldEffect, hits_translateMods_release, isModifierShortcut_translateMods]

/-- The accent an event opens, in the modifier bits of IBus. -/
theorem openedAccent_translateMods (key state : Guint) :
    openedAccent key (translateMods state) =
      if hits state ibusReleaseMask ∨ (hits state ibusMod1Mask || blockedChord state) then none
      else Accent.ofKey key := by
  rw [openedAccent, hits_translateMods_release, isModifierShortcut_translateMods]

/-- Only a press opens an accent. -/
theorem press_of_openedAccent {key state : Guint} {accent : Accent}
    (hopen : openedAccent key (translateMods state) = some accent) :
    hits state ibusReleaseMask = false ∧ Accent.ofKey key = some accent := by
  rw [openedAccent_translateMods] at hopen
  split_ifs at hopen with hrefused
  exact ⟨by simpa using (not_or.mp hrefused).1, hopen⟩

/-- Only a press does anything to a held accent. -/
theorem press_of_heldEffect {key state : Guint} {effect : HeldEffect}
    (heffect : heldEffect key (translateMods state) = effect) (hloud : effect ≠ .silent) :
    hits state ibusReleaseMask = false ∧ keyEffect key = effect := by
  rw [heldEffect_translateMods] at heffect
  split_ifs at heffect with hrefused
  · exact absurd heffect.symm hloud
  · exact ⟨by simpa using (not_or.mp hrefused).1, heffect⟩

/-- No shortcut completes or flushes a held accent. -/
theorem noShortcut_of_heldEffect {key state : Guint} {effect : HeldEffect}
    (heffect : heldEffect key (translateMods state) = effect) (hloud : effect ≠ .silent)
    (hcancel : effect ≠ .cancel) :
    hits state ibusMod1Mask = false ∧ blockedChord state = false := by
  obtain ⟨hpress, hkey⟩ := press_of_heldEffect heffect hloud
  have hnot : isCancelKey key = false := by
    apply Bool.eq_false_iff.mpr
    intro hcancels
    exact hcancel (hkey ▸ keyEffect_of_cancel hcancels)
  rw [heldEffect_translateMods, hpress, hnot] at heffect
  by_contra hmods
  apply hloud
  rw [← heffect, if_pos]
  cases hmod1 : hits state ibusMod1Mask <;> cases hblocked : blockedChord state <;>
    simp [hmod1, hblocked] at hmods ⊢

/-- What completes or flushes a held accent is read as text or as navigation. -/
theorem completesSequence_of_heldEffect {key state : Guint} {effect : HeldEffect}
    (heffect : heldEffect key (translateMods state) = effect) (hloud : effect ≠ .silent)
    (hcancel : effect ≠ .cancel) : completesSequence key = true := by
  obtain ⟨-, hkey⟩ := press_of_heldEffect heffect hloud
  rw [completesSequence_iff, hkey]
  cases effect with
  | silent => exact absurd rfl hloud
  | cancel => exact absurd rfl hcancel
  | text c => exact .inl ⟨c, rfl⟩
  | navigation => exact .inr rfl

/-- Control, Mod1, Mod4, Mod5 and Super are all up. -/
def plainModifiers (state : Guint) : Bool :=
  !hits state (ibusControlMask ||| ibusMod1Mask ||| ibusMod4Mask ||| ibusMod5Mask |||
    ibusSuperMask)

theorem plainModifiers_eq (state : Guint) :
    plainModifiers state =
      (!blockedChord state && !hits state ibusMod1Mask && !hits state ibusMod5Mask) := by
  simp only [plainModifiers, blockedChord, hits_or]
  cases hits state ibusControlMask <;> cases hits state ibusMod1Mask <;>
    cases hits state ibusMod4Mask <;> cases hits state ibusMod5Mask <;>
    cases hits state ibusSuperMask <;> rfl

/-- A plain event is no shortcut. -/
theorem isModifierShortcut_of_plain {state : Guint} (h : plainModifiers state = true) :
    isModifierShortcut (translateMods state) = false := by
  simp only [plainModifiers_eq, Bool.and_eq_true, Bool.not_eq_true'] at h
  rw [isModifierShortcut_translateMods, h.1.1, h.1.2, Bool.or_false]

/-- The effect of a plain press on a held accent is that of its key. -/
theorem heldEffect_of_plain (key : Guint) {state : Guint} (hplain : plainModifiers state = true)
    (hpress : hits state ibusReleaseMask = false) :
    heldEffect key (translateMods state) = keyEffect key := by
  simp [heldEffect, hits_translateMods_release, hpress, isModifierShortcut_of_plain hplain]

/-- A plain press opens the accent of its key. -/
theorem openedAccent_of_plain (key : Guint) {state : Guint} (hplain : plainModifiers state = true)
    (hpress : hits state ibusReleaseMask = false) :
    openedAccent key (translateMods state) = Accent.ofKey key := by
  simp [openedAccent, hits_translateMods_release, hpress, isModifierShortcut_of_plain hplain]

/-- Outside an AltGr session a plain press passes its own character through, if
that is printable and above ASCII. -/
theorem passthroughChar_of_plain (keyvalToUnicode : KeyvalToUnicode) (key code : Guint)
    {state : Guint} (h : plainModifiers state = true) :
    passthroughChar keyvalToUnicode key code state false =
      if hits state ibusReleaseMask then none else aboveAscii (keyvalToUnicode key) := by
  simp only [plainModifiers_eq, Bool.and_eq_true, Bool.not_eq_true'] at h
  rcases h with ⟨⟨hblocked, hmod1⟩, hmod5⟩
  simp [passthroughChar, passthroughRefused, altgrActive, hblocked, hmod1, hmod5]

/-! ## What one key event does -/

/-- The engine that holds back this accent, or nothing, with this AltGr flag. -/
def ScEngine.holding (held : Option Accent) (altgr : Bool) : ScEngine :=
  { compose := .holding held, altgr := altgr }

@[simp]
theorem holding_compose (held : Option Accent) (altgr : Bool) :
    (ScEngine.holding held altgr).compose = .holding held := rfl

@[simp]
theorem holding_altgr (held : Option Accent) (altgr : Bool) :
    (ScEngine.holding held altgr).altgr = altgr := rfl

theorem ScEngine.holding_inj {held held' : Option Accent} {altgr altgr' : Bool} :
    ScEngine.holding held altgr = .holding held' altgr' ↔ held = held' ∧ altgr = altgr' := by
  apply Iff.intro
  · intro heq
    exact ⟨holding_injective (congrArg ScEngine.compose heq), congrArg ScEngine.altgr heq⟩
  · rintro ⟨rfl, rfl⟩
    rfl

/-- A completed accent is always sent. -/
theorem commitString_completion (accent : Accent) (c : Char) :
    commitString (some (.ofText (accent.completion c))) = [.ofText (accent.completion c)] := by
  have hlength := accent.completion_length c
  have hfree := accent.completion_zeroFree c
  cases hchars : accent.completion c with
  | nil => simp [hchars] at hlength
  | cons first rest => exact commitString_ofText (hfree first (by simp [hchars]))

theorem commitString_literal (accent : Accent) :
    commitString (some (.ofText [accent.literal])) = [.ofText [accent.literal]] :=
  commitString_ofText accent.literal_ne_zero

section Outcome

variable (keyvalToUnicode : KeyvalToUnicode)

/-- An AltGr key only opens or closes the session. -/
theorem processKeyEvent_altgrKey (self : ScEngine) {key : Guint} (code state : Guint)
    (hkey : isAltgrModifierKey key = true) :
    processKeyEvent keyvalToUnicode self key code state =
      { handled := true, commits := []
        engine := { self with altgr := !hits state ibusReleaseMask } } := by
  simp [processKeyEvent, updateAltgrSession, hkey]

/-- **With nothing held** a key passes a character through, opens an accent, or is
left to the client unless the chord filter takes it. -/
theorem processKeyEvent_idle (altgr : Bool) {key : Guint} (code state : Guint)
    (hkey : isAltgrModifierKey key = false) :
    processKeyEvent keyvalToUnicode (.holding none altgr) key code state =
      match passthroughChar keyvalToUnicode key code state altgr with
      | some c =>
        { handled := true, commits := [.ofText [c]], engine := .holding none altgr }
      | none =>
        match openedAccent key (translateMods state) with
        | some accent => { handled := true, commits := [], engine := .holding (some accent) altgr }
        | none =>
          { handled := consumeAltgrChord altgr state, commits := []
            engine := .holding none altgr } := by
  simp only [processKeyEvent, updateAltgrSession, hkey, Bool.false_eq_true, not_false_eq_true,
    ↓reduceIte, holding_compose, holding_altgr, composeStateIsPending_holding, Option.isSome_none,
    commitPassthrough_eq, composeStateProcessKey_holding]
  cases hchar : passthroughChar keyvalToUnicode key code state altgr with
  | some c => rfl
  | none =>
      cases hopen : openedAccent key (translateMods state) with
      | some accent => simp [composerStep, hopen, commitString, ScEngine.holding]
      | none =>
          cases hconsume : consumeAltgrChord altgr state <;>
            simp [composerStep, hopen, commitString, ScEngine.holding]

/-- **With an accent held** a key is silent, cancels, completes, or flushes the
literal and is then treated as if nothing had been held. -/
theorem processKeyEvent_held (accent : Accent) (altgr : Bool) {key : Guint} (code state : Guint)
    (hkey : isAltgrModifierKey key = false) :
    processKeyEvent keyvalToUnicode (.holding (some accent) altgr) key code state =
      match heldEffect key (translateMods state) with
      | .silent => { handled := false, commits := [], engine := .holding (some accent) altgr }
      | .cancel => { handled := true, commits := [], engine := .holding none altgr }
      | .text c =>
        { handled := true, commits := [.ofText (accent.completion c)]
          engine := .holding none altgr }
      | .navigation =>
        match passthroughChar keyvalToUnicode key code state altgr with
        | some c =>
          { handled := true, commits := [.ofText [accent.literal], .ofText [c]]
            engine := .holding none altgr }
        | none =>
          { handled := consumeAltgrChord altgr state, commits := [.ofText [accent.literal]]
            engine := .holding none altgr } := by
  simp only [processKeyEvent, updateAltgrSession, hkey, Bool.false_eq_true, not_false_eq_true,
    ↓reduceIte, holding_compose, holding_altgr, composeStateIsPending_holding, Option.isSome_some,
    commitPassthrough_eq, composeStateProcessKey_holding, composerStep]
  cases heffect : heldEffect key (translateMods state) with
  | silent => simp [commitString, ScEngine.holding]
  | cancel => simp [commitString, ScEngine.holding]
  | text c => simp [commitString_completion, ScEngine.holding]
  | navigation =>
      cases hchar : passthroughChar keyvalToUnicode key code state altgr with
      | some c => simp [commitString_literal, ScEngine.holding]
      | none =>
          cases hconsume : consumeAltgrChord altgr state <;>
            simp [commitString_literal, ScEngine.holding]

/-- An event that passes no character through, opens no accent and does nothing to a held
one leaves the engine as it was and sends nothing. -/
theorem processKeyEvent_quiet (held : Option Accent) (altgr : Bool) {key code state : Guint}
    (hkey : isAltgrModifierKey key = false)
    (hchar : passthroughChar keyvalToUnicode key code state altgr = none)
    (hopen : openedAccent key (translateMods state) = none)
    (heffect : heldEffect key (translateMods state) = .silent) :
    processKeyEvent keyvalToUnicode (.holding held altgr) key code state =
      { handled := !held.isSome && consumeAltgrChord altgr state, commits := []
        engine := .holding held altgr } := by
  cases held with
  | none =>
      rw [processKeyEvent_idle keyvalToUnicode altgr code state hkey, hchar, hopen]
      simp
  | some accent =>
      rw [processKeyEvent_held keyvalToUnicode accent altgr code state hkey, heffect]
      simp

/-- The record of a step between two engines that hold back an accent or nothing. -/
def stepRecord (held : Option Accent) (altgr : Bool) (call : Call) (reply : Reply)
    (held' : Option Accent) (altgr' : Bool) : Record ScEngine Call Reply :=
  { pre := .holding held altgr, input := call, output := reply, post := .holding held' altgr' }

@[simp]
theorem stepRecord_pre (held : Option Accent) (altgr : Bool) (call : Call) (reply : Reply)
    (held' : Option Accent) (altgr' : Bool) :
    (stepRecord held altgr call reply held' altgr').pre = .holding held altgr := rfl

@[simp]
theorem stepRecord_output (held : Option Accent) (altgr : Bool) (call : Call) (reply : Reply)
    (held' : Option Accent) (altgr' : Bool) :
    (stepRecord held altgr call reply held' altgr').output = reply := rfl

@[simp]
theorem stepRecord_post (held : Option Accent) (altgr : Bool) (call : Call) (reply : Reply)
    (held' : Option Accent) (altgr' : Bool) :
    (stepRecord held altgr call reply held' altgr').post = .holding held' altgr' := rfl

/-- Everything a call can do to an engine that holds back an accent or nothing: the
accent and the AltGr flag before, the call, its reply, and both afterwards. -/
inductive EngineStep : Option Accent → Bool → Call → Reply → Option Accent → Bool → Prop
  | lifecycle {held : Option Accent} {altgr : Bool} {call : Call}
      (hcall : ∀ event, call ≠ .processKeyEvent event) :
      EngineStep held altgr call ⟨none, []⟩ none false
  | altgrKey {held : Option Accent} {altgr : Bool} {event : KeyEvent}
      (hkey : isAltgrModifierKey event.key = true) :
      EngineStep held altgr (.processKeyEvent event) ⟨some true, []⟩ held
        (!hits event.state ibusReleaseMask)
  | passed {altgr : Bool} {event : KeyEvent} {c : Char}
      (hkey : isAltgrModifierKey event.key = false)
      (hchar : passthroughChar keyvalToUnicode event.key event.code event.state altgr = some c) :
      EngineStep none altgr (.processKeyEvent event) ⟨some true, [.ofText [c]]⟩ none altgr
  | opened {altgr : Bool} {event : KeyEvent} {accent : Accent}
      (hkey : isAltgrModifierKey event.key = false)
      (hchar : passthroughChar keyvalToUnicode event.key event.code event.state altgr = none)
      (hopen : openedAccent event.key (translateMods event.state) = some accent) :
      EngineStep none altgr (.processKeyEvent event) ⟨some true, []⟩ (some accent) altgr
  | ignored {altgr : Bool} {event : KeyEvent}
      (hkey : isAltgrModifierKey event.key = false)
      (hchar : passthroughChar keyvalToUnicode event.key event.code event.state altgr = none)
      (hopen : openedAccent event.key (translateMods event.state) = none) :
      EngineStep none altgr (.processKeyEvent event)
        ⟨some (consumeAltgrChord altgr event.state), []⟩ none altgr
  | silent {accent : Accent} {altgr : Bool} {event : KeyEvent}
      (hkey : isAltgrModifierKey event.key = false)
      (heffect : heldEffect event.key (translateMods event.state) = .silent) :
      EngineStep (some accent) altgr (.processKeyEvent event) ⟨some false, []⟩ (some accent) altgr
  | cancelled {accent : Accent} {altgr : Bool} {event : KeyEvent}
      (hkey : isAltgrModifierKey event.key = false)
      (heffect : heldEffect event.key (translateMods event.state) = .cancel) :
      EngineStep (some accent) altgr (.processKeyEvent event) ⟨some true, []⟩ none altgr
  | completed {accent : Accent} {altgr : Bool} {event : KeyEvent} {c : Char}
      (hkey : isAltgrModifierKey event.key = false)
      (heffect : heldEffect event.key (translateMods event.state) = .text c) :
      EngineStep (some accent) altgr (.processKeyEvent event)
        ⟨some true, [.ofText (accent.completion c)]⟩ none altgr
  | flushed {accent : Accent} {altgr : Bool} {event : KeyEvent}
      (hkey : isAltgrModifierKey event.key = false)
      (heffect : heldEffect event.key (translateMods event.state) = .navigation)
      (hchar : passthroughChar keyvalToUnicode event.key event.code event.state altgr = none) :
      EngineStep (some accent) altgr (.processKeyEvent event)
        ⟨some (consumeAltgrChord altgr event.state), [.ofText [accent.literal]]⟩ none altgr
  | flushedPassed {accent : Accent} {altgr : Bool} {event : KeyEvent} {c : Char}
      (hkey : isAltgrModifierKey event.key = false)
      (heffect : heldEffect event.key (translateMods event.state) = .navigation)
      (hchar : passthroughChar keyvalToUnicode event.key event.code event.state altgr = some c) :
      EngineStep (some accent) altgr (.processKeyEvent event)
        ⟨some true, [.ofText [accent.literal], .ofText [c]]⟩ none altgr

/-- **The engine takes only these steps** from an engine that holds back an accent or
nothing, and stays such an engine. -/
theorem exists_engineStep (held : Option Accent) (altgr : Bool) (call : Call) :
    ∃ reply held' altgr',
      (engine keyvalToUnicode).step (.holding held altgr) call =
        (reply, .holding held' altgr') ∧
      EngineStep keyvalToUnicode held altgr call reply held' altgr' := by
  cases call with
  | reset => exact ⟨_, none, false, rfl, .lifecycle (by simp)⟩
  | focusOut => exact ⟨_, none, false, rfl, .lifecycle (by simp)⟩
  | disable => exact ⟨_, none, false, rfl, .lifecycle (by simp)⟩
  | processKeyEvent event =>
      simp only [engine]
      cases hkey : isAltgrModifierKey event.key with
      | true =>
          rw [processKeyEvent_altgrKey keyvalToUnicode _ _ _ hkey]
          exact ⟨_, held, _, rfl, .altgrKey hkey⟩
      | false =>
          cases held with
          | none =>
              rw [processKeyEvent_idle keyvalToUnicode _ _ _ hkey]
              cases hchar : passthroughChar keyvalToUnicode event.key event.code event.state
                  altgr with
              | some c => exact ⟨_, none, altgr, rfl, .passed hkey hchar⟩
              | none =>
                  cases hopen : openedAccent event.key (translateMods event.state) with
                  | some accent => exact ⟨_, some accent, altgr, rfl, .opened hkey hchar hopen⟩
                  | none => exact ⟨_, none, altgr, rfl, .ignored hkey hchar hopen⟩
          | some accent =>
              rw [processKeyEvent_held keyvalToUnicode _ _ _ _ hkey]
              cases heffect : heldEffect event.key (translateMods event.state) with
              | silent => exact ⟨_, some accent, altgr, rfl, .silent hkey heffect⟩
              | cancel => exact ⟨_, none, altgr, rfl, .cancelled hkey heffect⟩
              | text c => exact ⟨_, none, altgr, rfl, .completed hkey heffect⟩
              | navigation =>
                  cases hchar : passthroughChar keyvalToUnicode event.key event.code event.state
                      altgr with
                  | some c => exact ⟨_, none, altgr, rfl, .flushedPassed hkey heffect hchar⟩
                  | none => exact ⟨_, none, altgr, rfl, .flushed hkey heffect hchar⟩

/-- Every reachable engine holds back one accent or nothing. -/
theorem exists_holding_of_reachable {self : ScEngine}
    (hreach : (engine keyvalToUnicode).Reachable self) :
    ∃ held altgr, self = .holding held altgr := by
  refine Transducer.Reachable.induct
    (P := fun self => ∃ held altgr, self = ScEngine.holding held altgr) ⟨none, false, rfl⟩ ?_ hreach
  intro _ call h
  rcases h with ⟨held, altgr, rfl⟩
  obtain ⟨_, held', altgr', hstep, -⟩ := exists_engineStep keyvalToUnicode held altgr call
  exact ⟨held', altgr', congrArg Prod.snd hstep⟩

/-- The step that a call takes after a run. -/
theorem exists_engineStep_after (before : List Call) (call : Call) :
    ∃ held altgr reply held' altgr',
      (engine keyvalToUnicode).stateAfter before = .holding held altgr ∧
      (engine keyvalToUnicode).step (.holding held altgr) call =
        (reply, .holding held' altgr') ∧
      EngineStep keyvalToUnicode held altgr call reply held' altgr' := by
  obtain ⟨held, altgr, hstate⟩ := exists_holding_of_reachable keyvalToUnicode
    ((engine keyvalToUnicode).reachable_stateAfter before)
  obtain ⟨reply, held', altgr', heq, hstep⟩ := exists_engineStep keyvalToUnicode held altgr call
  exact ⟨held, altgr, reply, held', altgr', hstate, heq, hstep⟩

/-- Every record of a run is such a step. -/
theorem exists_engineStep_of_mem_trace {calls : List Call} {r : Record ScEngine Call Reply}
    (hmem : r ∈ (engine keyvalToUnicode).trace calls) :
    ∃ held altgr call reply held' altgr',
      r = stepRecord held altgr call reply held' altgr' ∧
      EngineStep keyvalToUnicode held altgr call reply held' altgr' := by
  obtain ⟨self, call, hreach, rfl⟩ := (engine keyvalToUnicode).exists_record_of_mem_trace hmem
  obtain ⟨held, altgr, rfl⟩ := exists_holding_of_reachable keyvalToUnicode hreach
  obtain ⟨reply, held', altgr', hstep, hcase⟩ :=
    exists_engineStep keyvalToUnicode held altgr call
  refine ⟨held, altgr, call, reply, held', altgr', ?_, hcase⟩
  simp [Transducer.record, stepRecord, hstep]

/-- Every record of a key event is a step on that event. -/
theorem exists_engineStep_of_event {calls : List Call} {r : Record ScEngine Call Reply}
    {event : KeyEvent} (hmem : r ∈ (engine keyvalToUnicode).trace calls)
    (hinput : r.input = .processKeyEvent event) :
    ∃ held altgr reply held' altgr',
      r = stepRecord held altgr (.processKeyEvent event) reply held' altgr' ∧
      EngineStep keyvalToUnicode held altgr (.processKeyEvent event) reply held' altgr' := by
  obtain ⟨held, altgr, call, reply, held', altgr', rfl, hstep⟩ :=
    exists_engineStep_of_mem_trace keyvalToUnicode hmem
  obtain rfl : call = .processKeyEvent event := hinput
  exact ⟨held, altgr, reply, held', altgr', rfl, hstep⟩

end Outcome

/-! ## Whether an accent is held back -/

/-- The engine holds an accent back. -/
def isPending (self : ScEngine) : Bool := composeStateIsPending self.compose

@[simp]
theorem isPending_holding (held : Option Accent) (altgr : Bool) :
    isPending (.holding held altgr) = held.isSome :=
  composeStateIsPending_holding held

/-- A step that ends with an accent held back sends nothing, and is consumed if
it is the one that opened the accent. -/
theorem quiet_of_isSome {keyvalToUnicode : KeyvalToUnicode} {held held' : Option Accent}
    {altgr altgr' : Bool} {call : Call} {reply : Reply}
    (hstep : EngineStep keyvalToUnicode held altgr call reply held' altgr')
    (hpending : held'.isSome = true) :
    reply.commits = [] ∧ (held = none → reply.returned = some true) := by
  cases hstep with
  | altgrKey hkey => exact ⟨rfl, fun _ => rfl⟩
  | opened hkey hchar hopen => exact ⟨rfl, fun _ => rfl⟩
  | silent hkey heffect => exact ⟨rfl, fun hheld => by cases hheld⟩
  | lifecycle hcall => cases hpending
  | passed hkey hchar => cases hpending
  | ignored hkey hchar hopen => cases hpending
  | cancelled hkey heffect => cases hpending
  | completed hkey heffect => cases hpending
  | flushed hkey heffect hchar => cases hpending
  | flushedPassed hkey heffect hchar => cases hpending

end SilentCompose.Engine
