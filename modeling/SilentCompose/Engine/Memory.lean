/-
# The engine in memory

Each engine object owns one compose state and nothing else; texts live from the key that
makes them to the end of its call. Every call of IBus on an engine object runs without a
fault, computes what it computes over values, and leaves the rest of the heap alone.
-/

import SilentCompose.Compose.Memory
import SilentCompose.Engine.Process

namespace SilentCompose.Engine.Memory

open SilentCompose.Foundations SilentCompose.Toolkit SilentCompose.Compose

/-! ## Text objects -/

section Texts

variable (allocator : Allocator Block)

/-- `ibus_text_new_from_string`: a floating object with a copy of the string. -/
def ibusTextNewFromString (str : CString) : HeapM Block Address :=
  malloc allocator (.text str true 1)

/-- Read a text object; any other block is as wrong as none. -/
def loadText (a : Address) : HeapM Block (CString × Bool × ℕ) := do
  match ← load a with
  | .text str floating refs => pure (str, floating, refs)
  | _ => throw (.badLoad a)

/-- `g_object_ref_sink`: claim the first reference, or take another one. -/
def gObjectRefSink (a : Address) : HeapM Block Unit := do
  let (str, floating, refs) ← loadText a
  if floating then store a (.text str false refs) else store a (.text str false (refs + 1))

/-- `g_object_unref`: the last reference frees the object. -/
def gObjectUnref (a : Address) : HeapM Block Unit := do
  let (str, floating, refs) ← loadText a
  if refs ≤ 1 then free a else store a (.text str floating (refs - 1))

/-- Commit a string that is not missing. -/
def commitText (str : CString) : HeapM Block (List CString) :=
  if str.bytes = [] then pure []
  else if ¬gUtf8Validate str then pure []
  else do
    let text ← ibusTextNewFromString allocator str
    if (← loadText text).2.1 then gObjectRefSink text
    let (sent, _, _) ← loadText text
    gObjectUnref text
    pure [sent]

/-- Commit the string at an address, or nothing for the null one. -/
def commitString (str : Address) : HeapM Block (List CString) :=
  if str = 0 then pure [] else do commitText allocator (← loadString str)

end Texts

/-! ## Key events -/

/-- An engine object. -/
structure ScEngine where
  compose : Address
  altgr : Bool
  deriving DecidableEq

/-- What handling one key event returns and does. -/
structure KeyOutcome where
  handled : Bool
  commits : List CString
  engine : ScEngine

section Functions

variable (allocator : Allocator Block) (keyvalToUnicode : KeyvalToUnicode)

def updateAltgrSession (self : ScEngine) (key state : Guint) : Bool × ScEngine :=
  if ¬isAltgrModifierKey key then (false, self)
  else (true, { self with altgr := !hits state ibusReleaseMask })

/-- The buffer of the text is on the stack. -/
def commitPassthrough (key code state : Guint) (altgr : Bool) :
    HeapM Block (Bool × List CString) := do
  match passthroughText keyvalToUnicode key code state altgr with
  | some passthrough => pure (true, ← commitText allocator passthrough)
  | none => pure (false, [])

/-- The first attempt at passthrough is made only when nothing pends. -/
def commitPassthroughFirst (self : ScEngine) (key code state : Guint) :
    HeapM Block (Bool × List CString) := do
  if ← Memory.composeStateIsPending self.compose then pure (false, [])
  else commitPassthrough allocator keyvalToUnicode key code state self.altgr

/-- The part of the key handler behind that attempt. -/
def processComposeKey (self : ScEngine) (key code state : Guint) : HeapM Block KeyOutcome := do
  let result ← Memory.composeStateProcessKey allocator self.compose key (translateMods state)
  let pending ← Memory.composeStateIsPending self.compose
  let handled := result.handled
  let commits ← commitString allocator result.commit
  let _ ← Memory.composeResultClear result
  if !handled && !pending then
    let (passed, texts) ← commitPassthrough allocator keyvalToUnicode key code state self.altgr
    if passed then pure { handled := true, commits := commits ++ texts, engine := self }
    else if consumeAltgrChord self.altgr state then
      pure { handled := true, commits := commits, engine := self }
    else pure { handled := handled, commits := commits, engine := self }
  else pure { handled := handled, commits := commits, engine := self }

/-- Handle one key event delivered by IBus. -/
def processKeyEvent (self : ScEngine) (key code state : Guint) : HeapM Block KeyOutcome := do
  let (altgrEvent, self) := updateAltgrSession self key state
  if altgrEvent then pure { handled := true, commits := [], engine := self }
  else
    let (passed, texts) ← commitPassthroughFirst allocator keyvalToUnicode self key code state
    if passed then pure { handled := true, commits := texts, engine := self }
    else processComposeKey allocator keyvalToUnicode self key code state

def reset (self : ScEngine) : HeapM Block ScEngine := do
  Memory.composeStateReset self.compose
  pure { self with altgr := false }

def focusOut (self : ScEngine) : HeapM Block ScEngine := do
  Memory.composeStateReset self.compose
  pure { self with altgr := false }

def disable (self : ScEngine) : HeapM Block ScEngine := do
  Memory.composeStateReset self.compose
  pure { self with altgr := false }

def scEngineInit : HeapM Block ScEngine := do
  pure { compose := ← Memory.composeStateNew allocator, altgr := false }

/-- Release the compose state and forget its address. -/
def finalize (self : ScEngine) : HeapM Block ScEngine :=
  if self.compose = 0 then pure self
  else do
    Memory.composeStateFree self.compose
    pure { self with compose := 0 }

/-- One call of IBus on an engine object. -/
def call (self : ScEngine) : Call → HeapM Block (Reply × ScEngine)
  | .processKeyEvent event => do
    let outcome ←
      processKeyEvent allocator keyvalToUnicode self event.key event.code event.state
    pure ({ returned := some outcome.handled, commits := outcome.commits }, outcome.engine)
  | .reset => do pure ({ returned := none, commits := [] }, ← reset self)
  | .focusOut => do pure ({ returned := none, commits := [] }, ← focusOut self)
  | .disable => do pure ({ returned := none, commits := [] }, ← disable self)

end Functions

/-! ## They compute what their counterparts over values compute -/

section Yields

variable (allocator : Allocator Block) {heap : Heap Block}

theorem loadText_bind {a : Address} {str : CString} {floating : Bool} {refs : ℕ} {α : Type}
    {next : CString × Bool × ℕ → HeapM Block α} {post : α → Heap Block → Prop}
    (hblock : heap.blocks a = some (.text str floating refs))
    (h : Yields (next (str, floating, refs)) heap post) :
    Yields (loadText a >>= next) heap post := by
  rw [loadText, bind_assoc]
  exact Yields.load_bind hblock h

/-- Claiming the first reference makes the object no longer floating. -/
theorem gObjectRefSink_yields {a : Address} {str : CString} {refs : ℕ}
    (hblock : heap.blocks a = some (.text str true refs)) :
    Yields (gObjectRefSink a) heap fun _ heap' =>
      heap'.blocks = Function.update heap.blocks a (some (.text str false refs)) := by
  rw [gObjectRefSink]
  exact loadText_bind hblock (Yields.store hblock _)

/-- Dropping the last reference frees the object. -/
theorem gObjectUnref_yields {a : Address} {str : CString} {floating : Bool}
    (hblock : heap.blocks a = some (.text str floating 1)) :
    Yields (gObjectUnref a) heap fun _ heap' =>
      heap'.blocks = Function.update heap.blocks a none := by
  rw [gObjectUnref]
  exact loadText_bind hblock (Yields.free hblock)

/-- A text object does not outlive the call that sends it. -/
theorem commitText_yields (str : CString) :
    Yields (commitText allocator str) heap fun sent heap' =>
      sent = Engine.commitString (some str) ∧ heap'.blocks = heap.blocks := by
  simp only [commitText, Engine.commitString]
  by_cases hempty : str.bytes = []
  · simp only [if_pos hempty]
    exact Yields.pure ⟨rfl, rfl⟩
  by_cases hvalid : gUtf8Validate str = true
  · simp only [if_neg hempty, hvalid, not_true_eq_false, ↓reduceIte]
    refine (yields_malloc allocator (.text str true 1)).bind fun a heap₁ hnew => ?_
    refine loadText_bind hnew.get_new ?_
    refine (gObjectRefSink_yields hnew.get_new).bind fun _ heap₂ hsunk => ?_
    have htext : heap₂.blocks a = some (.text str false 1) := by simp [hsunk]
    refine loadText_bind htext ?_
    refine (gObjectUnref_yields htext).bind fun _ heap₃ hfreed => Yields.pure ⟨rfl, ?_⟩
    obtain ⟨-, hfree, hblocks⟩ := hnew
    rw [hfreed, hsunk, hblocks, Function.update_idem, Function.update_idem]
    exact Function.update_eq_self_iff.mpr hfree.symm
  · simp only [if_neg hempty, hvalid]
    exact Yields.pure ⟨by simp, rfl⟩

theorem commitString_yields {before : Address → Option Block} {commit : Option CString}
    {a : Address} (hnew : Allocated before (commit.map .string) a heap.blocks) :
    Yields (commitString allocator a) heap fun sent heap' =>
      sent = Engine.commitString commit ∧ heap'.blocks = heap.blocks := by
  cases commit with
  | none =>
      obtain rfl : a = 0 := hnew.1
      exact Yields.pure ⟨rfl, rfl⟩
  | some str =>
      rw [commitString, if_neg hnew.1]
      exact loadString_bind hnew.get_new (commitText_yields allocator str)

section Keys

variable (keyvalToUnicode : KeyvalToUnicode)

theorem commitPassthrough_yields (key code state : Guint) (altgr : Bool) :
    Yields (commitPassthrough allocator keyvalToUnicode key code state altgr) heap
      fun result heap' =>
        result = Engine.commitPassthrough keyvalToUnicode key code state altgr ∧
          heap'.blocks = heap.blocks := by
  rw [commitPassthrough, Engine.commitPassthrough]
  cases htext : passthroughText keyvalToUnicode key code state altgr with
  | none => exact Yields.pure ⟨rfl, rfl⟩
  | some passthrough =>
      refine (commitText_yields allocator passthrough).bind fun sent heap' hsent => ?_
      exact Yields.pure ⟨congrArg _ hsent.1, hsent.2⟩

/-- The outcome of a key event in memory is the one over values, and of the heap only
the compose state was replaced. -/
def Outcome (before : Address → Option Block) (compose : Address) (value : Engine.KeyOutcome)
    (outcome : KeyOutcome) (heap' : Heap Block) : Prop :=
  outcome.handled = value.handled ∧ outcome.commits = value.commits ∧
    outcome.engine = ⟨compose, value.engine.altgr⟩ ∧
    heap'.blocks =
      Function.update before compose (some (.composeState value.engine.compose))

/-- The part of the handler over values behind the first attempt at passthrough. -/
def composeKey (s : ComposeState) (altgr : Bool) (key code state : Guint) : Engine.KeyOutcome :=
  let (result, compose) := Compose.composeStateProcessKey s key (translateMods state)
  let self : Engine.ScEngine := { compose := compose, altgr := altgr }
  let commits := Engine.commitString result.commit
  if !result.handled && !Compose.composeStateIsPending compose then
    let (passed, texts) := Engine.commitPassthrough keyvalToUnicode key code state altgr
    if passed then { handled := true, commits := commits ++ texts, engine := self }
    else if consumeAltgrChord altgr state then
      { handled := true, commits := commits, engine := self }
    else { handled := result.handled, commits := commits, engine := self }
  else { handled := result.handled, commits := commits, engine := self }

/-- The first attempt at passthrough over values. -/
def passthroughFirst (s : ComposeState) (altgr : Bool) (key code state : Guint) :
    Bool × List CString :=
  if Compose.composeStateIsPending s then (false, [])
  else Engine.commitPassthrough keyvalToUnicode key code state altgr

/-- The handler over values is the first attempt at passthrough and what is behind it. -/
theorem processKeyEvent_eq (s : ComposeState) (altgr : Bool) {key : Guint} (code state : Guint)
    (hkey : isAltgrModifierKey key = false) :
    Engine.processKeyEvent keyvalToUnicode ⟨s, altgr⟩ key code state =
      if (passthroughFirst keyvalToUnicode s altgr key code state).1 then
        { handled := true, commits := (passthroughFirst keyvalToUnicode s altgr key code state).2
          engine := ⟨s, altgr⟩ }
      else composeKey keyvalToUnicode s altgr key code state := by
  simp only [Engine.processKeyEvent, Engine.updateAltgrSession, hkey, Bool.false_eq_true,
    not_false_eq_true, ↓reduceIte]
  rfl

theorem commitPassthroughFirst_yields {self : ScEngine} {s : ComposeState}
    (hstate : heap.blocks self.compose = some (.composeState s)) (key code state : Guint) :
    Yields (commitPassthroughFirst allocator keyvalToUnicode self key code state) heap
      fun attempt heap' =>
        attempt = passthroughFirst keyvalToUnicode s self.altgr key code state ∧
          heap'.blocks = heap.blocks := by
  rw [commitPassthroughFirst, passthroughFirst]
  refine (Memory.composeStateIsPending_yields hstate).bind fun pending heap₁ hpending => ?_
  obtain ⟨rfl, rfl⟩ := hpending
  cases hpending : Compose.composeStateIsPending s with
  | true => exact Yields.pure ⟨rfl, rfl⟩
  | false => exact commitPassthrough_yields allocator keyvalToUnicode key code state self.altgr

theorem processComposeKey_yields {self : ScEngine} {s : ComposeState}
    (hstate : heap.blocks self.compose = some (.composeState s)) (key code state : Guint) :
    Yields (processComposeKey allocator keyvalToUnicode self key code state) heap
      (Outcome heap.blocks self.compose
        (composeKey keyvalToUnicode s self.altgr key code state)) := by
  rw [processComposeKey]
  refine (Memory.composeStateProcessKey_yields allocator hstate key (translateMods state)).bind
    fun result heap₁ hresult => ?_
  obtain ⟨hhandled, hnew⟩ := hresult
  simp only [composeKey, hhandled]
  have hstate₁ := hnew.get_of_before (Function.update_self self.compose _ heap.blocks)
  refine (Memory.composeStateIsPending_yields hstate₁).bind fun pending heap₂ hpending => ?_
  obtain ⟨rfl, rfl⟩ := hpending
  refine (commitString_yields allocator hnew).bind fun commits heap₃ hcommits => ?_
  obtain ⟨rfl, hsent⟩ := hcommits
  rw [← hsent] at hnew
  -- The text is gone before the second attempt at passthrough.
  refine (Memory.composeResultClear_yields hnew).bind fun _ heap₄ hcleared => ?_
  by_cases hleft :
      (!(Compose.composeStateProcessKey s key (translateMods state)).1.handled &&
        !Compose.composeStateIsPending
          (Compose.composeStateProcessKey s key (translateMods state)).2) = true
  · simp only [if_pos hleft]
    refine (commitPassthrough_yields allocator keyvalToUnicode key code state self.altgr).bind
      fun attempt heap₅ hattempt => ?_
    obtain ⟨rfl, hunchanged⟩ := hattempt
    rw [hcleared] at hunchanged
    by_cases hpassed :
        (Engine.commitPassthrough keyvalToUnicode key code state self.altgr).1 = true
    · simp only [if_pos hpassed]
      exact Yields.pure ⟨rfl, rfl, rfl, hunchanged⟩
    · simp only [if_neg hpassed]
      by_cases hconsumed : consumeAltgrChord self.altgr state = true
      · simp only [if_pos hconsumed]
        exact Yields.pure ⟨rfl, rfl, rfl, hunchanged⟩
      · simp only [if_neg hconsumed]
        exact Yields.pure ⟨rfl, rfl, rfl, hunchanged⟩
  · simp only [if_neg hleft]
    exact Yields.pure ⟨rfl, rfl, rfl, hcleared⟩

/-- **Handling a key in memory** runs without a fault and computes its outcome over
values; of the heap only the compose state changes. -/
theorem processKeyEvent_yields {self : ScEngine} {s : ComposeState}
    (hstate : heap.blocks self.compose = some (.composeState s)) (key code state : Guint) :
    Yields (processKeyEvent allocator keyvalToUnicode self key code state) heap
      (Outcome heap.blocks self.compose
        (Engine.processKeyEvent keyvalToUnicode ⟨s, self.altgr⟩ key code state)) := by
  have hkept : heap.blocks =
      Function.update heap.blocks self.compose (some (.composeState s)) :=
    (Function.update_eq_self_iff.mpr hstate.symm).symm
  cases hkey : isAltgrModifierKey key with
  | true =>
      simp only [processKeyEvent, Engine.processKeyEvent, updateAltgrSession,
        Engine.updateAltgrSession, hkey, not_true_eq_false, ↓reduceIte]
      exact Yields.pure ⟨rfl, rfl, rfl, hkept⟩
  | false =>
      rw [processKeyEvent_eq keyvalToUnicode s self.altgr code state hkey]
      simp only [processKeyEvent, updateAltgrSession, hkey, Bool.false_eq_true,
        not_false_eq_true, ↓reduceIte]
      refine (commitPassthroughFirst_yields allocator keyvalToUnicode hstate key code state).bind
        fun attempt heap₁ hattempt => ?_
      obtain ⟨rfl, hunchanged⟩ := hattempt
      by_cases hpassed : (passthroughFirst keyvalToUnicode s self.altgr key code state).1 = true
      · simp only [if_pos hpassed]
        exact Yields.pure ⟨rfl, rfl, rfl, hunchanged.trans hkept⟩
      · simp only [if_neg hpassed]
        have hstate₁ : heap₁.blocks self.compose = some (.composeState s) := by
          rw [hunchanged]
          exact hstate
        rw [← hunchanged]
        exact processComposeKey_yields allocator keyvalToUnicode hstate₁ key code state

end Keys

/-! ## Calls and lifetimes -/

theorem scEngineInit_yields :
    Yields (scEngineInit allocator) heap fun self heap' =>
      self.altgr = false ∧
        Allocated heap.blocks (some (.composeState Compose.composeStateNew)) self.compose
          heap'.blocks :=
  (yields_malloc allocator _).bind fun _ _ hnew => Yields.pure ⟨rfl, hnew⟩

/-- Finalizing an engine object frees its compose state. -/
theorem finalize_yields {self : ScEngine} {s : ComposeState}
    (hstate : heap.blocks self.compose = some (.composeState s)) :
    Yields (finalize self) heap fun _ heap' =>
      heap'.blocks = Function.update heap.blocks self.compose none := by
  rw [finalize, if_neg (Heap.ne_null_of_block hstate)]
  exact (Yields.free hstate).bind fun _ _ hfreed => Yields.pure hfreed

/-- The three lifecycle calls are one. -/
theorem reset_yields {self : ScEngine} {s : ComposeState}
    (hstate : heap.blocks self.compose = some (.composeState s)) :
    Yields (reset self) heap fun self' heap' =>
      self' = ⟨self.compose, false⟩ ∧
        heap'.blocks = Function.update heap.blocks self.compose
          (some (.composeState (Compose.composeStateReset s))) :=
  (Memory.composeStateReset_yields hstate).bind fun _ _ hstored => Yields.pure ⟨rfl, hstored⟩

/-- A call in memory answers what it answers over values. -/
theorem call_yields (keyvalToUnicode : KeyvalToUnicode) {self : ScEngine} {s : ComposeState}
    (hstate : heap.blocks self.compose = some (.composeState s)) (c : Call) :
    Yields (call allocator keyvalToUnicode self c) heap fun result heap' =>
      result.1 = ((engine keyvalToUnicode).step ⟨s, self.altgr⟩ c).1 ∧
        result.2 = ⟨self.compose, ((engine keyvalToUnicode).step ⟨s, self.altgr⟩ c).2.altgr⟩ ∧
        heap'.blocks = Function.update heap.blocks self.compose
          (some (.composeState ((engine keyvalToUnicode).step ⟨s, self.altgr⟩ c).2.compose)) := by
  cases c with
  | processKeyEvent event =>
      refine (processKeyEvent_yields allocator keyvalToUnicode hstate event.key event.code
        event.state).bind fun outcome heap' houtcome => Yields.pure ?_
      obtain ⟨hhandled, hcommits, hengine, hblocks⟩ := houtcome
      refine ⟨?_, hengine, hblocks⟩
      rw [hhandled, hcommits]
      rfl
  | reset =>
      exact (reset_yields hstate).bind fun _ _ hreset => Yields.pure ⟨rfl, hreset⟩
  | focusOut =>
      exact (reset_yields hstate).bind fun _ _ hreset => Yields.pure ⟨rfl, hreset⟩
  | disable =>
      exact (reset_yields hstate).bind fun _ _ hreset => Yields.pure ⟨rfl, hreset⟩

end Yields

end SilentCompose.Engine.Memory
