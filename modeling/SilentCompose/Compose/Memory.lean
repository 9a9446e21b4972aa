/-
# The compose state in memory

The functions of the compose state as they allocate, read, write and free: the state and
the texts are blocks, and a null address stands where a text is missing. Each function
runs without a fault, computes what its counterpart over values computes, and owns no
more afterwards than its result.
-/

import SilentCompose.Compose.State
import SilentCompose.Foundations.Heap

namespace SilentCompose.Compose

open SilentCompose.Foundations SilentCompose.Toolkit

/-- What a block holds: a string, a compose state, or a text object of IBus, which is
floating until its first reference is claimed and is freed with its last one. -/
inductive Block
  | string (str : CString)
  | composeState (state : ComposeState)
  | text (str : CString) (floating : Bool) (refs : ℕ)
  deriving DecidableEq

/-- Read a string; any other block is as wrong as none. -/
def loadString (a : Address) : HeapM Block CString := do
  match ← load a with
  | .string str => pure str
  | _ => throw (.badLoad a)

/-- Read a compose state. -/
def loadState (a : Address) : HeapM Block ComposeState := do
  match ← load a with
  | .composeState state => pure state
  | _ => throw (.badLoad a)

section Loads

variable {heap : Heap Block} {a : Address} {α : Type} {post : α → Heap Block → Prop}

theorem loadString_bind {str : CString} {next : CString → HeapM Block α}
    (hblock : heap.blocks a = some (.string str)) (h : Yields (next str) heap post) :
    Yields (loadString a >>= next) heap post := by
  rw [loadString, bind_assoc]
  exact Yields.load_bind hblock h

theorem loadState_bind {state : ComposeState} {next : ComposeState → HeapM Block α}
    (hblock : heap.blocks a = some (.composeState state)) (h : Yields (next state) heap post) :
    Yields (loadState a >>= next) heap post := by
  rw [loadState, bind_assoc]
  exact Yields.load_bind hblock h

end Loads

namespace Memory

/-- Outcome of one key, with the address of the text. -/
structure ComposeResult where
  handled : Bool
  commit : Address
  deriving DecidableEq

def resultUnhandled : ComposeResult := { handled := false, commit := 0 }

section Functions

variable (allocator : Allocator Block)

/-- Handled, with a copy of static text or silently. -/
def resultHandled (commit : Option String) : HeapM Block ComposeResult := do
  match commit with
  | some text =>
    let copy ← malloc allocator (.string (gStrdup (encode text.toList)))
    pure { handled := true, commit := copy }
  | none => pure { handled := true, commit := 0 }

def utf8FromUnichar (ch : Gunichar) : HeapM Block Address :=
  if hvalid : gUnicharValidate ch then
    malloc allocator (.string (gStrdup (gUnicharToUtf8 (validated ch hvalid) ++ [0])))
  else
    pure 0

def concatUnichars (first second : Gunichar) : HeapM Block Address := do
  let firstUtf8 ← utf8FromUnichar allocator first
  let secondUtf8 ← utf8FromUnichar allocator second
  if firstUtf8 = 0 ∨ secondUtf8 = 0 then
    free firstUtf8
    free secondUtf8
    pure 0
  else
    let combined ← malloc allocator
      (.string (gStrconcat (← loadString firstUtf8) (← loadString secondUtf8)))
    free firstUtf8
    free secondUtf8
    pure combined

def composeStateNew : HeapM Block Address :=
  malloc allocator (.composeState Compose.composeStateNew)

def composeStateFree (state : Address) : HeapM Block Unit := free state

def composeStateReset (state : Address) : HeapM Block Unit :=
  if state = 0 then pure ()
  else do
    store state (.composeState { ← loadState state with pending := .none, pendingLiteral := 0 })

def composeStateIsPending (state : Address) : HeapM Block Bool :=
  if state = 0 then pure false
  else do
    pure ((← loadState state).pending ≠ .none)

/-- Process one normalized key event. -/
def composeStateProcessKey (state : Address) (key mods : Guint) : HeapM Block ComposeResult :=
  if state = 0 then pure resultUnhandled
  else if hits mods composeModRelease then pure resultUnhandled
  else do
    if (← loadState state).pending = .none then
      if isModifierShortcut mods then pure resultUnhandled
      else
        match pendingFromKey key with
        | some (accent, literal) =>
          store state
            (.composeState { ← loadState state with pending := accent, pendingLiteral := literal })
          resultHandled allocator none
        | none => pure resultUnhandled
    else if key = scKeyEscape ∨ key = scKeyBackspace then
      composeStateReset state
      resultHandled allocator none
    else if isModifierShortcut mods then pure resultUnhandled
    else
      match keyToUnicode key with
      | some input =>
        if input = ' '.val then
          let commit ← utf8FromUnichar allocator (← loadState state).pendingLiteral
          composeStateReset state
          pure { handled := true, commit := commit }
        else
          match lookupComposition (← loadState state).pending input with
          | some composed =>
            let result ← resultHandled allocator (some composed)
            composeStateReset state
            pure result
          | none =>
            let fallback ← concatUnichars allocator (← loadState state).pendingLiteral input
            composeStateReset state
            if fallback ≠ 0 then pure { handled := true, commit := fallback }
            else pure resultUnhandled
      | none =>
        if isNonPrintableNavigationKey key then
          let commit ← utf8FromUnichar allocator (← loadState state).pendingLiteral
          composeStateReset state
          pure { handled := false, commit := commit }
        else pure resultUnhandled

/-- Free the text of a result and forget it. -/
def composeResultClear (result : ComposeResult) : HeapM Block ComposeResult := do
  free result.commit
  pure { result with commit := 0, handled := false }

end Functions

/-! ## They compute what their counterparts over values compute -/

section Yields

variable (allocator : Allocator Block) {heap : Heap Block}

theorem utf8FromUnichar_yields (ch : Gunichar) :
    Yields (utf8FromUnichar allocator ch) heap fun a heap' =>
      Allocated heap.blocks ((Compose.utf8FromUnichar ch).map .string) a heap'.blocks := by
  by_cases hvalid : gUnicharValidate ch = true
  · simp only [utf8FromUnichar, Compose.utf8FromUnichar, hvalid, ↓reduceDIte, Option.map_some]
    exact yields_malloc allocator _
  · simp only [utf8FromUnichar, Compose.utf8FromUnichar, hvalid, Bool.false_eq_true, ↓reduceDIte]
    exact Yields.pure ⟨rfl, rfl⟩

theorem resultHandled_yields (commit : Option String) :
    Yields (resultHandled allocator commit) heap fun result heap' =>
      result.handled = true ∧
        Allocated heap.blocks ((Compose.resultHandled commit).commit.map .string) result.commit
          heap'.blocks := by
  cases commit with
  | none => exact Yields.pure ⟨rfl, rfl, rfl⟩
  | some text =>
      exact (yields_malloc allocator _).bind fun a heap' hnew => Yields.pure ⟨rfl, hnew⟩

/-- Both texts are freed again, whether or not they were joined. -/
theorem concatUnichars_yields (first second : Gunichar) :
    Yields (concatUnichars allocator first second) heap fun a heap' =>
      Allocated heap.blocks ((Compose.concatUnichars first second).map .string) a
        heap'.blocks := by
  refine (utf8FromUnichar_yields allocator first).bind fun a₁ heap₁ hfirst => ?_
  refine (utf8FromUnichar_yields allocator second).bind fun a₂ heap₂ hsecond => ?_
  by_cases hnull : a₁ = 0 ∨ a₂ = 0
  · have hnone : Compose.concatUnichars first second = none := by
      rw [hfirst.eq_null_iff, hsecond.eq_null_iff, Option.map_eq_none_iff,
        Option.map_eq_none_iff] at hnull
      rcases hnull with h | h <;> simp [Compose.concatUnichars, h]
    rw [if_pos hnull, hnone]
    exact hfirst.yields_free_two hsecond fun heap' hrestored => Yields.pure ⟨rfl, hrestored⟩
  · rw [if_neg hnull]
    rw [hfirst.eq_null_iff, hsecond.eq_null_iff, Option.map_eq_none_iff, Option.map_eq_none_iff,
      not_or] at hnull
    obtain ⟨text₁, htext₁⟩ := Option.ne_none_iff_exists'.mp hnull.1
    obtain ⟨text₂, htext₂⟩ := Option.ne_none_iff_exists'.mp hnull.2
    have hjoined : Compose.concatUnichars first second = some (gStrconcat text₁ text₂) := by
      simp [Compose.concatUnichars, htext₁, htext₂]
    rw [htext₁, Option.map_some] at hfirst
    rw [htext₂, Option.map_some] at hsecond
    refine loadString_bind (hsecond.get_of_before hfirst.get_new) ?_
    refine loadString_bind hsecond.get_new ?_
    refine (yields_malloc allocator _).bind fun combined heap₃ hcombined => ?_
    -- The joined text outlives the two it was made from.
    obtain ⟨mid, hcombined, hsecond⟩ := hsecond.swap hcombined
    obtain ⟨kept, hcombined, hfirst⟩ := hfirst.swap hcombined
    refine hfirst.yields_free_two hsecond fun heap' hrestored => Yields.pure ?_
    rw [hjoined, hrestored]
    exact hcombined

section State

variable {state : Address} {s : ComposeState}

theorem composeStateReset_yields (hstate : heap.blocks state = some (.composeState s)) :
    Yields (composeStateReset state) heap fun _ heap' => heap'.blocks =
      Function.update heap.blocks state (some (.composeState (Compose.composeStateReset s))) := by
  rw [composeStateReset, if_neg (Heap.ne_null_of_block hstate)]
  exact loadState_bind hstate (Yields.store hstate _)

theorem composeStateIsPending_yields (hstate : heap.blocks state = some (.composeState s)) :
    Yields (composeStateIsPending state) heap fun pending heap' =>
      pending = Compose.composeStateIsPending s ∧ heap' = heap := by
  rw [composeStateIsPending, if_neg (Heap.ne_null_of_block hstate)]
  exact loadState_bind hstate (Yields.pure ⟨rfl, rfl⟩)

/-- The outcome of a key in memory is the one over values: the state was replaced, and
the text, if any, is new. -/
def Outcome (state : Address) (before : Address → Option Block)
    (value : Compose.ComposeResult × ComposeState) (result : ComposeResult)
    (heap' : Heap Block) : Prop :=
  result.handled = value.1.handled ∧
    Allocated (Function.update before state (some (.composeState value.2)))
      (value.1.commit.map .string) result.commit heap'.blocks

/-- A key that is left alone. -/
theorem outcome_unhandled (hstate : heap.blocks state = some (.composeState s)) :
    Outcome state heap.blocks (Compose.resultUnhandled, s) resultUnhandled heap :=
  ⟨rfl, rfl, (Function.update_eq_self_iff.mpr hstate.symm).symm⟩

/-- A text that is allocated before the state is reset. -/
theorem reset_yields_outcome (hstate : heap.blocks state = some (.composeState s))
    {heap₁ : Heap Block} {commit : Option CString} {handled : Bool} {a : Address}
    (hnew : Allocated heap.blocks (commit.map .string) a heap₁.blocks) :
    Yields (do composeStateReset state; pure ⟨handled, a⟩) heap₁
      (Outcome state heap.blocks (⟨handled, commit⟩, Compose.composeStateReset s)) := by
  refine (composeStateReset_yields (hnew.get_of_before hstate)).bind fun _ heap₂ hreset => ?_
  refine Yields.pure ⟨rfl, ?_⟩
  rw [hreset]
  exact hnew.update hstate _

/-- **Processing a key in memory** runs without a fault and computes its outcome over
values. -/
theorem composeStateProcessKey_yields (hstate : heap.blocks state = some (.composeState s))
    (key mods : Guint) :
    Yields (composeStateProcessKey allocator state key mods) heap
      (Outcome state heap.blocks (Compose.composeStateProcessKey s key mods)) := by
  simp only [composeStateProcessKey, Compose.composeStateProcessKey,
    if_neg (Heap.ne_null_of_block hstate)]
  by_cases hrelease : hits mods composeModRelease = true
  · simp only [if_pos hrelease]
    exact Yields.pure (outcome_unhandled hstate)
  simp only [if_neg hrelease]
  refine loadState_bind hstate ?_
  by_cases hidle : s.pending = .none
  · simp only [if_pos hidle]
    by_cases hshortcut : isModifierShortcut mods = true
    · simp only [if_pos hshortcut]
      exact Yields.pure (outcome_unhandled hstate)
    simp only [if_neg hshortcut]
    cases hopened : pendingFromKey key with
    | none => exact Yields.pure (outcome_unhandled hstate)
    | some opened =>
        rcases opened with ⟨accent, literal⟩
        refine loadState_bind hstate ?_
        exact (Yields.store hstate _).bind fun _ heap' hstored => Yields.pure ⟨rfl, rfl, hstored⟩
  simp only [if_neg hidle]
  by_cases hcancel : key = scKeyEscape ∨ key = scKeyBackspace
  · simp only [if_pos hcancel]
    exact (composeStateReset_yields hstate).bind fun _ heap' hreset =>
      Yields.pure ⟨rfl, rfl, hreset⟩
  simp only [if_neg hcancel]
  by_cases hshortcut : isModifierShortcut mods = true
  · simp only [if_pos hshortcut]
    exact Yields.pure (outcome_unhandled hstate)
  simp only [if_neg hshortcut]
  cases hinput : keyToUnicode key with
  | none =>
      by_cases hnavigation : isNonPrintableNavigationKey key = true
      · simp only [if_pos hnavigation]
        refine loadState_bind hstate ?_
        exact (utf8FromUnichar_yields allocator _).bind fun a heap' hnew =>
          reset_yields_outcome hstate hnew
      · simp only [if_neg hnavigation]
        exact Yields.pure (outcome_unhandled hstate)
  | some input =>
      by_cases hspace : input = ' '.val
      · simp only [if_pos hspace]
        refine loadState_bind hstate ?_
        exact (utf8FromUnichar_yields allocator _).bind fun a heap' hnew =>
          reset_yields_outcome hstate hnew
      simp only [if_neg hspace]
      refine loadState_bind hstate ?_
      cases hcomposed : lookupComposition s.pending input with
      | some composed =>
          refine (resultHandled_yields allocator (some composed)).bind ?_
          intro result heap₁ hresult
          rcases result with ⟨handled, a⟩
          obtain ⟨rfl, hnew⟩ := hresult
          exact reset_yields_outcome hstate hnew
      | none =>
          refine loadState_bind hstate ?_
          refine (concatUnichars_yields allocator _ _).bind fun a heap₁ hnew => ?_
          cases hfallback : Compose.concatUnichars s.pendingLiteral input with
          | some fallback =>
              have hnull : a ≠ 0 := by
                rw [ne_eq, hnew.eq_null_iff, hfallback]
                simp
              rw [hfallback] at hnew
              simp only [if_pos hnull]
              exact reset_yields_outcome hstate hnew
          | none =>
              rw [hfallback] at hnew
              obtain rfl : a = 0 := hnew.1
              exact reset_yields_outcome hstate hnew

end State

/-- Clearing a result frees its text and nothing else. -/
theorem composeResultClear_yields {before : Address → Option Block} {content : Option Block}
    {result : ComposeResult} (hnew : Allocated before content result.commit heap.blocks) :
    Yields (composeResultClear result) heap fun _ heap' => heap'.blocks = before :=
  hnew.yields_free.bind fun _ _ hrestored => Yields.pure hrestored

end Yields

end Memory

end SilentCompose.Compose
