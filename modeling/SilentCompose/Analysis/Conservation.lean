/-
# Accents are conserved

Over any run of the engine the openings and closings of a sequence alternate, the
accent that opened a sequence is the one that closes it, nothing is sent in between,
and a key is consumed without a text only for a reason that can be named. A closing
sends one text, except that a navigation key whose event also passes a character
through sends that character right after the accent.
-/

import SilentCompose.Engine.Steps

namespace SilentCompose.Analysis

open SilentCompose.Foundations SilentCompose.Toolkit SilentCompose.Compose SilentCompose.Engine
open Transducer

section Conservation

variable (keyvalToUnicode : KeyvalToUnicode)

/-! ## Openings and closings -/

/-- The step takes the engine from nothing held back to an accent held back. -/
def IsOpening (r : Record ScEngine Call Reply) : Prop :=
  isPending r.pre = false ∧ isPending r.post = true

/-- The step takes the engine from an accent held back to nothing held back. -/
def IsClosing (r : Record ScEngine Call Reply) : Prop :=
  isPending r.pre = true ∧ isPending r.post = false

/-- A consumed press of an accent key that sends nothing and holds the accent back. -/
def OpensWithKey (r : Record ScEngine Call Reply) : Prop :=
  ∃ event accent literal, r.input = .processKeyEvent event ∧
    hits event.state ibusReleaseMask = false ∧
    pendingFromKey event.key = some (accent, literal) ∧
    r.post.compose = { pending := accent, pendingLiteral := literal } ∧
    r.output = { returned := some true, commits := [] }

/-- The closing sends a text of the opened accent, and after it at most the
character that the event of a navigation key passes through. -/
def ClosesWithText (opened : ComposeState) (r : Record ScEngine Call Reply) : Prop :=
  ∃ event text, r.input = .processKeyEvent event ∧ isClosingText opened event.key text = true ∧
    (r.output.commits = [text] ∨
      (isNonPrintableNavigationKey event.key = true ∧ ∃ c symbol,
        passthroughChar keyvalToUnicode event.key event.code event.state r.pre.altgr = some c ∧
        symbol.bytes = encode [c] ∧ r.output.commits = [text, symbol]))

/-- The closing is a press of Escape or Backspace that sends nothing. -/
def ClosesWithCancel (r : Record ScEngine Call Reply) : Prop :=
  ∃ event, r.input = .processKeyEvent event ∧ hits event.state ibusReleaseMask = false ∧
    isCancelKey event.key = true ∧ r.output.commits = []

/-- The closing is a lifecycle call that sends nothing. -/
def ClosesWithLifecycle (r : Record ScEngine Call Reply) : Prop :=
  (∀ event, r.input ≠ .processKeyEvent event) ∧ r.output.commits = []

/-- The closing happens in one of the three ways, and in one only. -/
def ClosesOneWay (opened : ComposeState) (r : Record ScEngine Call Reply) : Prop :=
  (ClosesWithText keyvalToUnicode opened r ∨ ClosesWithCancel r ∨ ClosesWithLifecycle r) ∧
    ¬(ClosesWithText keyvalToUnicode opened r ∧ ClosesWithCancel r) ∧
    ¬(ClosesWithText keyvalToUnicode opened r ∧ ClosesWithLifecycle r) ∧
    ¬(ClosesWithCancel r ∧ ClosesWithLifecycle r)

/-- The closing follows, after the calls `before`, the opening of its accent, with the
accent held ever since. -/
def FollowsOpening (before : List Call) (r : Record ScEngine Call Reply) : Prop :=
  ∃ earlier opening between,
    (engine keyvalToUnicode).trace before = earlier ++ opening :: between ∧
    IsOpening opening ∧ (∀ r' ∈ between, isPending r'.pre = true ∧ isPending r'.post = true) ∧
    ClosesOneWay keyvalToUnicode opening.post.compose r

/-- Why a key is consumed without a text: it is an AltGr key, it opens a sequence, it
cancels one, or it is a chord of the tracked AltGr key. -/
def ConsumedFor (r : Record ScEngine Call Reply) : Prop :=
  ∃ event, r.input = .processKeyEvent event ∧
    (isAltgrModifierKey event.key = true ∨ IsOpening r ∨ (IsClosing r ∧ ClosesWithCancel r) ∨
      (r.pre.altgr = true ∧ blockedChord event.state = false))

/-! ## One step -/

/-- The ways of closing exclude each other: one sends a text, one is a lifecycle call. -/
theorem closesOneWay_of {opened : ComposeState} {r : Record ScEngine Call Reply}
    (h : ClosesWithText keyvalToUnicode opened r ∨ ClosesWithCancel r ∨ ClosesWithLifecycle r) :
    ClosesOneWay keyvalToUnicode opened r := by
  have htexts : ClosesWithText keyvalToUnicode opened r → r.output.commits ≠ [] := by
    rintro ⟨event, text, -, -, hcommits | ⟨-, c, symbol, -, -, hcommits⟩⟩ <;> simp [hcommits]
  refine ⟨h, ?_, ?_, ?_⟩
  · intro h
    rcases h with ⟨htext, -, -, -, -, hnone⟩
    exact htexts htext hnone
  · intro h
    rcases h with ⟨htext, -, hnone⟩
    exact htexts htext hnone
  · intro h
    rcases h with ⟨⟨event, hinput, -⟩, hnoevent, -⟩
    exact hnoevent event hinput

section Steps

variable {keyvalToUnicode} {held held' : Option Accent} {altgr altgr' : Bool} {call : Call}
  {reply : Reply}

theorem isOpening_stepRecord :
    IsOpening (stepRecord held altgr call reply held' altgr') ↔
      held.isSome = false ∧ held'.isSome = true := by
  simp [IsOpening]

theorem isClosing_stepRecord :
    IsClosing (stepRecord held altgr call reply held' altgr') ↔
      held.isSome = true ∧ held'.isSome = false := by
  simp [IsClosing]

/-- An opening is the consumed press of an accent key. -/
theorem opensWithKey_of_isOpening
    (hstep : EngineStep keyvalToUnicode held altgr call reply held' altgr')
    (hopening : IsOpening (stepRecord held altgr call reply held' altgr')) :
    OpensWithKey (stepRecord held altgr call reply held' altgr') := by
  obtain ⟨hpre, hpost⟩ := isOpening_stepRecord.mp hopening
  cases hstep with
  | opened hkey hchar hopen =>
      obtain ⟨hpress, haccent⟩ := press_of_openedAccent hopen
      exact ⟨_, _, _, rfl, hpress, by rw [pendingFromKey_eq, haccent, Option.map_some], rfl, rfl⟩
  | altgrKey hkey => exact absurd (hpre.symm.trans hpost) (by simp)
  | silent hkey heffect => cases hpre
  | cancelled hkey heffect => cases hpre
  | completed hkey heffect => cases hpre
  | flushed hkey heffect hchar => cases hpre
  | flushedPassed hkey heffect hchar => cases hpre
  | lifecycle hcall => cases hpost
  | passed hkey hchar => cases hpost
  | ignored hkey hchar hopen => cases hpost

/-- A step between two states with an accent held back leaves that accent alone. -/
theorem held_eq_of_isSome (hstep : EngineStep keyvalToUnicode held altgr call reply held' altgr')
    (hpre : held.isSome = true) (hpost : held'.isSome = true) : held' = held := by
  cases hstep with
  | altgrKey hkey => rfl
  | silent hkey heffect => rfl
  | opened hkey hchar hopen => cases hpre
  | lifecycle hcall => cases hpost
  | passed hkey hchar => cases hpost
  | ignored hkey hchar hopen => cases hpost
  | cancelled hkey heffect => cases hpost
  | completed hkey heffect => cases hpost
  | flushed hkey heffect hchar => cases hpost
  | flushedPassed hkey heffect hchar => cases hpost

/-- A closing sends a text of the held accent, or is a cancel, or a lifecycle call. -/
theorem closesOneWay_of_isClosing
    (hstep : EngineStep keyvalToUnicode held altgr call reply held' altgr')
    (hclosing : IsClosing (stepRecord held altgr call reply held' altgr')) :
    ClosesOneWay keyvalToUnicode (.holding held)
      (stepRecord held altgr call reply held' altgr') := by
  apply closesOneWay_of
  obtain ⟨hpre, hpost⟩ := isClosing_stepRecord.mp hclosing
  cases hstep with
  | lifecycle hcall => exact .inr (.inr ⟨hcall, rfl⟩)
  | altgrKey hkey => exact absurd (hpre.symm.trans hpost) (by simp)
  | silent hkey heffect => cases hpost
  | opened hkey hchar hopen => cases hpost
  | passed hkey hchar => cases hpre
  | ignored hkey hchar hopen => cases hpre
  | cancelled hkey heffect =>
      obtain ⟨hpress, hcancel⟩ := press_of_heldEffect heffect (by simp)
      exact .inr (.inl ⟨_, rfl, hpress, isCancelKey_of_keyEffect hcancel, rfl⟩)
  | completed hkey heffect =>
      obtain ⟨-, htext⟩ := press_of_heldEffect heffect (by simp)
      exact .inl ⟨_, _, rfl, isClosingText_completion _ htext, .inl rfl⟩
  | flushed hkey heffect hchar =>
      obtain ⟨-, hnav⟩ := press_of_heldEffect heffect (by simp)
      exact .inl ⟨_, _, rfl, isClosingText_literal _ (isNavigation_of_keyEffect hnav), .inl rfl⟩
  | @flushedPassed accent _ event c hkey heffect hchar =>
      obtain ⟨-, hnav⟩ := press_of_heldEffect heffect (by simp)
      have hnavigation := isNavigation_of_keyEffect hnav
      have hfree : ZeroFree [c] := zeroFree_of_passthroughChar keyvalToUnicode hchar
      exact .inl ⟨event, _, rfl, isClosingText_literal accent hnavigation,
        .inr ⟨hnavigation, c, .ofText [c], hchar, CString.ofText_bytes hfree, rfl⟩⟩

/-- A key consumed without a text is consumed for one of the named reasons. -/
theorem consumedFor_of_silent
    (hstep : EngineStep keyvalToUnicode held altgr call reply held' altgr')
    (hreturned : reply.returned = some true) (hcommits : reply.commits = []) :
    ConsumedFor (stepRecord held altgr call reply held' altgr') := by
  cases hstep with
  | altgrKey hkey => exact ⟨_, rfl, .inl hkey⟩
  | opened hkey hchar hopen => exact ⟨_, rfl, .inr (.inl ⟨rfl, isPending_holding _ _⟩)⟩
  | ignored hkey hchar hopen =>
      have hchord := Option.some.inj hreturned
      simp only [consumeAltgrChord, Bool.and_eq_true, Bool.not_eq_true'] at hchord
      exact ⟨_, rfl, .inr (.inr (.inr hchord))⟩
  | cancelled hkey heffect =>
      obtain ⟨hpress, hcancel⟩ := press_of_heldEffect heffect (by simp)
      exact ⟨_, rfl, .inr (.inr (.inl ⟨⟨isPending_holding _ _, rfl⟩, _, rfl, hpress,
        isCancelKey_of_keyEffect hcancel, rfl⟩))⟩
  | lifecycle hcall => cases hreturned
  | silent hkey heffect => cases hreturned
  | passed hkey hchar => cases hcommits
  | completed hkey heffect => cases hcommits
  | flushed hkey heffect hchar => cases hcommits
  | flushedPassed hkey heffect hchar => cases hcommits

end Steps

/-! ## Whole runs -/

/-- What a run of the engine does with accents. -/
structure AccentsConserved (calls : List Call) : Prop where
  /-- Openings and closings alternate, an opening first. -/
  alternate : Alternates .rise (edges isPending ((engine keyvalToUnicode).trace calls))
  /-- There is one more opening than closings exactly if an accent is held at the end. -/
  balance :
    (edges isPending ((engine keyvalToUnicode).trace calls)).count .rise =
      (edges isPending ((engine keyvalToUnicode).trace calls)).count .fall +
        (isPending ((engine keyvalToUnicode).stateAfter calls)).toNat
  /-- An opening is consumed and sends nothing. -/
  opening : ∀ r ∈ (engine keyvalToUnicode).trace calls, IsOpening r → OpensWithKey r
  /-- Nothing is sent while an accent stays held. -/
  quiet : ∀ r ∈ (engine keyvalToUnicode).trace calls, isPending r.pre = true →
    isPending r.post = true → r.output.commits = []
  /-- A closing follows the opening of its accent. -/
  closing : EveryStep calls fun before call =>
    let r := (engine keyvalToUnicode).record ((engine keyvalToUnicode).stateAfter before) call
    IsClosing r → FollowsOpening keyvalToUnicode before r
  /-- A key consumed without a text is consumed for one of the named reasons. -/
  consumed : ∀ r ∈ (engine keyvalToUnicode).trace calls, r.output.returned = some true →
    r.output.commits = [] → ConsumedFor r

/-- While an accent stays held the compose state stays as it is. -/
theorem compose_step_of_isPending {self : ScEngine} {call : Call}
    (hreach : (engine keyvalToUnicode).Reachable self) (hpre : isPending self = true)
    (hpost : isPending ((engine keyvalToUnicode).step self call).2 = true) :
    ((engine keyvalToUnicode).step self call).2.compose = self.compose := by
  obtain ⟨held, altgr, rfl⟩ := exists_holding_of_reachable keyvalToUnicode hreach
  obtain ⟨reply, held', altgr', heq, hstep⟩ := exists_engineStep keyvalToUnicode held altgr call
  rw [heq, isPending_holding] at hpost
  rw [isPending_holding] at hpre
  rw [heq, held_eq_of_isSome hstep hpre hpost, holding_compose, holding_compose]

/-- Every closing of a run follows the opening of its accent. -/
theorem followsOpening_of_isClosing (before : List Call) (call : Call)
    (hclosing : IsClosing
      ((engine keyvalToUnicode).record ((engine keyvalToUnicode).stateAfter before) call)) :
    FollowsOpening keyvalToUnicode before
      ((engine keyvalToUnicode).record ((engine keyvalToUnicode).stateAfter before) call) := by
  obtain ⟨earlier, opening, between, htrace, hrise, hbetween, hsame⟩ :=
    (engine keyvalToUnicode).exists_rise isPending ScEngine.compose rfl
      (fun _ _ => compose_step_of_isPending keyvalToUnicode) hclosing.1
  refine ⟨earlier, opening, between, htrace, edge_eq_rise_iff.mp hrise, hbetween, ?_⟩
  rw [hsame]
  obtain ⟨held, altgr, reply, held', altgr', hstate, heq, hstep⟩ :=
    exists_engineStep_after keyvalToUnicode before call
  have hrecord : (engine keyvalToUnicode).record (.holding held altgr) call =
      stepRecord held altgr call reply held' altgr' := by
    simp [Transducer.record, stepRecord, heq]
  rw [hstate] at hclosing ⊢
  rw [hrecord] at hclosing ⊢
  exact closesOneWay_of_isClosing hstep hclosing

/-- **Accents are conserved and no key is swallowed silently**, over every run of
calls on a fresh engine. -/
theorem accents_conserved (calls : List Call) : AccentsConserved keyvalToUnicode calls where
  alternate := (engine keyvalToUnicode).edges_alternate isPending scEngineInit calls
  balance := (engine keyvalToUnicode).count_edges isPending scEngineInit calls
  opening := by
    intro r hmem hopening
    obtain ⟨held, altgr, call, reply, held', altgr', rfl, hstep⟩ :=
      exists_engineStep_of_mem_trace keyvalToUnicode hmem
    exact opensWithKey_of_isOpening hstep hopening
  quiet := by
    intro r hmem hpre hpost
    obtain ⟨held, altgr, call, reply, held', altgr', rfl, hstep⟩ :=
      exists_engineStep_of_mem_trace keyvalToUnicode hmem
    rw [stepRecord_post, isPending_holding] at hpost
    exact (quiet_of_isSome hstep hpost).1
  closing := by
    intro before call after hsplit r hclosing
    exact followsOpening_of_isClosing keyvalToUnicode before call hclosing
  consumed := by
    intro r hmem hreturned hcommits
    obtain ⟨held, altgr, call, reply, held', altgr', rfl, hstep⟩ :=
      exists_engineStep_of_mem_trace keyvalToUnicode hmem
    exact consumedFor_of_silent hstep hreturned hcommits

end Conservation

/-- Delete on the keycode of `5` with AltGr closes the sequence of an apostrophe with
two texts: the literal and the Euro sign. -/
theorem closing_commits_two_texts :
    let r := (engine smallKeyvalToUnicode).record
      ((engine smallKeyvalToUnicode).stateAfter [.processKeyEvent ⟨0x27, 40, 0⟩])
      (.processKeyEvent ⟨0xffff, 6, ibusMod5Mask⟩)
    IsClosing r ∧ ¬ (∃ text, r.output.commits = [text]) ∧ r.output.commits ≠ [] := by
  have hcommits : ((engine smallKeyvalToUnicode).record
      ((engine smallKeyvalToUnicode).stateAfter [.processKeyEvent ⟨0x27, 40, 0⟩])
      (.processKeyEvent ⟨0xffff, 6, ibusMod5Mask⟩)).output.commits =
        [.ofText ['\''], .ofText ['€']] := by decide
  refine ⟨⟨by decide, by decide⟩, ?_, by decide⟩
  intro h
  rcases h with ⟨text, htext⟩
  rw [hcommits] at htext
  cases htext

end SilentCompose.Analysis
