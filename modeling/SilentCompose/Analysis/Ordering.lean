/-
# No key overtakes a held accent

While an accent is held back, every further text key should flush it first. The
compose state recognises text in three keysym ranges and navigation in a list;
keypad digits, legacy symbols, Return and Tab are in neither, and reach the client
ahead of the accent. Where all text keys that meet a held accent are recognised,
everything arrives in the order it was typed.
-/

import SilentCompose.Engine.Steps
import SilentCompose.Foundations.Buffer

namespace SilentCompose.Analysis

open SilentCompose.Foundations SilentCompose.Toolkit SilentCompose.Compose SilentCompose.Engine

section Ordering

variable (keyvalToUnicode : KeyvalToUnicode)

/-- A keysym of text: a printable scalar, Return, keypad Enter or Tab. -/
def isTextKey (key : Guint) : Bool :=
  (gUnicharValidate (keyvalToUnicode key) && !gUnicharIscntrl (keyvalToUnicode key)) ||
    key = 0xff0d || key = 0xff8d || key = 0xff09

/-- A press of a text key with all shortcut and AltGr bits clear. -/
def isTextPress (event : KeyEvent) : Bool :=
  !hits event.state ibusReleaseMask && plainModifiers event.state &&
    isTextKey keyvalToUnicode event.key

/-- A call that delivers such a press. -/
def isTextCall : Call → Bool
  | .processKeyEvent event => isTextPress keyvalToUnicode event
  | _ => false

/-- The key event of a call, if it is one. -/
def keyEventOf : Call → Option KeyEvent
  | .processKeyEvent event => some event
  | _ => none

/-- The step sends, ahead of anything else, a text that closes the sequence of the held
accent on the key: the accent's literal or its composed letter, and the key's character
where the text does not account for it otherwise. -/
def flushesAccent (r : Record ScEngine Call Reply) : Bool :=
  (keyEventOf r.input).any fun event =>
    r.output.commits.head?.any fun text => isClosingText r.pre.compose event.key text

/-- After the step nothing is held back, and the held accent was sent. -/
def AccentFlushed (r : Record ScEngine Call Reply) : Prop :=
  isPending r.post = false ∧ flushesAccent r = true

/-- What a step does to the order of typing. A text that closes the sequence delivers the
held accent and the key itself. Any other text, and a text key left to the client, passes
by whatever is held. -/
def orderMove (r : Record ScEngine Call Reply) : Move :=
  if flushesAccent r then .deliver
  else if r.output.commits ≠ [] ∨
      (isTextCall keyvalToUnicode r.input = true ∧ r.output.returned = some false) then .pass
  else if isPending r.post then .hold
  else .drop

/-- The positions of a run's calls in the order in which what they typed reaches
the client. -/
def arrivals (records : List (Record ScEngine Call Reply)) : List ℕ :=
  deliveries none 0 (records.map (orderMove keyvalToUnicode))

/-! ## One step -/

theorem exists_event_of_isTextCall {call : Call} (h : isTextCall keyvalToUnicode call = true) :
    ∃ event, call = .processKeyEvent event ∧ isTextPress keyvalToUnicode event = true := by
  cases call with
  | processKeyEvent event => exact ⟨event, rfl, h⟩
  | reset => cases h
  | focusOut => cases h
  | disable => cases h

/-- An AltGr key is neither text nor navigation. -/
theorem completesSequence_of_altgrKey {key : Guint} (hkey : isAltgrModifierKey key = true) :
    completesSequence key = false := by
  simp only [isAltgrModifierKey, decide_eq_true_eq] at hkey
  rcases hkey with rfl | rfl | rfl <;> decide

section Steps

variable {keyvalToUnicode} {held held' : Option Accent} {altgr altgr' : Bool} {call : Call}
  {reply : Reply}

/-- Where an accent is held, whatever is sent begins with its closing text. -/
theorem flushesAccent_of_commits {accent : Accent}
    (hstep : EngineStep keyvalToUnicode (some accent) altgr call reply held' altgr')
    (hcommits : reply.commits ≠ []) :
    flushesAccent (stepRecord (some accent) altgr call reply held' altgr') = true := by
  cases hstep with
  | lifecycle hcall => exact absurd rfl hcommits
  | altgrKey hkey => exact absurd rfl hcommits
  | silent hkey heffect => exact absurd rfl hcommits
  | cancelled hkey heffect => exact absurd rfl hcommits
  | completed hkey heffect =>
      obtain ⟨-, htext⟩ := press_of_heldEffect heffect (by simp)
      exact isClosingText_completion accent htext
  | flushed hkey heffect hchar =>
      obtain ⟨-, hnav⟩ := press_of_heldEffect heffect (by simp)
      exact isClosingText_literal accent (isNavigation_of_keyEffect hnav)
  | flushedPassed hkey heffect hchar =>
      obtain ⟨-, hnav⟩ := press_of_heldEffect heffect (by simp)
      exact isClosingText_literal accent (isNavigation_of_keyEffect hnav)

/-- A step that flushes an accent sends something. -/
theorem commits_of_flushesAccent
    (h : flushesAccent (stepRecord held altgr call reply held' altgr') = true) :
    reply.commits ≠ [] := by
  intro hnone
  simp [flushesAccent, hnone] at h

/-- A step that sends something leaves nothing held back. -/
theorem held_eq_none_of_commits
    (hstep : EngineStep keyvalToUnicode held altgr call reply held' altgr')
    (hcommits : reply.commits ≠ []) : held' = none := by
  cases held' with
  | none => rfl
  | some accent => exact absurd (quiet_of_isSome hstep rfl).1 hcommits

/-- A text press that meets a held accent flushes it exactly when its key is read
as text or as navigation. -/
theorem accentFlushed_iff {accent : Accent} {event : KeyEvent}
    (hstep : EngineStep keyvalToUnicode (some accent) altgr (.processKeyEvent event) reply held'
      altgr')
    (htext : isTextPress keyvalToUnicode event = true) :
    AccentFlushed (stepRecord (some accent) altgr (.processKeyEvent event) reply held' altgr') ↔
      completesSequence event.key = true := by
  have hsent : reply.commits ≠ [] ↔
      AccentFlushed (stepRecord (some accent) altgr (.processKeyEvent event) reply held'
        altgr') := by
    apply Iff.intro
    · intro hcommits
      refine ⟨?_, flushesAccent_of_commits hstep hcommits⟩
      rw [held_eq_none_of_commits hstep hcommits]
      rfl
    · intro h
      exact commits_of_flushesAccent h.2
  rw [← hsent]
  simp only [isTextPress, Bool.and_eq_true, Bool.not_eq_true'] at htext
  rcases htext with ⟨⟨hpress, hplain⟩, -⟩
  have hmods := heldEffect_of_plain event.key hplain hpress
  rw [completesSequence_iff]
  cases hstep with
  | lifecycle hcall => exact absurd rfl (hcall event)
  | altgrKey hkey =>
      have hnot := completesSequence_of_altgrKey hkey
      simp [← completesSequence_iff, hnot]
  | silent hkey heffect => simp [← hmods, heffect]
  | cancelled hkey heffect => simp [← hmods, heffect]
  | completed hkey heffect => simp [← hmods, heffect]
  | flushed hkey heffect hchar => simp [← hmods, heffect]
  | flushedPassed hkey heffect hchar => simp [← hmods, heffect]

/-- One step lets nothing pass by a held accent, if a text press that meets one is read as
text or as navigation. -/
theorem noOvertaking_step (hstep : EngineStep keyvalToUnicode held altgr call reply held' altgr')
    (hreads : ∀ event, call = .processKeyEvent event → isTextPress keyvalToUnicode event = true →
      held.isSome = true → completesSequence event.key = true)
    {moves : List Move} (hmoves : NoOvertaking held'.isSome moves) :
    NoOvertaking held.isSome
      (orderMove keyvalToUnicode (stepRecord held altgr call reply held' altgr') :: moves) := by
  rw [orderMove]
  split_ifs with hflushes hpasses hpending
  · rwa [held_eq_none_of_commits hstep (commits_of_flushesAccent hflushes)] at hmoves
  · -- what passes by met no accent, or it would have flushed it
    obtain rfl : held = none := by
      cases held with
      | none => rfl
      | some accent =>
          refine absurd ?_ hflushes
          rcases hpasses with hcommits | ⟨hcall, -⟩
          · exact flushesAccent_of_commits hstep hcommits
          · obtain ⟨event, rfl, htext⟩ := exists_event_of_isTextCall keyvalToUnicode hcall
            exact ((accentFlushed_iff hstep htext).mpr (hreads event rfl htext rfl)).2
    obtain rfl : held' = none := by
      cases held' with
      | none => rfl
      | some accent =>
          obtain ⟨hquiet, hopened⟩ := quiet_of_isSome hstep rfl
          rcases hpasses with hcommits | ⟨-, hleft⟩
          · exact absurd hquiet hcommits
          · rw [stepRecord_output, hopened rfl] at hleft
            cases hleft
    exact ⟨rfl, hmoves⟩
  · rw [stepRecord_post, isPending_holding] at hpending
    rwa [hpending] at hmoves
  · rw [stepRecord_post, isPending_holding, Bool.not_eq_true] at hpending
    rwa [hpending] at hmoves

end Steps

/-! ## Whole runs -/

/-- Nothing passes by a held accent, from any state that may hold one, if every text
press that meets a held accent is read as text or as navigation. -/
theorem noOvertaking_of_completes (held : Option Accent) (altgr : Bool) (calls : List Call)
    (hreads : ∀ r ∈ (engine keyvalToUnicode).traceFrom (.holding held altgr) calls, ∀ event,
      r.input = .processKeyEvent event → isTextPress keyvalToUnicode event = true →
        isPending r.pre = true → completesSequence event.key = true) :
    NoOvertaking held.isSome
      (((engine keyvalToUnicode).traceFrom (.holding held altgr) calls).map
        (orderMove keyvalToUnicode)) := by
  induction calls generalizing held altgr with
  | nil => exact trivial
  | cons call rest ih =>
      obtain ⟨reply, held', altgr', heq, hstep⟩ :=
        exists_engineStep keyvalToUnicode held altgr call
      have hrecord : (engine keyvalToUnicode).record (.holding held altgr) call =
          stepRecord held altgr call reply held' altgr' := by
        simp [Transducer.record, stepRecord, heq]
      simp only [Transducer.traceFrom, hrecord, heq, List.forall_mem_cons] at hreads ⊢
      rcases hreads with ⟨hfirst, hreads⟩
      refine noOvertaking_step hstep ?_ (ih held' altgr' hreads)
      intro event hcall htext hheld
      exact hfirst event hcall htext ((isPending_holding held altgr).trans hheld)

/-- **Text keys flush a held accent exactly when they are read as text or as
navigation.** In a run all of whose text presses that meet a held accent are so read no
text passes by a held accent, and everything reaches the client in the order of typing. -/
theorem text_order (calls : List Call) :
    (∀ r ∈ (engine keyvalToUnicode).trace calls, ∀ event, r.input = .processKeyEvent event →
      isTextPress keyvalToUnicode event = true → isPending r.pre = true →
        (AccentFlushed r ↔ completesSequence event.key = true)) ∧
    ((∀ r ∈ (engine keyvalToUnicode).trace calls, ∀ event, r.input = .processKeyEvent event →
      isTextPress keyvalToUnicode event = true → isPending r.pre = true →
        completesSequence event.key = true) →
      NoOvertaking false (((engine keyvalToUnicode).trace calls).map
        (orderMove keyvalToUnicode)) ∧
      (arrivals keyvalToUnicode ((engine keyvalToUnicode).trace calls)).Pairwise (· < ·)) := by
  apply And.intro
  · intro r hmem event hinput htext hpending
    obtain ⟨held, altgr, reply, held', altgr', rfl, hstep⟩ :=
      exists_engineStep_of_event keyvalToUnicode hmem hinput
    obtain ⟨accent, rfl⟩ : ∃ accent, held = some accent := by
      simpa [Option.isSome_iff_exists] using hpending
    exact accentFlushed_iff hstep htext
  · intro hreads
    have hmoves := noOvertaking_of_completes keyvalToUnicode none false calls hreads
    exact ⟨hmoves, (@deliveries_ordered none 0 _ (by simp) hmoves).1⟩

end Ordering

/-- Apostrophe and `e`, then tilde, Left and `x`. -/
theorem text_order_small :
    (arrivals smallKeyvalToUnicode ((engine smallKeyvalToUnicode).trace
      [.processKeyEvent ⟨0x27, 40, 0⟩, .processKeyEvent ⟨0x65, 18, 0⟩,
        .processKeyEvent ⟨0x7e, 41, ibusShiftMask⟩, .processKeyEvent ⟨0xff51, 105, 0⟩,
        .processKeyEvent ⟨0x78, 45, 0⟩])).Pairwise (· < ·) :=
  ((text_order smallKeyvalToUnicode _).2 (by decide)).2

/-- Return typed after an apostrophe is left to the client while the apostrophe
stays held, so the next key delivers the apostrophe after it. -/
theorem not_text_order_return :
    ¬ (∀ r ∈ (engine smallKeyvalToUnicode).trace
        [.processKeyEvent ⟨0x27, 40, 0⟩, .processKeyEvent ⟨0xff0d, 28, 0⟩,
          .processKeyEvent ⟨0x78, 45, 0⟩], ∀ event, r.input = .processKeyEvent event →
      isTextPress smallKeyvalToUnicode event = true → isPending r.pre = true →
        r.pre.altgr = false → AccentFlushed r) ∧
    ¬ (arrivals smallKeyvalToUnicode ((engine smallKeyvalToUnicode).trace
        [.processKeyEvent ⟨0x27, 40, 0⟩, .processKeyEvent ⟨0xff0d, 28, 0⟩,
          .processKeyEvent ⟨0x78, 45, 0⟩])).Pairwise (· < ·) := by
  apply And.intro
  · intro hflushed
    have hreturn := hflushed _ (List.mem_cons_of_mem _ List.mem_cons_self) _ rfl (by decide)
      (by decide) (by decide)
    exact absurd hreturn.1 (by decide)
  · decide +kernel

end SilentCompose.Analysis
