/-
# The text the engine may send

Everything the engine sends over a run is one UTF-8 text, however it is cut into
commits. And no character of it comes from nowhere: each is paid for by a key press the
engine took away from the client, and a pending accent is a payment not yet spent.
-/

import SilentCompose.Engine.Steps
import SilentCompose.Foundations.Observations

namespace SilentCompose.Analysis

open SilentCompose.Foundations SilentCompose.Toolkit SilentCompose.Compose SilentCompose.Engine

/-- The bytes a step sends to the client. -/
def sentBytes (r : Record ScEngine Call Reply) : List UInt8 :=
  r.output.commits.flatMap CString.bytes

/-- The step takes a key press away from the client, other than of an AltGr key. -/
def takesPress (r : Record ScEngine Call Reply) : Bool :=
  match r.input with
  | .processKeyEvent event =>
    r.output.returned = some true ∧ ¬hits event.state ibusReleaseMask ∧
      ¬isAltgrModifierKey event.key
  | _ => false

/-- A pending accent is worth one character. -/
def unspent (self : ScEngine) : ℕ := (isPending self).toNat

/-- A step sends the UTF-8 bytes of as many characters as it is paid. -/
theorem exists_units_step {keyvalToUnicode : KeyvalToUnicode} {held held' : Option Accent}
    {altgr altgr' : Bool} {call : Call} {reply : Reply}
    (hstep : EngineStep keyvalToUnicode held altgr call reply held' altgr') :
    ∃ chars : List Char,
      sentBytes (stepRecord held altgr call reply held' altgr') = encode chars ∧
      chars.length + held'.isSome.toNat ≤
        held.isSome.toNat + (takesPress (stepRecord held altgr call reply held' altgr')).toNat := by
  cases hstep with
  | lifecycle hcall => exact ⟨[], rfl, by simp⟩
  | altgrKey hkey => exact ⟨[], rfl, by simp⟩
  | ignored hkey hchar hopen => exact ⟨[], rfl, by simp⟩
  | silent hkey heffect => exact ⟨[], rfl, by simp⟩
  | cancelled hkey heffect => exact ⟨[], rfl, by simp⟩
  | @passed altgr event c hkey hchar =>
      have hrefused := passthroughRefused_of_passthroughChar keyvalToUnicode hchar
      have hpress : hits event.state ibusReleaseMask = false := by
        simp only [passthroughRefused, Bool.or_eq_false_iff] at hrefused
        exact hrefused.1.1
      refine ⟨[c], ?_, ?_⟩
      · simp [sentBytes, CString.ofText_bytes (zeroFree_of_passthroughChar keyvalToUnicode hchar)]
      · simp [takesPress, stepRecord, hpress, hkey]
  | @opened altgr event accent hkey hchar hopen =>
      obtain ⟨hpress, -⟩ := press_of_openedAccent hopen
      exact ⟨[], rfl, by simp [takesPress, stepRecord, hpress, hkey]⟩
  | @completed accent altgr event c hkey heffect =>
      obtain ⟨hpress, -⟩ := press_of_heldEffect heffect (by simp)
      refine ⟨accent.completion c, ?_, ?_⟩
      · simp [sentBytes, CString.ofText_bytes (accent.completion_zeroFree c)]
      · have hlength : (accent.completion c).length ≤ 2 := by
          rcases accent.completion_length c with hone | htwo <;> omega
        simpa [takesPress, stepRecord, hpress, hkey] using hlength
  | @flushed accent altgr event hkey heffect hchar =>
      refine ⟨[accent.literal], ?_, by simp⟩
      simp [sentBytes, CString.ofText_bytes accent.literal_zeroFree]
  | @flushedPassed accent altgr event c hkey heffect hchar =>
      obtain ⟨hpress, -⟩ := press_of_heldEffect heffect (by simp)
      refine ⟨[accent.literal, c], ?_, ?_⟩
      · simp [sentBytes, CString.ofText_bytes accent.literal_zeroFree,
          CString.ofText_bytes (zeroFree_of_passthroughChar keyvalToUnicode hchar)]
      · simp [takesPress, stepRecord, hpress, hkey]

/-- **All text is paid for.** Over any run, what the engine sends is the UTF-8 encoding
of at most as many characters as key presses it took from the client, less the one a
pending accent still stands for. -/
theorem sent_text_paid (keyvalToUnicode : KeyvalToUnicode) (calls : List Call) :
    ∃ chars : List Char,
      ((engine keyvalToUnicode).trace calls).flatMap sentBytes = encode chars ∧
      chars.length + unspent ((engine keyvalToUnicode).stateAfter calls) ≤
        ((engine keyvalToUnicode).trace calls).countP takesPress := by
  -- A fresh engine has nothing pending.
  have hfresh : unspent (engine keyvalToUnicode).init = 0 := rfl
  have hpay : ∀ r ∈ (engine keyvalToUnicode).trace calls, ∃ chars : List Char,
      sentBytes r = encode chars ∧
        chars.length + unspent r.post ≤ unspent r.pre + (takesPress r).toNat := by
    intro r hmem
    obtain ⟨held, altgr, call, reply, held', altgr', rfl, hstep⟩ :=
      exists_engineStep_of_mem_trace keyvalToUnicode hmem
    simp only [unspent, stepRecord_pre, stepRecord_post, isPending_holding]
    exact exists_units_step hstep
  have hpaid := (engine keyvalToUnicode).exists_units_traceFrom hpay
  rwa [hfresh, Nat.zero_add] at hpaid

end SilentCompose.Analysis
