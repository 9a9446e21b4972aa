/-
# The text function and its buffer

The text function answers whether an event passes a character through, and writes that
character into the buffer of its caller. It does both or neither: an accepted character
stands in front of its closing zero with the bytes behind untouched, and a refused event
leaves every byte as it was. The buffer of the engine has room for any character, so the
engine sends exactly one text for an accepted event.
-/

import SilentCompose.Engine.SymbolTable

namespace SilentCompose.Analysis

open SilentCompose.Foundations SilentCompose.Toolkit SilentCompose.Engine

section Buffer

variable (keyvalToUnicode : KeyvalToUnicode)

/-! ## What the text function should do -/

/-- The character of an event: the table's symbol while AltGr is active, the Unicode
value of the keysym otherwise. -/
def IsEventChar (key code state : Guint) (altgr : Bool) (c : Char) : Prop :=
  if altgrActive state altgr then IsTableSymbol keyvalToUnicode key code state c.val
  else keyvalToUnicode key = c.val

/-- The event passes the scalar `c` through into a buffer of this size. -/
structure Passes (key code state : Guint) (altgr : Bool) (bufSize : Nat) (c : Char) : Prop where
  press : hits state ibusReleaseMask = false
  unblocked : blockedChord state = false
  notLeftAlt : ¬(hits state ibusMod1Mask = true ∧ hits state ibusMod5Mask = false ∧ altgr = false)
  eventChar : IsEventChar keyvalToUnicode key code state altgr c
  aboveAscii : 0x80 ≤ c.val
  printable : gUnicharIscntrl c.val = false
  fits : (gUnicharToUtf8 c).length < bufSize

/-- The answer and the buffer go together: a character is accepted exactly when it
passes, its bytes and a closing zero replace the front of the buffer and nothing else,
and a refusal changes no byte. -/
structure IsAllOrNothing (key code state : Guint) (altgr : Bool) (buf : List UInt8)
    (bufSize : Nat) (answer : Bool × List UInt8) : Prop where
  accepted : answer.1 = true ↔ ∃ c, Passes keyvalToUnicode key code state altgr bufSize c
  written : ∀ c, Passes keyvalToUnicode key code state altgr bufSize c →
    answer.2 = gUnicharToUtf8 c ++ 0 :: buf.drop ((gUnicharToUtf8 c).length + 1)
  refused : answer.1 = false → answer.2 = buf
  inPlace : bufSize ≤ buf.length → answer.2.length = buf.length

/-! ## The text function does it -/

/-- What passes is the passthrough character, where it fits. -/
theorem passes_iff (key code state : Guint) (altgr : Bool) (bufSize : Nat) (c : Char) :
    Passes keyvalToUnicode key code state altgr bufSize c ↔
      passthroughChar keyvalToUnicode key code state altgr = some c ∧
        (gUnicharToUtf8 c).length < bufSize := by
  have hrefused : passthroughRefused state altgr = false ↔
      hits state ibusReleaseMask = false ∧ blockedChord state = false ∧
        ¬(hits state ibusMod1Mask = true ∧ hits state ibusMod5Mask = false ∧ altgr = false) := by
    rw [passthroughRefused, altgrActive]
    cases hits state ibusReleaseMask <;> cases blockedChord state <;>
      cases hits state ibusMod1Mask <;> cases hits state ibusMod5Mask <;> cases altgr <;> simp
  apply Iff.intro
  · intro h
    refine ⟨?_, h.fits⟩
    have haccepted := hrefused.mpr ⟨h.press, h.unblocked, h.notLeftAlt⟩
    have hchar := h.eventChar
    rw [IsEventChar] at hchar
    cases hactive : altgrActive state altgr with
    | true =>
        rw [if_pos hactive] at hchar
        exact (passthroughChar_eq_some_iff keyvalToUnicode hactive haccepted).mpr hchar
    | false =>
        rw [hactive, if_neg (by simp)] at hchar
        have habove := aboveAscii_eq_some_iff.mpr ⟨hchar.symm, hchar ▸ h.aboveAscii,
          hchar ▸ h.printable⟩
        simp [passthroughChar, haccepted, hactive, habove]
  · intro h
    rcases h with ⟨hchar, hfits⟩
    have haccepted := passthroughRefused_of_passthroughChar keyvalToUnicode hchar
    obtain ⟨hpress, hunblocked, hleftAlt⟩ := hrefused.mp haccepted
    obtain ⟨habove, hprintable⟩ := passthroughChar_eq_some keyvalToUnicode hchar
    refine ⟨hpress, hunblocked, hleftAlt, ?_, habove, hprintable, hfits⟩
    rw [IsEventChar]
    split_ifs with hactive
    · exact (passthroughChar_eq_some_iff keyvalToUnicode hactive haccepted).mp hchar
    · rw [passthroughChar, haccepted, if_neg (by simp), if_neg hactive] at hchar
      exact (aboveAscii_eq_some hchar).1.symm

/-- The text function is all or nothing on any buffer. -/
theorem isAllOrNothing_text (key code state : Guint) (altgr : Bool) (buf : List UInt8)
    (bufSize : Nat) :
    IsAllOrNothing keyvalToUnicode key code state altgr buf bufSize
      (scEnginePassthroughText keyvalToUnicode key code state altgr buf bufSize) := by
  rw [scEnginePassthroughText_eq]
  cases hchar : passthroughChar keyvalToUnicode key code state altgr with
  | none =>
      have hnone : ∀ c, ¬Passes keyvalToUnicode key code state altgr bufSize c := by
        intro c h
        rw [passes_iff, hchar] at h
        cases h.1
      refine ⟨?_, fun c h => absurd h (hnone c), fun _ => rfl, fun _ => rfl⟩
      simp [hnone]
  | some d =>
      have hpasses : ∀ c, Passes keyvalToUnicode key code state altgr bufSize c ↔
          d = c ∧ (gUnicharToUtf8 d).length < bufSize := by
        intro c
        rw [passes_iff, hchar, Option.some.injEq]
        apply and_congr_right
        intro heq
        rw [heq]
      have hnonzero := ne_zero_of_aboveAscii (passthroughChar_eq_some keyvalToUnicode hchar).1
      by_cases hfits : (gUnicharToUtf8 d).length < bufSize
      · simp only [hfits, ↓reduceIte, gStrlcpy_ofText hnonzero buf hfits]
        refine ⟨?_, ?_, ?_, ?_⟩
        · simp [hpasses, hfits]
        · intro c h
          rw [((hpasses c).mp h).1]
        · intro h
          cases h
        · intro hroom
          simp only [List.length_append, List.length_cons, List.length_drop]
          omega
      · simp only [hfits, ↓reduceIte]
        refine ⟨?_, ?_, fun _ => rfl, fun _ => rfl⟩
        · simp [hpasses, hfits]
        · intro c h
          exact absurd ((hpasses c).mp h).2 hfits

/-- **The text function is all or nothing**, on every buffer of every size. In the
engine's own buffer of seven bytes every scalar fits, and a successful attempt to pass a
character through sends that character, once. -/
theorem passthrough_allOrNothing (key code state : Guint) (altgr : Bool) :
    (∀ buf bufSize, IsAllOrNothing keyvalToUnicode key code state altgr buf bufSize
      (scEnginePassthroughText keyvalToUnicode key code state altgr buf bufSize)) ∧
    (∀ c : Char, (gUnicharToUtf8 c).length < 7) ∧
    ∀ texts, commitPassthrough keyvalToUnicode key code state altgr = (true, texts) →
      ∃ c, Passes keyvalToUnicode key code state altgr 7 c ∧ texts = [.ofText [c]] := by
  have hroom : ∀ c : Char, (gUnicharToUtf8 c).length < 7 := by
    intro c
    have hle := gUnicharToUtf8_length_le c
    omega
  refine ⟨isAllOrNothing_text keyvalToUnicode key code state altgr, hroom, ?_⟩
  intro texts hcommit
  rw [commitPassthrough_eq] at hcommit
  cases hchar : passthroughChar keyvalToUnicode key code state altgr with
  | none => simp [hchar] at hcommit
  | some c =>
      obtain rfl : [CString.ofText [c]] = texts := by simpa [hchar] using hcommit
      exact ⟨c, (passes_iff ..).mpr ⟨hchar, hroom c⟩, rfl⟩

end Buffer

end SilentCompose.Analysis
