/-
# One symbol for an AltGr chord, however it is reported

A session may report an AltGr chord with or without a keycode, with the base keysym or
the translated one, and AltGr as Mod5 or only as a held key. The text of the chord is the
same. The lookup below it is less careful: for a key that has neither a keycode nor a
Unicode value it finds a zero column of the table and reports it as a symbol.
-/

import SilentCompose.Engine.Process
import SilentCompose.Engine.SymbolTable

namespace SilentCompose.Analysis

open SilentCompose.Foundations SilentCompose.Toolkit SilentCompose.Compose SilentCompose.Engine

/-! ## What the lookup reports -/

section Lookup

variable (keyvalToUnicode : KeyvalToUnicode)

/-- What the lookup reports is a nonzero symbol of the table. -/
def ReportsRealSymbol (key code state : Guint) (altgr : Bool) : Prop :=
  ∀ out, winIntlLookup keyvalToUnicode key code state altgr = some out →
    out ≠ 0 ∧ ∃ symbol ∈ winIntlSymbols, out = symbol.altgr ∨ out = symbol.altgrShift

/-- An AltGr event without a keycode, whose keysym is no base or shifted keysym of the
table and has no Unicode value. -/
def IsNamelessAltgr (key code state : Guint) (altgr : Bool) : Prop :=
  altgrActive state altgr = true ∧ code = 0 ∧
    (∀ symbol ∈ winIntlSymbols, key ≠ symbol.key ∧ key ≠ symbol.shifted) ∧
    keyvalToUnicode key = 0

/-- **The lookup reports only real symbols, nameless keys apart.** -/
theorem reportsRealSymbol_iff (key code state : Guint) (altgr : Bool) :
    ReportsRealSymbol keyvalToUnicode key code state altgr ↔
      ¬IsNamelessAltgr keyvalToUnicode key code state altgr := by
  cases hactive : altgrActive state altgr with
  | false =>
      simp [ReportsRealSymbol, IsNamelessAltgr, hactive,
        winIntlLookup_eq_none keyvalToUnicode hactive]
  | true =>
      have hnameless : IsNamelessAltgr keyvalToUnicode key code state altgr ↔
          winIntlLookup keyvalToUnicode key code state altgr = some 0 := by
        rw [winIntlLookup_eq_some_zero_iff keyvalToUnicode hactive, IsNamelessAltgr, hactive]
        by_cases hcode : code = 0
        · simp [hcode, WinIntlSymbol.Matches]
        · simp [hcode]
      rw [hnameless]
      apply Iff.intro
      · intro hreal hzero
        exact (hreal 0 hzero).1 rfl
      · intro hnonzero out hout
        have hout' : out ≠ 0 := by
          intro heq
          exact hnonzero (heq ▸ hout)
        exact column_of_tableSymbol keyvalToUnicode
          ((winIntlLookup_eq_some_iff keyvalToUnicode hactive hout').mp hout)

end Lookup

/-- AltGr and the Left key without a keycode: the lookup reports the zero of a column
where Windows produces nothing. -/
theorem not_reportsRealSymbol_left :
    ¬ ReportsRealSymbol smallKeyvalToUnicode 0xff51 0 ibusMod5Mask false := by
  intro hreal
  exact (hreal 0 (by decide)).1 rfl

/-! ## Events that report an AltGr chord -/

/-- A press with AltGr active and without Control, Super and Mod4. -/
structure AltgrEvent extends KeyEvent where
  altgr : Bool
  press : hits state ibusReleaseMask = false
  unblocked : blockedChord state = false
  active : altgrActive state altgr = true

namespace AltgrEvent

/-- The Shift level of the event. -/
def isShifted (event : AltgrEvent) : Bool := hits event.state ibusShiftMask

theorem accepted (event : AltgrEvent) : passthroughRefused event.state event.altgr = false := by
  simp [passthroughRefused, event.press, event.unblocked, event.active]

section Text

variable (keyvalToUnicode : KeyvalToUnicode)

/-- What the text function answers to the event, and the buffer afterwards. -/
def text (event : AltgrEvent) (buf : List UInt8) (bufSize : Nat) : Bool × List UInt8 :=
  scEnginePassthroughText keyvalToUnicode event.key event.code event.state event.altgr buf bufSize

/-- Two events get the same answer and text, whatever the buffer. -/
def SameText (first second : AltgrEvent) : Prop :=
  ∀ buf bufSize, first.text keyvalToUnicode buf bufSize = second.text keyvalToUnicode buf bufSize

/-- Events with the same symbol get the same text. -/
theorem sameText_of_tableSymbol {first second : AltgrEvent}
    (h : ∀ ch, IsTableSymbol keyvalToUnicode first.key first.code first.state ch ↔
      IsTableSymbol keyvalToUnicode second.key second.code second.state ch) :
    SameText keyvalToUnicode first second := by
  have hchar : passthroughChar keyvalToUnicode first.key first.code first.state first.altgr =
      passthroughChar keyvalToUnicode second.key second.code second.state second.altgr := by
    apply Option.ext
    intro c
    rw [passthroughChar_eq_some_iff keyvalToUnicode first.active first.accepted,
      passthroughChar_eq_some_iff keyvalToUnicode second.active second.accepted, h]
  intro buf bufSize
  rw [text, text, scEnginePassthroughText_eq, scEnginePassthroughText_eq, hchar]

/-- Events that have an entry each, with the same symbol at their Shift levels, get the
same text. -/
theorem sameText_of_matches {first second : AltgrEvent} {symbol : WinIntlSymbol}
    (hmem : symbol ∈ winIntlSymbols) (hfirst : symbol.Matches first.key first.code)
    (hsecond : symbol.Matches second.key second.code)
    (hshifted : first.isShifted = second.isShifted) : SameText keyvalToUnicode first second := by
  apply sameText_of_tableSymbol
  intro ch
  rw [isTableSymbol_iff_of_matches keyvalToUnicode hmem hfirst,
    isTableSymbol_iff_of_matches keyvalToUnicode hmem hsecond]
  rw [isShifted, isShifted] at hshifted
  rw [hshifted]

/-! ## The ways of reporting a chord -/

/-- A nonzero keycode alone identifies the chord. -/
theorem sameText_of_code {first second : AltgrEvent} (hcode : first.code = second.code)
    (hnonzero : first.code ≠ 0) (hshifted : first.isShifted = second.isShifted) :
    SameText keyvalToUnicode first second := by
  have hmatches : ∀ symbol : WinIntlSymbol,
      symbol.Matches first.key first.code ↔ symbol.Matches second.key second.code := by
    intro symbol
    rw [WinIntlSymbol.Matches, WinIntlSymbol.Matches, ← hcode, if_neg hnonzero, if_neg hnonzero]
  by_cases hentry : ∃ symbol ∈ winIntlSymbols, symbol.Matches first.key first.code
  · rcases hentry with ⟨symbol, hmem, hmatch⟩
    exact sameText_of_matches keyvalToUnicode hmem hmatch ((hmatches symbol).mp hmatch) hshifted
  · have hnone : ∀ symbol ∈ winIntlSymbols, ¬symbol.Matches first.key first.code := by
      simpa using hentry
    have hnone' : ∀ symbol ∈ winIntlSymbols, ¬symbol.Matches second.key second.code :=
      fun symbol hmem hmatch => hnone symbol hmem ((hmatches symbol).mpr hmatch)
    apply sameText_of_tableSymbol
    intro ch
    rw [isTableSymbol_iff_of_not_matches keyvalToUnicode hnone,
      isTableSymbol_iff_of_not_matches keyvalToUnicode hnone', ← hcode]
    simp [hnonzero]

/-- Without a keycode the base and the shifted keysym of an entry stand for its keycode. -/
theorem sameText_of_keysym {symbol : WinIntlSymbol} (hmem : symbol ∈ winIntlSymbols)
    {first second : AltgrEvent} (hcode : first.code = 0)
    (hkey : first.key = symbol.key ∨ first.key = symbol.shifted)
    (hcode' : second.code = symbol.code) (hshifted : first.isShifted = second.isShifted) :
    SameText keyvalToUnicode first second := by
  have hnonzero := (winIntlSymbols_keys symbol hmem).1
  have hfirst : symbol.Matches first.key first.code := by
    rw [WinIntlSymbol.Matches, if_pos hcode]
    exact hkey
  have hsecond : symbol.Matches second.key second.code := by
    rw [WinIntlSymbol.Matches, hcode', if_neg hnonzero]
  exact sameText_of_matches keyvalToUnicode hmem hfirst hsecond hshifted

/-- Without a keycode a keysym above ASCII that means the symbol of an entry stands for
its keycode. -/
theorem sameText_of_translated {symbol : WinIntlSymbol} (hmem : symbol ∈ winIntlSymbols)
    {first second : AltgrEvent} (hcode : first.code = 0) (hkey : 0x80 ≤ first.key)
    (hsymbol : keyvalToUnicode first.key = symbol.symbolAt first.isShifted)
    (hnonzero : symbol.symbolAt first.isShifted ≠ 0) (hcode' : second.code = symbol.code)
    (hshifted : first.isShifted = second.isShifted) : SameText keyvalToUnicode first second := by
  have hnone : ∀ other ∈ winIntlSymbols, ¬other.Matches first.key first.code := by
    intro other hother
    rw [hcode]
    exact not_matches_of_le hother hkey
  have hsecond : symbol.Matches second.key second.code := by
    rw [WinIntlSymbol.Matches, hcode', if_neg (winIntlSymbols_keys symbol hmem).1]
  have hcolumn : ∃ other ∈ winIntlSymbols,
      keyvalToUnicode first.key = other.altgr ∨ keyvalToUnicode first.key = other.altgrShift := by
    rw [hsymbol]
    exact (column_of_tableSymbol keyvalToUnicode (.entry hmem hsecond hnonzero)).2
  apply sameText_of_tableSymbol
  intro ch
  rw [isTableSymbol_iff_of_not_matches keyvalToUnicode hnone,
    isTableSymbol_iff_of_matches keyvalToUnicode hmem hsecond]
  have hsame : symbol.symbolAt (hits second.state ibusShiftMask) = keyvalToUnicode first.key := by
    rw [hsymbol, hshifted]
    rfl
  rw [hsame]
  apply Iff.intro
  · intro h
    exact ⟨h.2.1, h.2.2.1⟩
  · intro h
    rcases h with ⟨hch, rfl⟩
    exact ⟨hcode, hch, rfl, hcolumn⟩

/-- However AltGr is reported, the chord is the same. -/
theorem sameText_of_report {first second : AltgrEvent} (hkey : first.key = second.key)
    (hcode : first.code = second.code) (hshifted : first.isShifted = second.isShifted) :
    SameText keyvalToUnicode first second := by
  apply sameText_of_tableSymbol
  intro ch
  rw [hkey, hcode]
  exact isTableSymbol_congr keyvalToUnicode hshifted

/-- A text that is written is that of a symbol in one of the two columns of the table. -/
theorem column_of_text (event : AltgrEvent) (buf : List UInt8) (bufSize : Nat)
    (h : (event.text keyvalToUnicode buf bufSize).1 = true) :
    ∃ symbol ∈ winIntlSymbols, ∃ c : Char,
      (c.val = symbol.altgr ∨ c.val = symbol.altgrShift) ∧
        (event.text keyvalToUnicode buf bufSize).2 =
          gUnicharToUtf8 c ++ 0 :: buf.drop ((gUnicharToUtf8 c).length + 1) := by
  rw [text, scEnginePassthroughText_eq] at h ⊢
  cases hchar : passthroughChar keyvalToUnicode event.key event.code event.state event.altgr with
  | none => simp [hchar] at h
  | some c =>
      rw [hchar] at h
      have hfits : (gUnicharToUtf8 c).length < bufSize := by
        by_contra hlong
        simp [hlong] at h
      have htable :=
        (passthroughChar_eq_some_iff keyvalToUnicode event.active event.accepted).mp hchar
      obtain ⟨hnonzero, symbol, hmem, hcolumn⟩ := column_of_tableSymbol keyvalToUnicode htable
      exact ⟨symbol, hmem, c, hcolumn, by simp [hfits, gStrlcpy_ofText hnonzero]⟩

end Text

end AltgrEvent

/-- **The ways of reporting an AltGr chord agree.** Its text depends on nothing but the
keycode and Shift; without a keycode a base or shifted keysym of an entry, or a keysym
above ASCII that means its symbol, stands for the keycode; Mod1, Mod5 and the tracked
key report the same AltGr; and no text but a symbol of the table is ever written. -/
theorem altgrReports_agree (keyvalToUnicode : KeyvalToUnicode) :
    (∀ first second : AltgrEvent, first.code = second.code → first.code ≠ 0 →
      first.isShifted = second.isShifted → first.SameText keyvalToUnicode second) ∧
    (∀ symbol ∈ winIntlSymbols, ∀ first second : AltgrEvent, first.code = 0 →
      (first.key = symbol.key ∨ first.key = symbol.shifted) → second.code = symbol.code →
      first.isShifted = second.isShifted → first.SameText keyvalToUnicode second) ∧
    (∀ symbol ∈ winIntlSymbols, ∀ first second : AltgrEvent, first.code = 0 →
      0x80 ≤ first.key → keyvalToUnicode first.key = symbol.symbolAt first.isShifted →
      symbol.symbolAt first.isShifted ≠ 0 → second.code = symbol.code →
      first.isShifted = second.isShifted → first.SameText keyvalToUnicode second) ∧
    (∀ first second : AltgrEvent, first.key = second.key → first.code = second.code →
      first.isShifted = second.isShifted → first.SameText keyvalToUnicode second) ∧
    (∀ (event : AltgrEvent) (buf : List UInt8) (bufSize : Nat),
      (event.text keyvalToUnicode buf bufSize).1 = true →
      ∃ symbol ∈ winIntlSymbols, ∃ c : Char,
        (c.val = symbol.altgr ∨ c.val = symbol.altgrShift) ∧
          (event.text keyvalToUnicode buf bufSize).2 =
            gUnicharToUtf8 c ++ 0 :: buf.drop ((gUnicharToUtf8 c).length + 1)) := by
  refine ⟨?_, ?_, ?_, ?_, ?_⟩
  · intro first second hcode hnonzero hshifted
    exact AltgrEvent.sameText_of_code keyvalToUnicode hcode hnonzero hshifted
  · intro symbol hmem first second hcode hkey hcode' hshifted
    exact AltgrEvent.sameText_of_keysym keyvalToUnicode hmem hcode hkey hcode' hshifted
  · intro symbol hmem first second hcode hkey hsymbol hnonzero hcode' hshifted
    exact AltgrEvent.sameText_of_translated keyvalToUnicode hmem hcode hkey hsymbol hnonzero hcode'
      hshifted
  · intro first second hkey hcode hshifted
    exact AltgrEvent.sameText_of_report keyvalToUnicode hkey hcode hshifted
  · exact AltgrEvent.column_of_text keyvalToUnicode

/-- The registered sign without a keycode under Mod5, and `r` on its keycode with Mod1 while
an AltGr key is held: one chord, and the sign is its text. -/
theorem altgrReports_agree_small :
    let translated : AltgrEvent :=
      { key := 0xae, code := 0, state := ibusMod5Mask, altgr := false
        press := by decide, unblocked := by decide, active := by decide }
    let tracked : AltgrEvent :=
      { key := 'r'.val, code := 19, state := ibusMod1Mask, altgr := true
        press := by decide, unblocked := by decide, active := by decide }
    translated.SameText smallKeyvalToUnicode tracked ∧
      tracked.text smallKeyvalToUnicode (List.replicate 4 7) 4 = (true, [0xc2, 0xae, 0, 7]) := by
  intro translated tracked
  refine ⟨?_, by decide⟩
  exact (altgrReports_agree smallKeyvalToUnicode).2.2.1
    { code := 19, key := 'r'.val, shifted := 'R'.val, altgr := 0x00ae } (by decide) translated
    tracked rfl (by decide) (by decide) (by decide) rfl (by decide)

end SilentCompose.Analysis
