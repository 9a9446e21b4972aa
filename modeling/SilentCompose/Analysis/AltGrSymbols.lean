/-
# AltGr symbols and the compose state

With AltGr a key should produce the symbol Windows gives it and nothing else. With
nothing held back the table decides, but a key it says nothing about falls through to
the compose state, which does not look at AltGr. With an accent held back the compose
state comes first and decides by the keysym alone, so the symbol survives only where
the keysym already leads to it.
-/

import SilentCompose.Compose.Keysyms
import SilentCompose.Engine.Steps
import SilentCompose.Engine.SymbolTable

namespace SilentCompose.Analysis

open SilentCompose.Foundations SilentCompose.Toolkit SilentCompose.Compose SilentCompose.Engine

/-! ## With nothing held back -/

section Idle

variable (keyvalToUnicode : KeyvalToUnicode)

/-- A press with AltGr active once the session is updated for it. -/
def IsAltgrPress (self : ScEngine) (event : KeyEvent) : Prop :=
  hits event.state ibusReleaseMask = false ∧
    altgrActive event.state (updateAltgrSession self event.key event.state).2.altgr = true

instance (self : ScEngine) (event : KeyEvent) : Decidable (IsAltgrPress self event) :=
  inferInstanceAs (Decidable
    (hits event.state ibusReleaseMask = false ∧
      altgrActive event.state (updateAltgrSession self event.key event.state).2.altgr = true))

/-- The symbol Windows produces for a key event with AltGr at its Shift level: that of the
key's entry, or that of the entry whose symbol at this level the layout has already put in
place of the key. -/
inductive IsWindowsSymbol (key code state : Guint) : Gunichar → Prop
  | entry {symbol : WinIntlSymbol} (hmem : symbol ∈ winIntlSymbols)
      (hmatch : symbol.Matches key code)
      (hnonzero : symbol.symbolAt (hits state ibusShiftMask) ≠ 0) :
      IsWindowsSymbol key code state (symbol.symbolAt (hits state ibusShiftMask))
  | translated {symbol : WinIntlSymbol} (hcode : code = 0)
      (hnone : ∀ other ∈ winIntlSymbols, ¬other.Matches key code)
      (hmem : symbol ∈ winIntlSymbols)
      (hvalue : keyvalToUnicode key = symbol.symbolAt (hits state ibusShiftMask))
      (hnonzero : symbol.symbolAt (hits state ibusShiftMask) ≠ 0) :
      IsWindowsSymbol key code state (symbol.symbolAt (hits state ibusShiftMask))

/-- Nothing is held back afterwards, and what is sent, if anything, is the symbol Windows
produces for the key. -/
def ProducesOnlySymbol (r : Record ScEngine Call Reply) (event : KeyEvent) : Prop :=
  isPending r.post = false ∧
    (r.output.commits = [] ∨ ∃ c : Char, ∃ text,
      IsWindowsSymbol keyvalToUnicode event.key event.code event.state c.val ∧
      text.bytes = encode [c] ∧ r.output.commits = [text])

/-- An accent key without Control, Mod1, Super and Mod4 for which Windows produces no
symbol. -/
def IsUnmappedAccent (event : KeyEvent) : Prop :=
  (∃ accent literal, pendingFromKey event.key = some (accent, literal)) ∧
    hits event.state ibusMod1Mask = false ∧ blockedChord event.state = false ∧
    ∀ ch, ¬IsWindowsSymbol keyvalToUnicode event.key event.code event.state ch

/-- A key without a keycode and an entry whose Unicode value is a symbol of the table at the
other Shift level, and no symbol at the event's own. -/
structure IsOtherLevelKey (event : KeyEvent) : Prop where
  notAltgrKey : isAltgrModifierKey event.key = false
  unblocked : blockedChord event.state = false
  noCode : event.code = 0
  noEntry : ∀ symbol ∈ winIntlSymbols, ¬symbol.Matches event.key event.code
  nonzero : keyvalToUnicode event.key ≠ 0
  atOther : ∃ symbol ∈ winIntlSymbols,
    keyvalToUnicode event.key = symbol.symbolAt (!hits event.state ibusShiftMask)
  notAtOwn : ∀ symbol ∈ winIntlSymbols,
    keyvalToUnicode event.key ≠ symbol.symbolAt (hits event.state ibusShiftMask)

section Symbols

variable {keyvalToUnicode}

/-- Every symbol of Windows is one that the table yields. -/
theorem IsWindowsSymbol.isTableSymbol {key code state : Guint} {ch : Gunichar}
    (h : IsWindowsSymbol keyvalToUnicode key code state ch) :
    IsTableSymbol keyvalToUnicode key code state ch := by
  cases h with
  | entry hmem hmatch hnonzero => exact .entry hmem hmatch hnonzero
  | @translated symbol hcode hnone hmem hvalue hnonzero =>
      have hcolumn := symbol.symbolAt_cases (hits state ibusShiftMask)
      rw [← hvalue] at hnonzero hcolumn ⊢
      exact .translated hcode hnone hmem hcolumn hnonzero

/-- A symbol that the table yields is that of Windows, unless it stands at the other Shift
level only. -/
theorem isWindowsSymbol_of_tableSymbol {event : KeyEvent} {ch : Gunichar}
    (hkey : isAltgrModifierKey event.key = false) (hblocked : blockedChord event.state = false)
    (htable : IsTableSymbol keyvalToUnicode event.key event.code event.state ch)
    (hlevel : ¬IsOtherLevelKey keyvalToUnicode event) :
    IsWindowsSymbol keyvalToUnicode event.key event.code event.state ch := by
  cases htable with
  | entry hmem hmatch hnonzero => exact .entry hmem hmatch hnonzero
  | @translated symbol hcode hnone hmem hcolumn hnonzero =>
      by_cases hown : ∃ other ∈ winIntlSymbols,
          keyvalToUnicode event.key = other.symbolAt (hits event.state ibusShiftMask)
      · rcases hown with ⟨other, hother, hvalue⟩
        rw [hvalue] at hnonzero ⊢
        exact .translated hcode hnone hother hvalue hnonzero
      · refine absurd ⟨hkey, hblocked, hcode, hnone, hnonzero, ⟨symbol, hmem, ?_⟩, ?_⟩ hlevel
        · have hnot : keyvalToUnicode event.key ≠
              symbol.symbolAt (hits event.state ibusShiftMask) :=
            fun hvalue => hown ⟨symbol, hmem, hvalue⟩
          cases hshift : hits event.state ibusShiftMask with
          | true =>
              rw [hshift] at hnot
              exact hcolumn.resolve_right hnot
          | false =>
              rw [hshift] at hnot
              exact hcolumn.resolve_left hnot
        · intro other hother hvalue
          exact hown ⟨other, hother, hvalue⟩

/-- Windows produces nothing for a key whose value is a symbol at the other Shift level. -/
theorem IsOtherLevelKey.not_isWindowsSymbol {event : KeyEvent}
    (h : IsOtherLevelKey keyvalToUnicode event) (ch : Gunichar) :
    ¬IsWindowsSymbol keyvalToUnicode event.key event.code event.state ch := by
  intro hsymbol
  cases hsymbol with
  | entry hmem hmatch hnonzero => exact h.noEntry _ hmem hmatch
  | translated hcode hnone hmem hvalue hnonzero => exact h.notAtOwn _ hmem hvalue

/-- The table yields the value of such a key all the same. -/
theorem IsOtherLevelKey.isTableSymbol {event : KeyEvent}
    (h : IsOtherLevelKey keyvalToUnicode event) :
    IsTableSymbol keyvalToUnicode event.key event.code event.state (keyvalToUnicode event.key) := by
  obtain ⟨symbol, hmem, hvalue⟩ := h.atOther
  have hcolumn := symbol.symbolAt_cases (!hits event.state ibusShiftMask)
  rw [← hvalue] at hcolumn
  exact .translated h.noCode h.noEntry hmem hcolumn h.nonzero

end Symbols

theorem updateAltgrSession_altgr {self : ScEngine} {key : Guint} (state : Guint)
    (hkey : isAltgrModifierKey key = false) :
    (updateAltgrSession self key state).2.altgr = self.altgr := by
  simp [updateAltgrSession, hkey]

theorem exists_pendingFromKey_iff {key : Guint} :
    (∃ accent literal, pendingFromKey key = some (accent, literal)) ↔
      (Accent.ofKey key).isSome = true := by
  rw [pendingFromKey_eq]
  cases Accent.ofKey key <;> simp

/-- An AltGr press that meets no held accent produces only its symbol, exactly when it is
neither an accent key without a symbol nor a key of the other Shift level. -/
theorem producesOnlySymbol_iff {keyvalToUnicode : KeyvalToUnicode} {held' : Option Accent}
    {altgr altgr' : Bool} {event : KeyEvent} {reply : Reply}
    (hstep : EngineStep keyvalToUnicode none altgr (.processKeyEvent event) reply held' altgr')
    (hpress : IsAltgrPress (.holding none altgr) event) :
    ProducesOnlySymbol keyvalToUnicode
        (stepRecord none altgr (.processKeyEvent event) reply held' altgr') event ↔
      ¬(IsUnmappedAccent keyvalToUnicode event ∨ IsOtherLevelKey keyvalToUnicode event) := by
  rcases hpress with ⟨hdown, hactive⟩
  rw [IsUnmappedAccent, exists_pendingFromKey_iff, not_or]
  cases hstep with
  | lifecycle hcall => exact absurd rfl (hcall event)
  | altgrKey hkey =>
      have haccent : Accent.ofKey event.key = none := by
        simp only [isAltgrModifierKey, decide_eq_true_eq] at hkey
        rcases hkey with hkey | hkey | hkey <;> rw [hkey] <;> decide
      have hlevel : ¬IsOtherLevelKey keyvalToUnicode event := by
        intro h
        rw [h.notAltgrKey] at hkey
        cases hkey
      simp [ProducesOnlySymbol, haccent, hlevel]
  | @passed _ _ c hkey hchar =>
      rw [updateAltgrSession_altgr event.state hkey, holding_altgr] at hactive
      have haccepted := passthroughRefused_of_passthroughChar keyvalToUnicode hchar
      have htable := (passthroughChar_eq_some_iff keyvalToUnicode hactive haccepted).mp hchar
      have hbytes := CString.ofText_bytes (zeroFree_of_passthroughChar keyvalToUnicode hchar)
      apply Iff.intro
      · intro h
        obtain ⟨-, hnone | ⟨c', text, hsymbol, htext, hcommits⟩⟩ := h
        · cases hnone
        · cases hcommits
          obtain rfl : c = c' := by simpa using encode_injective (hbytes.symm.trans htext)
          refine ⟨fun h => h.2.2.2 _ hsymbol, fun hlevel => ?_⟩
          exact hlevel.not_isWindowsSymbol _ hsymbol
      · intro h
        rcases h with ⟨-, hlevel⟩
        have hblocked : blockedChord event.state = false := by
          simp only [passthroughRefused, Bool.or_eq_false_iff] at haccepted
          exact haccepted.1.2
        have hsymbol := isWindowsSymbol_of_tableSymbol hkey hblocked htable hlevel
        exact ⟨rfl, .inr ⟨c, .ofText [c], hsymbol, hbytes, rfl⟩⟩
  | @opened _ _ accent hkey hchar hopen =>
      rw [updateAltgrSession_altgr event.state hkey, holding_altgr] at hactive
      have haccent := (press_of_openedAccent hopen).2
      rw [openedAccent_translateMods] at hopen
      split_ifs at hopen with hrefused
      simp only [Bool.or_eq_true, not_or, Bool.not_eq_true] at hrefused
      rcases hrefused with ⟨-, hmod1, hblocked⟩
      have haccepted := passthroughRefused_of_active hactive hdown hblocked
      have hnone := not_isTableSymbol_of_passthroughChar keyvalToUnicode hactive haccepted hchar
      apply iff_of_false
      · simp [ProducesOnlySymbol]
      · intro h
        refine h.1 ⟨by simp [haccent], hmod1, hblocked, fun ch hsymbol => ?_⟩
        exact hnone ch hsymbol.isTableSymbol
  | ignored hkey hchar hopen =>
      rw [updateAltgrSession_altgr event.state hkey, holding_altgr] at hactive
      apply iff_of_true
      · exact ⟨rfl, .inl rfl⟩
      · refine ⟨?_, ?_⟩
        · intro h
          rcases h with ⟨haccent, hmod1, hblocked, -⟩
          have hnone : Accent.ofKey event.key = none := by
            simpa [openedAccent_translateMods, hdown, hmod1, hblocked] using hopen
          rw [hnone] at haccent
          cases haccent
        · intro hlevel
          have haccepted := passthroughRefused_of_active hactive hdown hlevel.unblocked
          exact not_isTableSymbol_of_passthroughChar keyvalToUnicode hactive haccepted hchar _
            hlevel.isTableSymbol

/-- **AltGr with nothing held back produces the symbol of Windows and nothing else exactly
when** the key is neither an accent key for which Windows produces nothing nor, without a
keycode, a symbol of the other Shift level, at every step of every run. -/
theorem altgrPress_idle_iff (calls : List Call) :
    ∀ r ∈ (engine keyvalToUnicode).trace calls, ∀ event, r.input = .processKeyEvent event →
      isPending r.pre = false → IsAltgrPress r.pre event →
        (ProducesOnlySymbol keyvalToUnicode r event ↔
          ¬(IsUnmappedAccent keyvalToUnicode event ∨ IsOtherLevelKey keyvalToUnicode event)) := by
  intro r hmem event hinput hidle hpress
  obtain ⟨held, altgr, reply, held', altgr', rfl, hstep⟩ :=
    exists_engineStep_of_event keyvalToUnicode hmem hinput
  obtain rfl : held = none := by simpa using hidle
  exact producesOnlySymbol_iff hstep hpress

end Idle

/-- AltGr and `5`: the Euro sign and nothing else. -/
theorem altgrPress_idle_small :
    ProducesOnlySymbol smallKeyvalToUnicode
      ((engine smallKeyvalToUnicode).record scEngineInit
        (.processKeyEvent ⟨0x35, 6, ibusMod5Mask⟩)) ⟨0x35, 6, ibusMod5Mask⟩ := by
  refine (altgrPress_idle_iff smallKeyvalToUnicode [.processKeyEvent ⟨0x35, 6, ibusMod5Mask⟩] _
    (List.mem_cons_self ..) _ rfl (by decide) (by decide)).mpr ?_
  intro h
  rcases h with hunmapped | hlevel
  · exact absurd hunmapped.1 (by rw [exists_pendingFromKey_iff]; decide)
  · exact absurd hlevel.noCode (by decide)

/-- The registered sign without a keycode, with Shift: Windows produces nothing with AltGr,
Shift and `r`, but the sign of the other level is sent. -/
example : IsOtherLevelKey smallKeyvalToUnicode ⟨0xae, 0, ibusMod5Mask ||| ibusShiftMask⟩ ∧
    ((engine smallKeyvalToUnicode).step scEngineInit
      (.processKeyEvent ⟨0xae, 0, ibusMod5Mask ||| ibusShiftMask⟩)).1.commits =
        [.ofText ['®']] := by
  refine ⟨⟨?_, ?_, ?_, ?_, ?_, ?_, ?_⟩, ?_⟩ <;> decide

/-- AltGr with Shift and `6`: Windows produces nothing there, but the circumflex opens
a composition. -/
theorem altgr_circumflex_opens :
    IsAltgrPress scEngineInit ⟨0x5e, 7, ibusMod5Mask ||| ibusShiftMask⟩ ∧
      isPending ((engine smallKeyvalToUnicode).step scEngineInit
        (.processKeyEvent ⟨0x5e, 7, ibusMod5Mask ||| ibusShiftMask⟩)).2 ≠ false := by
  decide

/-! ## With an accent held back -/

section Held

variable (keyvalToUnicode : KeyvalToUnicode)

/-- The event is consumed, nothing is held back afterwards, and the text sent ends with
the symbol. -/
def EndsWithSymbol (r : Record ScEngine Call Reply) (symbol : CString) : Prop :=
  r.output.returned = some true ∧ isPending r.post = false ∧
    symbol.bytes <:+ r.output.commits.flatMap CString.bytes

/-- Without Mod1, the key is a navigation key, or its keysym denotes the symbol, or a rule
composes it with the held accent to the symbol. -/
def KeysymLeadsTo (self : ScEngine) (event : KeyEvent) (symbol : CString) : Prop :=
  hits event.state ibusMod1Mask = false ∧
    (isNonPrintableNavigationKey event.key = true ∨
      ∃ c, keyScalar event.key = some c ∧
        (symbol.bytes = encode [c] ∨
          ∃ rule ∈ composeRules, rule.accent = self.compose.pending ∧ rule.input = c.val ∧
            symbol.bytes = encode rule.output.toList))

/-- Only the Space key denotes a space. -/
theorem eq_space_of_keyScalar {key : Guint} (h : keyScalar key = some ' ') : key = 0x20 := by
  have hinput : keyToUnicode key = some 0x20 := by rw [keyToUnicode_eq, h]; rfl
  rw [keyToUnicode] at hinput
  split_ifs at hinput with hascii _ hunicode _ hlatin1 _
  · exact Option.some.inj hinput
  · have hkey := Option.some.inj hinput
    grind
  · exact Option.some.inj hinput

/-- A completed sequence ends with a character above ASCII exactly when the key is that
character or a rule composes it to that character. -/
theorem completion_suffix_iff (accent : Accent) {c symbol : Char} (hspace : c ≠ ' ')
    (habove : 0x80 ≤ symbol.val) :
    encode [symbol] <:+ encode (accent.completion c) ↔
      c = symbol ∨ ∃ rule ∈ composeRules, rule.accent = accent.pending ∧ rule.input = c.val ∧
        rule.output.toList = [symbol] := by
  have hdistinct : symbol ≠ accent.literal := by
    intro heq
    subst heq
    revert habove
    cases accent <;> decide
  have hascii : ∀ rule ∈ composeRules, rule.input = c.val → c ≠ symbol := by
    intro rule hmem hinput heq
    have hlow := (rule_input_ascii rule hmem).2
    rw [hinput, heq] at hlow
    exact absurd hlow (UInt32.not_lt.mpr habove)
  rw [encode_suffix_iff]
  rcases accent.completion_cases c with
    ⟨halone, heq⟩ | ⟨rule, hmem, haccent, hinput, heq⟩ | ⟨-, -, hnone, heq⟩ <;>
    rw [heq]
  · -- the zero scalar is no symbol, and no rule is for it
    have hzero := halone.resolve_left hspace
    apply iff_of_false
    · simp [List.suffix_cons_iff, hdistinct]
    · intro h
      rcases h with rfl | ⟨rule, hmem, -, hinput, -⟩
      · exact ne_zero_of_aboveAscii habove hzero
      · have hlow := (rule_input_ascii rule hmem).1
        rw [hinput, hzero] at hlow
        exact absurd hlow (by decide)
  · obtain ⟨letter, hletter⟩ := List.length_eq_one_iff.mp (rule_output_single rule hmem).1
    apply Iff.intro
    · intro hsuffix
      refine .inr ⟨rule, hmem, haccent, hinput, hletter.trans ?_⟩
      simpa [hletter, List.suffix_cons_iff, eq_comm] using hsuffix
    · intro h
      rcases h with heq | ⟨other, hmem', haccent', hinput', hsymbol⟩
      · exact absurd heq (hascii rule hmem hinput)
      · rw [rule_output_unique hmem hmem' (haccent.trans haccent'.symm)
          (hinput.trans hinput'.symm), hsymbol]
  · have hrules : ¬∃ rule ∈ composeRules, rule.accent = accent.pending ∧ rule.input = c.val ∧
        rule.output.toList = [symbol] := by
      intro h
      rcases h with ⟨rule, hmem, haccent, hinput, -⟩
      exact hnone rule hmem haccent hinput
    rw [or_iff_left hrules]
    simp [List.suffix_cons_iff, hdistinct, eq_comm]

/-- A press with AltGr for which the table has a symbol: no Control, Super or Mod4, and
no AltGr key, Escape, Backspace or Space. -/
def IsSymbolPress (self : ScEngine) (event : KeyEvent) (symbol : CString) : Prop :=
  IsAltgrPress self event ∧ blockedChord event.state = false ∧
    isAltgrModifierKey event.key = false ∧ isCancelKey event.key = false ∧ event.key ≠ 0x20 ∧
    passthroughText keyvalToUnicode event.key event.code event.state self.altgr = some symbol

instance (self : ScEngine) (event : KeyEvent) (symbol : CString) :
    Decidable (IsSymbolPress keyvalToUnicode self event symbol) :=
  inferInstanceAs (Decidable
    (IsAltgrPress self event ∧ blockedChord event.state = false ∧
      isAltgrModifierKey event.key = false ∧ isCancelKey event.key = false ∧ event.key ≠ 0x20 ∧
      passthroughText keyvalToUnicode event.key event.code event.state self.altgr = some symbol))

/-- A key that is read as text leads to a symbol above ASCII exactly when the completed
sequence ends with it. -/
theorem keysymLeadsTo_of_text {accent : Accent} {altgr : Bool} {event : KeyEvent}
    {c symbol : Char} (hmod1 : hits event.state ibusMod1Mask = false)
    (htext : keyEffect event.key = .text c) (habove : 0x80 ≤ symbol.val) :
    KeysymLeadsTo (.holding (some accent) altgr) event (.ofText [symbol]) ↔
      c = symbol ∨ ∃ rule ∈ composeRules, rule.accent = accent.pending ∧ rule.input = c.val ∧
        rule.output.toList = [symbol] := by
  have hscalar := keyScalar_of_keyEffect htext
  have hnav : isNonPrintableNavigationKey event.key = false := by
    apply Bool.eq_false_iff.mpr
    intro hnav
    rw [keyScalar_eq_none_of_function (isFunctionKeyval_of_navigation hnav)] at hscalar
    cases hscalar
  have hfree : ZeroFree [symbol] := by simpa [ZeroFree] using ne_zero_of_aboveAscii habove
  have hsymbol : ∀ chars : List Char,
      (CString.ofText [symbol]).bytes = encode chars ↔ chars = [symbol] := by
    intro chars
    rw [CString.ofText_bytes hfree, encode_injective.eq_iff, eq_comm]
  simp only [KeysymLeadsTo, hmod1, hnav, hscalar, hsymbol, true_and, Bool.false_eq_true, false_or,
    Option.some.injEq, exists_eq_left', List.cons.injEq, and_true, holding_compose,
    holding_some_pending]

/-- A symbol press that meets a held accent ends with its symbol exactly when its keysym
leads there. -/
theorem endsWithSymbol_iff {keyvalToUnicode : KeyvalToUnicode} {accent : Accent}
    {held' : Option Accent} {altgr altgr' : Bool} {event : KeyEvent} {reply : Reply}
    {symbol : CString}
    (hstep : EngineStep keyvalToUnicode (some accent) altgr (.processKeyEvent event) reply held'
      altgr')
    (hpress : IsSymbolPress keyvalToUnicode (.holding (some accent) altgr) event symbol) :
    EndsWithSymbol (stepRecord (some accent) altgr (.processKeyEvent event) reply held' altgr')
        symbol ↔
      KeysymLeadsTo (.holding (some accent) altgr) event symbol := by
  rcases hpress with ⟨⟨hdown, -⟩, hblocked, haltgrKey, hcancel, hspace, hsymbol⟩
  rw [passthroughText_eq, holding_altgr, Option.map_eq_some_iff] at hsymbol
  rcases hsymbol with ⟨c, hpassed, rfl⟩
  have habove := (passthroughChar_eq_some keyvalToUnicode hpassed).1
  cases hstep with
  | lifecycle hcall => exact absurd rfl (hcall event)
  | altgrKey hkey => simp [hkey] at haltgrKey
  | cancelled hkey heffect =>
      simp [isCancelKey_of_keyEffect (press_of_heldEffect heffect (by simp)).2] at hcancel
  | flushed hkey heffect hchar =>
      rw [hpassed] at hchar
      cases hchar
  | flushedPassed hkey heffect hchar =>
      obtain rfl : c = _ := Option.some.inj (hpassed.symm.trans hchar)
      have hnav := isNavigation_of_keyEffect (press_of_heldEffect heffect (by simp)).2
      have hmod1 := (noShortcut_of_heldEffect heffect (by simp) (by simp)).1
      apply Iff.intro
      · intro _
        exact ⟨hmod1, .inl hnav⟩
      · intro _
        exact ⟨rfl, rfl, by simp⟩
  | @completed _ _ _ read hkey heffect =>
      have htext := (press_of_heldEffect heffect (by simp)).2
      have hmod1 := (noShortcut_of_heldEffect heffect (by simp) (by simp)).1
      have hnotSpace : read ≠ ' ' := by
        intro heq
        subst heq
        exact hspace (eq_space_of_keyScalar (keyScalar_of_keyEffect htext))
      rw [keysymLeadsTo_of_text hmod1 htext habove, ← completion_suffix_iff accent hnotSpace habove]
      have hfree := zeroFree_of_passthroughChar keyvalToUnicode hpassed
      simp [EndsWithSymbol, CString.ofText_bytes hfree,
        CString.ofText_bytes (accent.completion_zeroFree read)]
  | silent hkey heffect =>
      apply Iff.intro
      · intro h
        rcases h with ⟨hreturned, -⟩
        cases hreturned
      · intro h
        rcases h with ⟨hmod1, hleads⟩
        have hsilent : keyEffect event.key = .silent := by
          simpa [heldEffect_translateMods, hdown, hmod1, hblocked] using heffect
        have hcompletes : completesSequence event.key = true := by
          rcases hleads with hnav | ⟨input, hinput, -⟩
          · simp [completesSequence, hcancel, hnav]
          · simp [completesSequence, hcancel, keyToUnicode_eq, hinput]
        rw [completesSequence_iff, hsilent] at hcompletes
        simp at hcompletes

/-- **A symbol press that meets a held accent ends with its symbol exactly when**, without
Mod1, its key is a navigation key, denotes the symbol, or composes to it, at every step
of every run. -/
theorem altgrPress_pending_iff (calls : List Call) :
    ∀ r ∈ (engine keyvalToUnicode).trace calls, ∀ event, r.input = .processKeyEvent event →
      isPending r.pre = true → ∀ symbol, IsSymbolPress keyvalToUnicode r.pre event symbol →
        (EndsWithSymbol r symbol ↔ KeysymLeadsTo r.pre event symbol) := by
  intro r hmem event hinput hpending symbol hpress
  obtain ⟨held, altgr, reply, held', altgr', rfl, hstep⟩ :=
    exists_engineStep_of_event keyvalToUnicode hmem hinput
  obtain ⟨accent, rfl⟩ : ∃ accent, held = some accent := by
    simpa [Option.isSome_iff_exists] using hpending
  exact endsWithSymbol_iff hstep hpress

end Held

/-- Apostrophe, then AltGr and `e`: the composition is the symbol. -/
theorem altgrPress_pending_small :
    EndsWithSymbol ((engine smallKeyvalToUnicode).record
      ((engine smallKeyvalToUnicode).stateAfter [.processKeyEvent ⟨0x27, 40, 0⟩])
      (.processKeyEvent ⟨0x65, 18, ibusMod5Mask⟩)) (.ofText ['é']) :=
  (altgrPress_pending_iff smallKeyvalToUnicode
    [.processKeyEvent ⟨0x27, 40, 0⟩, .processKeyEvent ⟨0x65, 18, ibusMod5Mask⟩] _
    (List.mem_cons_of_mem _ List.mem_cons_self) _ rfl (by decide) _ (by decide)).mpr
    ⟨by decide, .inr ⟨'e', by decide,
      .inr ⟨{ accent := .acute, input := 'e'.val, output := "é" }, by decide, rfl, rfl, rfl⟩⟩⟩

/-- Apostrophe, then AltGr and `5`: the digit is sent in place of the Euro sign. -/
theorem altgr_euro_lost :
    let self := (engine smallKeyvalToUnicode).stateAfter [.processKeyEvent ⟨0x27, 40, 0⟩]
    IsSymbolPress smallKeyvalToUnicode self ⟨0x35, 6, ibusMod5Mask⟩ (.ofText ['€']) ∧
      ¬ EndsWithSymbol ((engine smallKeyvalToUnicode).record self
        (.processKeyEvent ⟨0x35, 6, ibusMod5Mask⟩)) (.ofText ['€']) := by
  refine ⟨by decide, ?_⟩
  intro h
  rcases h with ⟨-, -, hsuffix⟩
  revert hsuffix
  decide

end SilentCompose.Analysis
