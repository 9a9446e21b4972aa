/-
# The AltGr table as a relation

The table yields a symbol for a key: by keycode when the event has one, by base or
shifted keysym otherwise, and as itself where the layout has already translated the key,
whatever the Shift level. No two entries speak of one key, so the first match of the scan is
the only one, and every symbol is printable and above ASCII, so it always becomes text.
-/

import SilentCompose.Engine.Passthrough

namespace SilentCompose.Engine

open SilentCompose.Foundations SilentCompose.Toolkit

namespace WinIntlSymbol

/-- The entry is for this key: by keycode if there is one, else by keysym. -/
def Matches (symbol : WinIntlSymbol) (key code : Guint) : Prop :=
  if code = 0 then key = symbol.key ∨ key = symbol.shifted else code = symbol.code

instance (symbol : WinIntlSymbol) (key code : Guint) : Decidable (symbol.Matches key code) :=
  inferInstanceAs (Decidable
    (if code = 0 then key = symbol.key ∨ key = symbol.shifted else code = symbol.code))

/-- The symbol of the entry at a Shift level, zero where Windows produces nothing. -/
def symbolAt (symbol : WinIntlSymbol) (shifted : Bool) : Gunichar :=
  if shifted then symbol.altgrShift else symbol.altgr

/-- The symbol at a Shift level stands in one of the two columns. -/
theorem symbolAt_cases (symbol : WinIntlSymbol) (shifted : Bool) :
    symbol.symbolAt shifted = symbol.altgr ∨ symbol.symbolAt shifted = symbol.altgrShift := by
  cases shifted with
  | true => exact .inr rfl
  | false => exact .inl rfl

end WinIntlSymbol

/-- The symbols the table yields for a key event with AltGr: that of the key's entry at the
event's Shift level, or the Unicode value of a key without an entry that is a symbol of the
table at either level. -/
inductive IsTableSymbol (keyvalToUnicode : KeyvalToUnicode) (key code state : Guint) :
    Gunichar → Prop
  | entry {symbol : WinIntlSymbol} (hmem : symbol ∈ winIntlSymbols)
      (hmatch : symbol.Matches key code)
      (hnonzero : symbol.symbolAt (hits state ibusShiftMask) ≠ 0) :
      IsTableSymbol keyvalToUnicode key code state (symbol.symbolAt (hits state ibusShiftMask))
  | translated {symbol : WinIntlSymbol} (hcode : code = 0)
      (hnone : ∀ other ∈ winIntlSymbols, ¬other.Matches key code)
      (hmem : symbol ∈ winIntlSymbols)
      (hcolumn : keyvalToUnicode key = symbol.altgr ∨ keyvalToUnicode key = symbol.altgrShift)
      (hnonzero : keyvalToUnicode key ≠ 0) :
      IsTableSymbol keyvalToUnicode key code state (keyvalToUnicode key)

/-! ## Facts about the table -/

/-- No two entries share a keycode or a keysym. -/
theorem winIntlSymbols_disjoint : winIntlSymbols.Pairwise fun first second =>
    first.code ≠ second.code ∧ first.key ≠ second.key ∧ first.key ≠ second.shifted ∧
      first.shifted ≠ second.key ∧ first.shifted ≠ second.shifted := by
  decide

/-- Every symbol of the table is printable and above ASCII. -/
theorem aboveAscii_symbolAt : ∀ symbol ∈ winIntlSymbols, ∀ shifted : Bool,
    symbol.symbolAt shifted ≠ 0 → (aboveAscii (symbol.symbolAt shifted)).isSome = true := by
  decide

/-- Keycodes are not zero, and the base and shifted keysyms are ASCII. -/
theorem winIntlSymbols_keys : ∀ symbol ∈ winIntlSymbols,
    symbol.code ≠ 0 ∧ symbol.key < 0x80 ∧ symbol.shifted < 0x80 := by
  decide

/-- No entry is for a keysym above ASCII that comes without a keycode. -/
theorem not_matches_of_le {symbol : WinIntlSymbol} (hmem : symbol ∈ winIntlSymbols) {key : Guint}
    (hkey : 0x80 ≤ key) : ¬symbol.Matches key 0 := by
  obtain ⟨-, hbase, hshifted⟩ := winIntlSymbols_keys symbol hmem
  rw [WinIntlSymbol.Matches, if_pos rfl]
  intro h
  rcases h with rfl | rfl
  · exact absurd hbase (UInt32.not_lt.mpr hkey)
  · exact absurd hshifted (UInt32.not_lt.mpr hkey)

/-- At most one entry is for a key. -/
theorem matches_unique {first second : WinIntlSymbol} {key code : Guint}
    (hfirst : first ∈ winIntlSymbols) (hsecond : second ∈ winIntlSymbols)
    (hmatch : first.Matches key code) (hmatch' : second.Matches key code) : first = second := by
  have hexclude : winIntlSymbols.Pairwise fun first second =>
      ¬(first.Matches key code ∧ second.Matches key code) := by
    apply winIntlSymbols_disjoint.imp
    intro first second h h'
    rcases h with ⟨hcode, hkey, hkey', hshifted, hshifted'⟩
    rcases h' with ⟨hmatch, hmatch'⟩
    rw [WinIntlSymbol.Matches] at hmatch hmatch'
    split_ifs at hmatch hmatch' with hzero
    · rcases hmatch with rfl | rfl <;> rcases hmatch' with heq | heq <;> contradiction
    · exact hcode (hmatch.symm.trans hmatch')
  refine List.Pairwise.forall_of_forall_of_flip
    (R := fun first second => first.Matches key code → second.Matches key code → first = second)
    (fun _ _ _ _ => rfl) ?_ ?_ hfirst hsecond hmatch hmatch'
  · exact hexclude.imp fun hnot h h' => absurd ⟨h, h'⟩ hnot
  · exact hexclude.imp fun hnot h h' => absurd ⟨h', h⟩ hnot

/-! ## The scan finds the table's symbol -/

section Lookup

variable (keyvalToUnicode : KeyvalToUnicode)

/-- The scan stops at the entry for the key, if there is one. -/
theorem find_eq_some_iff {key code : Guint} {symbol : WinIntlSymbol} :
    winIntlSymbols.find? (fun symbol =>
        ¬(code ≠ 0 ∧ code ≠ symbol.code) ∧
          ¬(code = 0 ∧ key ≠ symbol.key ∧ key ≠ symbol.shifted)) = some symbol ↔
      symbol ∈ winIntlSymbols ∧ symbol.Matches key code := by
  have hmatches : (fun symbol : WinIntlSymbol =>
      decide (¬(code ≠ 0 ∧ code ≠ symbol.code) ∧
        ¬(code = 0 ∧ key ≠ symbol.key ∧ key ≠ symbol.shifted))) =
      fun symbol => decide (symbol.Matches key code) := by
    funext symbol
    by_cases hzero : code = 0 <;> simp [WinIntlSymbol.Matches, hzero]
  rw [hmatches]
  apply Iff.intro
  · intro hfind
    exact ⟨List.mem_of_find?_eq_some hfind, by simpa using List.find?_some hfind⟩
  · intro h
    rcases h with ⟨hmem, hmatch⟩
    cases hfind : winIntlSymbols.find? fun symbol => decide (symbol.Matches key code) with
    | none =>
        have hnot := List.find?_eq_none.mp hfind symbol hmem
        exact absurd hmatch (by simpa using hnot)
    | some other =>
        have hother : other.Matches key code := by simpa using List.find?_some hfind
        rw [matches_unique (List.mem_of_find?_eq_some hfind) hmem hother hmatch]

/-- The source's test for AltGr, which it makes in the negative. -/
theorem altgrActive_iff {state : Guint} {altgr : Bool} :
    altgrActive state altgr = true ↔ ¬(¬hits state ibusMod5Mask = true ∧ ¬altgr = true) := by
  rw [altgrActive]
  cases hits state ibusMod5Mask <;> cases altgr <;> simp

/-- With AltGr active the entry for a key decides. -/
theorem winIntlLookup_of_matches {key code state : Guint} {altgr : Bool} {symbol : WinIntlSymbol}
    (hactive : altgrActive state altgr = true) (hmem : symbol ∈ winIntlSymbols)
    (hmatch : symbol.Matches key code) :
    winIntlLookup keyvalToUnicode key code state altgr =
      if symbol.symbolAt (hits state ibusShiftMask) ≠ 0 then
        some (symbol.symbolAt (hits state ibusShiftMask))
      else none := by
  rw [winIntlLookup, if_neg (altgrActive_iff.mp hactive), find_eq_some_iff.mpr ⟨hmem, hmatch⟩]
  rfl

/-- With AltGr active a key without an entry is looked for among the symbols, if it has no
keycode. -/
theorem winIntlLookup_of_not_matches {key code state : Guint} {altgr : Bool}
    (hactive : altgrActive state altgr = true)
    (hnone : ∀ symbol ∈ winIntlSymbols, ¬symbol.Matches key code) :
    winIntlLookup keyvalToUnicode key code state altgr =
      if code = 0 ∧ ∃ symbol ∈ winIntlSymbols,
          keyvalToUnicode key = symbol.altgr ∨ keyvalToUnicode key = symbol.altgrShift then
        some (keyvalToUnicode key)
      else none := by
  rw [winIntlLookup, if_neg (altgrActive_iff.mp hactive)]
  cases hfind : winIntlSymbols.find? fun symbol =>
      ¬(code ≠ 0 ∧ code ≠ symbol.code) ∧
        ¬(code = 0 ∧ key ≠ symbol.key ∧ key ≠ symbol.shifted) with
  | some symbol =>
      obtain ⟨hmem, hmatch⟩ := find_eq_some_iff.mp hfind
      exact absurd hmatch (hnone symbol hmem)
  | none => simp [ite_and]

/-- **With AltGr active the lookup yields a nonzero value exactly if the table has it
for the key.** -/
theorem winIntlLookup_eq_some_iff {key code state : Guint} {altgr : Bool} {ch : Gunichar}
    (hactive : altgrActive state altgr = true) (hnonzero : ch ≠ 0) :
    winIntlLookup keyvalToUnicode key code state altgr = some ch ↔
      IsTableSymbol keyvalToUnicode key code state ch := by
  by_cases hentry : ∃ symbol ∈ winIntlSymbols, symbol.Matches key code
  · rcases hentry with ⟨symbol, hmem, hmatch⟩
    rw [winIntlLookup_of_matches keyvalToUnicode hactive hmem hmatch]
    apply Iff.intro
    · intro hout
      split_ifs at hout with hout'
      cases hout
      exact .entry hmem hmatch hout'
    · intro htable
      cases htable with
      | entry hmem' hmatch' hnonzero' =>
          rw [matches_unique hmem hmem' hmatch hmatch', if_pos hnonzero']
      | translated hcode hnone hmem' hcolumn hnonzero' => exact absurd hmatch (hnone symbol hmem)
  · have hnone : ∀ symbol ∈ winIntlSymbols, ¬symbol.Matches key code := by simpa using hentry
    rw [winIntlLookup_of_not_matches keyvalToUnicode hactive hnone]
    apply Iff.intro
    · intro hout
      split_ifs at hout with hfound
      rcases hfound with ⟨hcode, symbol, hmem, hcolumn⟩
      cases hout
      exact .translated hcode hnone hmem hcolumn hnonzero
    · intro htable
      cases htable with
      | entry hmem hmatch hnonzero' => exact absurd hmatch (hnone _ hmem)
      | translated hcode hnone' hmem hcolumn hnonzero' =>
          rw [if_pos ⟨hcode, _, hmem, hcolumn⟩]

/-- The lookup yields zero exactly for a key without keycode, entry and Unicode value: the
value of no symbol meets the zero columns of the table. -/
theorem winIntlLookup_eq_some_zero_iff {key code state : Guint} {altgr : Bool}
    (hactive : altgrActive state altgr = true) :
    winIntlLookup keyvalToUnicode key code state altgr = some 0 ↔
      code = 0 ∧ (∀ symbol ∈ winIntlSymbols, ¬symbol.Matches key code) ∧
        keyvalToUnicode key = 0 := by
  by_cases hentry : ∃ symbol ∈ winIntlSymbols, symbol.Matches key code
  · rcases hentry with ⟨symbol, hmem, hmatch⟩
    rw [winIntlLookup_of_matches keyvalToUnicode hactive hmem hmatch]
    apply Iff.intro
    · intro hout
      split_ifs at hout with hout'
      exact absurd (Option.some.inj hout) hout'
    · intro h
      exact absurd hmatch (h.2.1 symbol hmem)
  · have hnone : ∀ symbol ∈ winIntlSymbols, ¬symbol.Matches key code := by simpa using hentry
    rw [winIntlLookup_of_not_matches keyvalToUnicode hactive hnone]
    apply Iff.intro
    · intro hout
      split_ifs at hout with hfound
      exact ⟨hfound.1, hnone, Option.some.inj hout⟩
    · intro h
      rcases h with ⟨hcode, -, hzero⟩
      have hcolumn : ∃ symbol ∈ winIntlSymbols, 0 = symbol.altgr ∨ 0 = symbol.altgrShift := by
        decide
      rw [hzero, if_pos ⟨hcode, hcolumn⟩]

/-- The symbol of a key with an entry is the entry's, unless that is zero. -/
theorem isTableSymbol_iff_of_matches {key code state : Guint} {symbol : WinIntlSymbol}
    {ch : Gunichar} (hmem : symbol ∈ winIntlSymbols) (hmatch : symbol.Matches key code) :
    IsTableSymbol keyvalToUnicode key code state ch ↔
      ch ≠ 0 ∧ ch = symbol.symbolAt (hits state ibusShiftMask) := by
  apply Iff.intro
  · intro htable
    cases htable with
    | entry hmem' hmatch' hnonzero =>
        rw [matches_unique hmem hmem' hmatch hmatch']
        exact ⟨hnonzero, rfl⟩
    | translated hcode hnone hmem' hcolumn hnonzero => exact absurd hmatch (hnone symbol hmem)
  · intro h
    rcases h with ⟨hnonzero, rfl⟩
    exact .entry hmem hmatch hnonzero

/-- The symbol of a key without an entry is its Unicode value, if the key has no keycode and
the value is a symbol of the table. -/
theorem isTableSymbol_iff_of_not_matches {key code state : Guint} {ch : Gunichar}
    (hnone : ∀ symbol ∈ winIntlSymbols, ¬symbol.Matches key code) :
    IsTableSymbol keyvalToUnicode key code state ch ↔
      code = 0 ∧ ch ≠ 0 ∧ ch = keyvalToUnicode key ∧
        ∃ symbol ∈ winIntlSymbols, ch = symbol.altgr ∨ ch = symbol.altgrShift := by
  apply Iff.intro
  · intro htable
    cases htable with
    | entry hmem hmatch hnonzero => exact absurd hmatch (hnone _ hmem)
    | translated hcode hnone' hmem hcolumn hnonzero =>
        exact ⟨hcode, hnonzero, rfl, _, hmem, hcolumn⟩
  · intro h
    rcases h with ⟨hcode, hnonzero, rfl, symbol, hmem, hcolumn⟩
    exact .translated hcode hnone hmem hcolumn hnonzero

/-- Of the modifiers only Shift decides which symbol a key has. -/
theorem isTableSymbol_congr {key code first second : Guint} {ch : Gunichar}
    (h : hits first ibusShiftMask = hits second ibusShiftMask) :
    IsTableSymbol keyvalToUnicode key code first ch ↔
      IsTableSymbol keyvalToUnicode key code second ch := by
  by_cases hentry : ∃ symbol ∈ winIntlSymbols, symbol.Matches key code
  · rcases hentry with ⟨symbol, hmem, hmatch⟩
    rw [isTableSymbol_iff_of_matches keyvalToUnicode hmem hmatch,
      isTableSymbol_iff_of_matches keyvalToUnicode hmem hmatch, h]
  · have hnone : ∀ symbol ∈ winIntlSymbols, ¬symbol.Matches key code := by simpa using hentry
    rw [isTableSymbol_iff_of_not_matches keyvalToUnicode hnone,
      isTableSymbol_iff_of_not_matches keyvalToUnicode hnone]

/-- A symbol of a key stands in one of the two columns of the table, and is not zero. -/
theorem column_of_tableSymbol {key code state : Guint} {ch : Gunichar}
    (htable : IsTableSymbol keyvalToUnicode key code state ch) :
    ch ≠ 0 ∧ ∃ symbol ∈ winIntlSymbols, ch = symbol.altgr ∨ ch = symbol.altgrShift := by
  cases htable with
  | entry hmem hmatch hnonzero => exact ⟨hnonzero, _, hmem, WinIntlSymbol.symbolAt_cases _ _⟩
  | translated hcode hnone hmem hcolumn hnonzero => exact ⟨hnonzero, _, hmem, hcolumn⟩

/-- A key without an entry has a symbol only through its Unicode value. -/
theorem matches_or_ne_zero_of_tableSymbol {key code state : Guint} {ch : Gunichar}
    (htable : IsTableSymbol keyvalToUnicode key code state ch) :
    (∃ symbol ∈ winIntlSymbols, symbol.Matches key code) ∨ keyvalToUnicode key ≠ 0 := by
  cases htable with
  | entry hmem hmatch hnonzero => exact .inl ⟨_, hmem, hmatch⟩
  | translated hcode hnone hmem hcolumn hnonzero => exact .inr hnonzero

/-- A symbol of the table always becomes text. -/
theorem aboveAscii_of_tableSymbol {key code state : Guint} {ch : Gunichar}
    (htable : IsTableSymbol keyvalToUnicode key code state ch) :
    ∃ c, aboveAscii ch = some c ∧ c.val = ch := by
  have hsome : (aboveAscii ch).isSome = true := by
    cases htable with
    | entry hmem hmatch hnonzero => exact aboveAscii_symbolAt _ hmem _ hnonzero
    | translated hcode hnone hmem hcolumn hnonzero =>
        rcases hcolumn with hcolumn | hcolumn <;> rw [hcolumn] at hnonzero ⊢
        · exact aboveAscii_symbolAt _ hmem false hnonzero
        · exact aboveAscii_symbolAt _ hmem true hnonzero
  obtain ⟨c, hc⟩ := Option.isSome_iff_exists.mp hsome
  exact ⟨c, hc, (aboveAscii_eq_some hc).1⟩

/-- **With AltGr active and nothing to refuse the event, what passes through is the
table's symbol for the key.** -/
theorem passthroughChar_eq_some_iff {key code state : Guint} {altgr : Bool} {c : Char}
    (hactive : altgrActive state altgr = true)
    (haccepted : passthroughRefused state altgr = false) :
    passthroughChar keyvalToUnicode key code state altgr = some c ↔
      IsTableSymbol keyvalToUnicode key code state c.val := by
  rw [passthroughChar, haccepted, hactive, if_neg (by simp), if_pos rfl, Option.bind_eq_some_iff]
  apply Iff.intro
  · intro h
    rcases h with ⟨ch, hlookup, habove⟩
    obtain ⟨rfl, hrange, -⟩ := aboveAscii_eq_some habove
    have hnonzero := ne_zero_of_aboveAscii hrange
    exact (winIntlLookup_eq_some_iff keyvalToUnicode hactive hnonzero).mp hlookup
  · intro htable
    obtain ⟨c', habove, hval⟩ := aboveAscii_of_tableSymbol keyvalToUnicode htable
    obtain rfl : c' = c := Char.ext hval
    have hnonzero := ne_zero_of_aboveAscii (aboveAscii_eq_some habove).2.1
    exact ⟨c'.val, (winIntlLookup_eq_some_iff keyvalToUnicode hactive (hval ▸ hnonzero)).mpr htable,
      habove⟩

/-- An event that passes nothing through, with AltGr active and nothing to refuse it, has no
symbol. -/
theorem not_isTableSymbol_of_passthroughChar {key code state : Guint} {altgr : Bool}
    (hactive : altgrActive state altgr = true)
    (haccepted : passthroughRefused state altgr = false)
    (h : passthroughChar keyvalToUnicode key code state altgr = none) (ch : Gunichar) :
    ¬IsTableSymbol keyvalToUnicode key code state ch := by
  intro htable
  obtain ⟨c, -, rfl⟩ := aboveAscii_of_tableSymbol keyvalToUnicode htable
  rw [(passthroughChar_eq_some_iff keyvalToUnicode hactive haccepted).mpr htable] at h
  cases h

/-- With AltGr active a keycode that the table does not list passes nothing through,
whatever the keysym. -/
theorem passthroughChar_of_unlisted {key code state : Guint} {altgr : Bool}
    (hactive : altgrActive state altgr = true) (hcode : code ≠ 0)
    (hunlisted : ∀ symbol ∈ winIntlSymbols, code ≠ symbol.code) :
    passthroughChar keyvalToUnicode key code state altgr = none := by
  have hnone : ∀ symbol ∈ winIntlSymbols, ¬symbol.Matches key code := by
    intro symbol hmem
    rw [WinIntlSymbol.Matches, if_neg hcode]
    exact hunlisted symbol hmem
  have hlookup := winIntlLookup_of_not_matches keyvalToUnicode hactive hnone
  rw [if_neg fun h => absurd h.1 hcode] at hlookup
  simp [passthroughChar, hactive, hlookup]

/-- With AltGr active and nothing to refuse the event a keycode passes its symbol
through, whatever the keysym. -/
theorem passthroughChar_of_listed {symbol : WinIntlSymbol} {key state : Guint} {altgr : Bool}
    (hactive : altgrActive state altgr = true)
    (haccepted : passthroughRefused state altgr = false) (hmem : symbol ∈ winIntlSymbols)
    (hnonzero : symbol.symbolAt (hits state ibusShiftMask) ≠ 0) :
    ∃ c : Char, c.val = symbol.symbolAt (hits state ibusShiftMask) ∧
      passthroughChar keyvalToUnicode key symbol.code state altgr = some c := by
  have hmatch : symbol.Matches key symbol.code := by
    rw [WinIntlSymbol.Matches, if_neg (winIntlSymbols_keys symbol hmem).1]
  have htable : IsTableSymbol keyvalToUnicode key symbol.code state _ := .entry hmem hmatch hnonzero
  obtain ⟨c, -, hc⟩ := aboveAscii_of_tableSymbol keyvalToUnicode htable
  rw [← hc] at htable
  exact ⟨c, hc, (passthroughChar_eq_some_iff keyvalToUnicode hactive haccepted).mpr htable⟩

end Lookup

end SilentCompose.Engine
