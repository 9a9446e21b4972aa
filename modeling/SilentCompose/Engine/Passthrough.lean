/-
# AltGr symbols and direct passthrough text

The Windows US-International AltGr table, its lookup by keycode, keysym or
translated symbol, and the text the engine commits itself when no accent is
involved. The conversion of keysyms to Unicode values is a parameter.

The text function writes into a caller's buffer; with the engine's seven bytes
it yields the string of exactly one printable scalar above ASCII, or nothing.
-/

import SilentCompose.Toolkit.IBus

namespace SilentCompose.Engine

open SilentCompose.Foundations SilentCompose.Toolkit

/-! ## The AltGr table -/

/-- One key of the Windows US-International AltGr table. A zero `altgrShift`
means Windows produces nothing there. -/
structure WinIntlSymbol where
  code : Guint
  key : Guint
  shifted : Guint
  altgr : Gunichar
  altgrShift : Gunichar := 0
  deriving DecidableEq

/-- Printable AltGr symbols, by evdev keycode. -/
def winIntlSymbols : List WinIntlSymbol := [
  { code := 2, key := '1'.val, shifted := '!'.val, altgr := 0x00a1, altgrShift := 0x00b9 },
  { code := 3, key := '2'.val, shifted := '@'.val, altgr := 0x00b2 },
  { code := 4, key := '3'.val, shifted := '#'.val, altgr := 0x00b3 },
  { code := 5, key := '4'.val, shifted := '$'.val, altgr := 0x00a4, altgrShift := 0x00a3 },
  { code := 6, key := '5'.val, shifted := '%'.val, altgr := 0x20ac },
  { code := 7, key := '6'.val, shifted := '^'.val, altgr := 0x00bc },
  { code := 8, key := '7'.val, shifted := '&'.val, altgr := 0x00bd },
  { code := 9, key := '8'.val, shifted := '*'.val, altgr := 0x00be },
  { code := 10, key := '9'.val, shifted := '('.val, altgr := 0x2018 },
  { code := 11, key := '0'.val, shifted := ')'.val, altgr := 0x2019 },
  { code := 12, key := '-'.val, shifted := '_'.val, altgr := 0x00a5 },
  { code := 13, key := '='.val, shifted := '+'.val, altgr := 0x00d7, altgrShift := 0x00f7 },
  { code := 16, key := 'q'.val, shifted := 'Q'.val, altgr := 0x00e4, altgrShift := 0x00c4 },
  { code := 17, key := 'w'.val, shifted := 'W'.val, altgr := 0x00e5, altgrShift := 0x00c5 },
  { code := 18, key := 'e'.val, shifted := 'E'.val, altgr := 0x00e9, altgrShift := 0x00c9 },
  { code := 19, key := 'r'.val, shifted := 'R'.val, altgr := 0x00ae },
  { code := 20, key := 't'.val, shifted := 'T'.val, altgr := 0x00fe, altgrShift := 0x00de },
  { code := 21, key := 'y'.val, shifted := 'Y'.val, altgr := 0x00fc, altgrShift := 0x00dc },
  { code := 22, key := 'u'.val, shifted := 'U'.val, altgr := 0x00fa, altgrShift := 0x00da },
  { code := 23, key := 'i'.val, shifted := 'I'.val, altgr := 0x00ed, altgrShift := 0x00cd },
  { code := 24, key := 'o'.val, shifted := 'O'.val, altgr := 0x00f3, altgrShift := 0x00d3 },
  { code := 25, key := 'p'.val, shifted := 'P'.val, altgr := 0x00f6, altgrShift := 0x00d6 },
  { code := 26, key := '['.val, shifted := '{'.val, altgr := 0x00ab },
  { code := 27, key := ']'.val, shifted := '}'.val, altgr := 0x00bb },
  { code := 30, key := 'a'.val, shifted := 'A'.val, altgr := 0x00e1, altgrShift := 0x00c1 },
  { code := 31, key := 's'.val, shifted := 'S'.val, altgr := 0x00df, altgrShift := 0x00a7 },
  { code := 32, key := 'd'.val, shifted := 'D'.val, altgr := 0x00f0, altgrShift := 0x00d0 },
  { code := 38, key := 'l'.val, shifted := 'L'.val, altgr := 0x00f8, altgrShift := 0x00d8 },
  { code := 39, key := ';'.val, shifted := ':'.val, altgr := 0x00b6, altgrShift := 0x00b0 },
  { code := 40, key := '\''.val, shifted := '"'.val, altgr := 0x00b4, altgrShift := 0x00a8 },
  { code := 43, key := '\\'.val, shifted := '|'.val, altgr := 0x00ac, altgrShift := 0x00a6 },
  { code := 44, key := 'z'.val, shifted := 'Z'.val, altgr := 0x00e6, altgrShift := 0x00c6 },
  { code := 46, key := 'c'.val, shifted := 'C'.val, altgr := 0x00a9, altgrShift := 0x00a2 },
  { code := 49, key := 'n'.val, shifted := 'N'.val, altgr := 0x00f1, altgrShift := 0x00d1 },
  { code := 50, key := 'm'.val, shifted := 'M'.val, altgr := 0x00b5 },
  { code := 51, key := ','.val, shifted := '<'.val, altgr := 0x00e7, altgrShift := 0x00c7 },
  { code := 53, key := '/'.val, shifted := '?'.val, altgr := 0x00bf }
]

section Passthrough

variable (keyvalToUnicode : KeyvalToUnicode)

/-- The Windows symbol of an AltGr key event: by keycode when there is one, else
by base or shifted keysym, else as an already translated symbol. The second scan
matches a keysym without a Unicode value against a zero column too. -/
def winIntlLookup (key code state : Guint) (altgr : Bool) : Option Gunichar :=
  if ¬hits state ibusMod5Mask ∧ ¬altgr then none
  else
    let shifted := hits state ibusShiftMask
    match winIntlSymbols.find? fun symbol =>
        ¬(code ≠ 0 ∧ code ≠ symbol.code) ∧
          ¬(code = 0 ∧ key ≠ symbol.key ∧ key ≠ symbol.shifted) with
    | some symbol =>
      let out := if shifted then symbol.altgrShift else symbol.altgr
      if out ≠ 0 then some out else none
    | none =>
      if code = 0 then
        let ch := keyvalToUnicode key
        if winIntlSymbols.any fun symbol => ch = symbol.altgr ∨ ch = symbol.altgrShift then
          some ch
        else
          none
      else
        none

/-! ## Writing and committing text -/

/-- Write one validated non-ASCII printable scalar into `buf`; reports whether it
did, and the buffer afterwards. -/
def writePassthroughChar (ch : Gunichar) (buf : List UInt8) (bufSize : Nat) :
    Bool × List UInt8 :=
  if ch < 0x80 then (false, buf)
  else if hvalid : gUnicharValidate ch then
    if gUnicharIscntrl ch then (false, buf)
    else
      let utf8 := gUnicharToUtf8 (validated ch hvalid)
      let len := utf8.length
      if len ≤ 0 ∨ len ≥ bufSize then (false, buf)
      else (true, gStrlcpy buf (gStrdup (utf8 ++ [0])) bufSize)
  else (false, buf)

/-- Build commit text for Windows US-International AltGr characters, and for
non-ASCII characters the layout produced without AltGr. -/
def scEnginePassthroughText (key code state : Guint) (altgr : Bool) (buf : List UInt8)
    (bufSize : Nat) : Bool × List UInt8 :=
  if hits state ibusReleaseMask then (false, buf)
  else if hits state (ibusControlMask ||| ibusSuperMask ||| ibusMod4Mask) then (false, buf)
  else if hits state ibusMod1Mask ∧ ¬hits state ibusMod5Mask ∧ ¬altgr then (false, buf)
  else
    match winIntlLookup keyvalToUnicode key code state altgr with
    | some ch => writePassthroughChar ch buf bufSize
    | none =>
      if hits state ibusMod5Mask ∨ altgr then (false, buf)
      else writePassthroughChar (keyvalToUnicode key) buf bufSize

/-- The texts sent to the client for a string: one, unless it is missing, empty
or not valid UTF-8. -/
def commitString (str : Option CString) : List CString :=
  match str with
  | none => []
  | some text =>
    if text.bytes = [] then []
    else if gUtf8Validate text then [text]
    else []

/-- The string the text function leaves in the engine's seven-byte buffer. -/
def passthroughText (key code state : Guint) (altgr : Bool) : Option CString :=
  match scEnginePassthroughText keyvalToUnicode key code state altgr (List.replicate 7 0) 7 with
  | (true, passthrough) => some (gStrdup passthrough)
  | (false, _) => none

/-- Commit passthrough text when there is some; reports whether there was, and
the texts sent. -/
def commitPassthrough (key code state : Guint) (altgr : Bool) : Bool × List CString :=
  match passthroughText keyvalToUnicode key code state altgr with
  | some passthrough => (true, commitString (some passthrough))
  | none => (false, [])

/-- An AltGr chord of the engine's own tracking should not reach the client. -/
def consumeAltgrChord (altgr : Bool) (state : Guint) : Bool :=
  altgr && !hits state (ibusControlMask ||| ibusSuperMask ||| ibusMod4Mask)

end Passthrough

/-! ## Which character passes through -/

/-- AltGr is active: Mod5 is reported or the engine tracks a held AltGr key. -/
def altgrActive (state : Guint) (altgr : Bool) : Bool := hits state ibusMod5Mask || altgr

/-- Control, Super or Mod4 is down. -/
def blockedChord (state : Guint) : Bool :=
  hits state (ibusControlMask ||| ibusSuperMask ||| ibusMod4Mask)

/-- A release, a blocked chord, or Alt without AltGr: no text of any kind. -/
def passthroughRefused (state : Guint) (altgr : Bool) : Bool :=
  hits state ibusReleaseMask || blockedChord state ||
    (hits state ibusMod1Mask && !altgrActive state altgr)

/-- With AltGr active only a release and a blocked chord are refused. -/
theorem passthroughRefused_of_active {state : Guint} {altgr : Bool}
    (hactive : altgrActive state altgr = true) (hpress : hits state ibusReleaseMask = false)
    (hblocked : blockedChord state = false) : passthroughRefused state altgr = false := by
  simp [passthroughRefused, hactive, hpress, hblocked]

/-- A printable scalar above ASCII. -/
def aboveAscii (ch : Gunichar) : Option Char :=
  if hvalid : gUnicharValidate ch then
    if ch < 0x80 ∨ gUnicharIscntrl ch then none else some (validated ch hvalid)
  else none

theorem aboveAscii_eq_some {ch : Gunichar} {c : Char} (h : aboveAscii ch = some c) :
    c.val = ch ∧ 0x80 ≤ ch ∧ gUnicharIscntrl ch = false := by
  rw [aboveAscii] at h
  split_ifs at h with hvalid hrange
  simp only [not_or, Bool.not_eq_true] at hrange
  cases h
  exact ⟨rfl, UInt32.not_lt.mp hrange.1, hrange.2⟩

theorem aboveAscii_eq_some_iff {ch : Gunichar} {c : Char} :
    aboveAscii ch = some c ↔ c.val = ch ∧ 0x80 ≤ ch ∧ gUnicharIscntrl ch = false := by
  apply Iff.intro
  · exact aboveAscii_eq_some
  · intro h
    rcases h with ⟨rfl, hrange, hprintable⟩
    have hascii : ¬c.val < 0x80 := UInt32.not_lt.mpr hrange
    simp [aboveAscii, hascii, hprintable]

/-- The writer writes the scalar exactly when it is printable, above ASCII and
fits with its closing zero. -/
theorem writePassthroughChar_eq (ch : Gunichar) (buf : List UInt8) (bufSize : Nat) :
    writePassthroughChar ch buf bufSize =
      match aboveAscii ch with
      | some c =>
        if (gUnicharToUtf8 c).length < bufSize then
          (true, gStrlcpy buf (.ofText [c]) bufSize)
        else (false, buf)
      | none => (false, buf) := by
  rw [writePassthroughChar, aboveAscii]
  by_cases hascii : ch < 0x80
  · simp [hascii]
  · by_cases hvalid : gUnicharValidate ch
    · cases hcntrl : gUnicharIscntrl ch with
      | true => simp [hascii, hvalid]
      | false =>
          have hpos := gUnicharToUtf8_length_pos (validated ch hvalid)
          by_cases hfits : (gUnicharToUtf8 (validated ch hvalid)).length < bufSize
          · have hlen : ¬((gUnicharToUtf8 (validated ch hvalid)).length ≤ 0 ∨
                (gUnicharToUtf8 (validated ch hvalid)).length ≥ bufSize) := by omega
            simp only [hascii, hvalid, hfits, hlen, gStrdup_gUnicharToUtf8, ↓reduceIte, ↓reduceDIte,
              Bool.false_eq_true, or_self]
          · simp [hascii, hvalid, hfits, Nat.le_of_not_lt hfits]
    · simp [hascii, hvalid]

section PassthroughChar

variable (keyvalToUnicode : KeyvalToUnicode)

/-- The character an event passes through: the table symbol while AltGr is
active, the keysym's own character otherwise. -/
def passthroughChar (key code state : Guint) (altgr : Bool) : Option Char :=
  if passthroughRefused state altgr then none
  else if altgrActive state altgr then
    (winIntlLookup keyvalToUnicode key code state altgr).bind aboveAscii
  else aboveAscii (keyvalToUnicode key)

/-- A character that passes through is printable and above ASCII. -/
theorem passthroughChar_eq_some {key code state : Guint} {altgr : Bool} {c : Char}
    (h : passthroughChar keyvalToUnicode key code state altgr = some c) :
    0x80 ≤ c.val ∧ gUnicharIscntrl c.val = false := by
  have habove : ∃ ch, aboveAscii ch = some c := by
    rw [passthroughChar] at h
    split_ifs at h
    · obtain ⟨ch, -, hch⟩ := Option.bind_eq_some_iff.mp h
      exact ⟨ch, hch⟩
    · exact ⟨_, h⟩
  rcases habove with ⟨ch, hch⟩
  obtain ⟨rfl, hrange⟩ := aboveAscii_eq_some hch
  exact hrange

theorem zeroFree_of_passthroughChar {key code state : Guint} {altgr : Bool} {c : Char}
    (h : passthroughChar keyvalToUnicode key code state altgr = some c) : ZeroFree [c] := by
  have hnonzero := ne_zero_of_aboveAscii (passthroughChar_eq_some keyvalToUnicode h).1
  simpa [ZeroFree] using hnonzero

theorem passthroughChar_eq_none_of_refused {key code state : Guint} {altgr : Bool}
    (h : passthroughRefused state altgr = true) :
    passthroughChar keyvalToUnicode key code state altgr = none := by
  simp [passthroughChar, h]

/-- An event that passes a character through is not refused. -/
theorem passthroughRefused_of_passthroughChar {key code state : Guint} {altgr : Bool} {c : Char}
    (h : passthroughChar keyvalToUnicode key code state altgr = some c) :
    passthroughRefused state altgr = false := by
  apply Bool.eq_false_iff.mpr
  intro hrefused
  rw [passthroughChar_eq_none_of_refused keyvalToUnicode hrefused] at h
  cases h

/-- Without AltGr the table is not consulted. -/
theorem winIntlLookup_eq_none {key code state : Guint} {altgr : Bool}
    (h : altgrActive state altgr = false) :
    winIntlLookup keyvalToUnicode key code state altgr = none := by
  simp only [altgrActive, Bool.or_eq_false_iff] at h
  simp [winIntlLookup, h.1, h.2]

/-- The text function writes the event's passthrough character, if it fits. -/
theorem scEnginePassthroughText_eq (key code state : Guint) (altgr : Bool) (buf : List UInt8)
    (bufSize : Nat) :
    scEnginePassthroughText keyvalToUnicode key code state altgr buf bufSize =
      match passthroughChar keyvalToUnicode key code state altgr with
      | some c =>
        if (gUnicharToUtf8 c).length < bufSize then
          (true, gStrlcpy buf (.ofText [c]) bufSize)
        else (false, buf)
      | none => (false, buf) := by
  rw [scEnginePassthroughText, passthroughChar, passthroughRefused, blockedChord]
  cases hrelease : hits state ibusReleaseMask with
  | true => simp
  | false =>
      cases hblocked : hits state (ibusControlMask ||| ibusSuperMask ||| ibusMod4Mask) with
      | true => simp
      | false =>
          cases hactive : altgrActive state altgr with
          | true =>
              have hactive' : hits state ibusMod5Mask = true ∨ altgr = true := by
                simpa [altgrActive] using hactive
              have hplain : ¬(hits state ibusMod1Mask = true ∧
                  ¬hits state ibusMod5Mask = true ∧ ¬altgr = true) := by
                intro h
                rcases h with ⟨-, hmod5, haltgr⟩
                exact hactive'.elim hmod5 haltgr
              simp only [hplain, Bool.false_eq_true, ↓reduceIte, Bool.or_false, Bool.not_true,
                Bool.and_false]
              cases hlookup : winIntlLookup keyvalToUnicode key code state altgr with
              | none => simp [hactive']
              | some ch => simp [writePassthroughChar_eq]
          | false =>
              have hinactive := hactive
              simp only [altgrActive, Bool.or_eq_false_iff] at hinactive
              rw [winIntlLookup_eq_none keyvalToUnicode hactive]
              cases hmod1 : hits state ibusMod1Mask with
              | true => simp [hinactive]
              | false => simp [hinactive, writePassthroughChar_eq]

/-- In the engine's own buffer the size test never rejects. -/
theorem passthroughText_eq (key code state : Guint) (altgr : Bool) :
    passthroughText keyvalToUnicode key code state altgr =
      (passthroughChar keyvalToUnicode key code state altgr).map fun c => .ofText [c] := by
  rw [passthroughText, scEnginePassthroughText_eq]
  cases hchar : passthroughChar keyvalToUnicode key code state altgr with
  | none => rfl
  | some c =>
      have hfits : (gUnicharToUtf8 c).length < 7 := by
        have hle := gUnicharToUtf8_length_le c
        omega
      have hnonzero := ne_zero_of_aboveAscii (passthroughChar_eq_some keyvalToUnicode hchar).1
      have hstring : gStrdup (gUnicharToUtf8 c) = .ofText [c] := by
        rw [gStrdup, CString.ofText, encode_singleton, gUnicharToUtf8]
      simp only [hfits, ↓reduceIte, gStrlcpy_ofText hnonzero _ hfits, Option.map_some]
      rw [gStrdup, CString.ofBuffer_closed, ← gStrdup, hstring]

/-- A nonempty text that begins with a nonzero scalar is always sent. -/
theorem commitString_ofText {c : Char} {text : List Char} (h : c.val ≠ 0) :
    commitString (some (.ofText (c :: text))) = [.ofText (c :: text)] := by
  have hbytes : (CString.ofText (c :: text)).bytes ≠ [] := by
    rw [CString.bytes_ofText, ne_eq, encode_eq_nil_iff]
    simp [CString.kept, h]
  simp [commitString, hbytes, gUtf8Validate_ofText]

/-- A passthrough attempt succeeds exactly when a character passes through, and
then sends it once. -/
theorem commitPassthrough_eq (key code state : Guint) (altgr : Bool) :
    commitPassthrough keyvalToUnicode key code state altgr =
      match passthroughChar keyvalToUnicode key code state altgr with
      | some c => (true, [.ofText [c]])
      | none => (false, []) := by
  rw [commitPassthrough, passthroughText_eq]
  cases hchar : passthroughChar keyvalToUnicode key code state altgr with
  | none => rfl
  | some c =>
      have hnonzero := ne_zero_of_aboveAscii (passthroughChar_eq_some keyvalToUnicode hchar).1
      simp [commitString_ofText hnonzero]

end PassthroughChar

end SilentCompose.Engine
