/-
# The part of IBus the engine reads

IBus delivers a keysym, an evdev keycode and a mask of modifier bits. The masks
and keysyms below are the constants of its public headers. The conversion of a
keysym to a Unicode value is a table of the library, so it stays a parameter;
`LawfulKeyvals` names what its documentation promises.
-/

import SilentCompose.Toolkit.GLib

namespace SilentCompose.Toolkit

open SilentCompose.Foundations

/-! ## Modifier masks -/

/-- `IBUS_SHIFT_MASK` -/
def ibusShiftMask : Guint := (1 : Guint) <<< 0

/-- `IBUS_CONTROL_MASK` -/
def ibusControlMask : Guint := (1 : Guint) <<< 2

/-- `IBUS_MOD1_MASK`, where Alt is reported. -/
def ibusMod1Mask : Guint := (1 : Guint) <<< 3

/-- `IBUS_MOD4_MASK`, where some sessions report Super. -/
def ibusMod4Mask : Guint := (1 : Guint) <<< 6

/-- `IBUS_MOD5_MASK`, where AltGr is reported. -/
def ibusMod5Mask : Guint := (1 : Guint) <<< 7

/-- `IBUS_SUPER_MASK` -/
def ibusSuperMask : Guint := (1 : Guint) <<< 26

/-- `IBUS_RELEASE_MASK`, set on key releases. -/
def ibusReleaseMask : Guint := (1 : Guint) <<< 30

/-! ## Keysyms -/

/-- `IBUS_KEY_ISO_Level3_Shift` -/
def ibusKeyISOLevel3Shift : Guint := 0xfe03

/-- `IBUS_KEY_Mode_switch` -/
def ibusKeyModeSwitch : Guint := 0xff7e

/-- `IBUS_KEY_Alt_R` -/
def ibusKeyAltR : Guint := 0xffea

/-! ## Keysyms as Unicode values -/

/-- `ibus_keyval_to_unicode`: the Unicode value of a keysym, zero if it has none. -/
abbrev KeyvalToUnicode := Guint → Gunichar

/-- A keysym in the two printable Latin-1 ranges, where keysyms are code points. -/
def IsLatin1Keyval (key : Guint) : Prop := (0x20 ≤ key ∧ key ≤ 0x7e) ∨ (0xa0 ≤ key ∧ key ≤ 0xff)

instance (key : Guint) : Decidable (IsLatin1Keyval key) :=
  inferInstanceAs (Decidable ((0x20 ≤ key ∧ key ≤ 0x7e) ∨ (0xa0 ≤ key ∧ key ≤ 0xff)))

/-- A keysym that spells a code point above Latin-1 as an offset from 0x01000000. -/
def IsUnicodeKeyval (key : Guint) : Prop := 0x01000100 ≤ key ∧ key ≤ 0x0110ffff

instance (key : Guint) : Decidable (IsUnicodeKeyval key) :=
  inferInstanceAs (Decidable (0x01000100 ≤ key ∧ key ≤ 0x0110ffff))

/-- The two ranges of character keysyms are apart. -/
theorem not_isLatin1Keyval_of_unicode {key : Guint} (h : IsUnicodeKeyval key) :
    ¬IsLatin1Keyval key := by
  rw [IsUnicodeKeyval] at h
  rw [IsLatin1Keyval]
  grind

/-- A keysym of the function-key page 0xff00-0xffff outside the keypad: editing,
cursor, function and modifier keys. -/
def IsFunctionKeyval (key : Guint) : Prop :=
  (0xff00 ≤ key ∧ key < 0xff80) ∨ (0xffbe ≤ key ∧ key ≤ 0xffff)

instance (key : Guint) : Decidable (IsFunctionKeyval key) :=
  inferInstanceAs
    (Decidable ((0xff00 ≤ key ∧ key < 0xff80) ∨ (0xffbe ≤ key ∧ key ≤ 0xffff)))

/-- What IBus documents of the conversion: printable Latin-1 keysyms are their
own code points, Unicode keysyms spell theirs, and function keys have none. -/
structure LawfulKeyvals (keyvalToUnicode : KeyvalToUnicode) : Prop where
  /-- Printable Latin-1 keysyms are code points. -/
  latin1 : ∀ key, IsLatin1Keyval key → keyvalToUnicode key = key
  /-- Unicode keysyms spell a code point. -/
  unicode : ∀ key, IsUnicodeKeyval key → keyvalToUnicode key = key - 0x01000000
  /-- Function keys have no Unicode value. -/
  function : ∀ key, IsFunctionKeyval key → keyvalToUnicode key = 0

/-- A small conversion: the two lawful ranges, the keypad and the Euro sign. -/
def smallKeyvalToUnicode : KeyvalToUnicode := fun key =>
  if IsLatin1Keyval key then key
  else if IsUnicodeKeyval key then key - 0x01000000
  else if 0xffaa ≤ key ∧ key ≤ 0xffb9 then key - 0xff80
  else if key = 0x20ac then 0x20ac
  else 0

theorem lawfulKeyvals_small : LawfulKeyvals smallKeyvalToUnicode where
  latin1 := by
    intro key hkey
    simp [smallKeyvalToUnicode, hkey]
  unicode := by
    intro key hkey
    simp [smallKeyvalToUnicode, hkey, not_isLatin1Keyval_of_unicode hkey]
  function := by
    intro key hkey
    unfold smallKeyvalToUnicode IsLatin1Keyval IsUnicodeKeyval
    rw [IsFunctionKeyval] at hkey
    grind

end SilentCompose.Toolkit
