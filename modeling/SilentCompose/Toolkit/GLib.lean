/-
# The GLib functions the engine calls

Flag words, Unicode scalars, UTF-8 and C strings as GLib documents them. A Unicode
value is encoded only after it was validated, so the encoder takes a `Char`, which
cannot hold anything else.
-/

import SilentCompose.Foundations.Utf8

namespace SilentCompose.Toolkit

open SilentCompose.Foundations

/-- GLib's 32-bit unsigned integer. -/
abbrev Guint := UInt32

/-- GLib's 32-bit signed integer. -/
abbrev Gint := Int32

/-- The address of an object that is only passed on; zero is the null pointer. -/
abbrev Pointer := Nat

/-- GLib's 32-bit Unicode value, not necessarily a valid scalar. -/
abbrev Gunichar := UInt32

/-! ## Flags -/

/-- Some bit of `mask` is set in `word`. -/
def hits (word mask : Guint) : Bool := word &&& mask != 0

/-- A union of masks is hit exactly when one of the two is. -/
theorem hits_or (word first second : Guint) :
    hits word (first ||| second) = (hits word first || hits word second) := by
  have hdistrib : word &&& (first ||| second) = word &&& first ||| word &&& second := by
    rw [← UInt32.toBitVec_inj]
    simp [BitVec.and_or_distrib_left]
  have hzero : (word &&& first ||| word &&& second = 0) ↔
      (word &&& first = 0 ∧ word &&& second = 0) := by
    simp only [← UInt32.toBitVec_inj, UInt32.toBitVec_or, UInt32.toBitVec_zero,
      BitVec.or_eq_zero_iff]
  rw [Bool.eq_iff_iff, Bool.or_eq_true]
  simp only [hits, bne_iff_ne, ne_eq, hdistrib, hzero, not_and_or]

/-! ## Scalars and strings -/

/-- `g_unichar_validate`: below 0x110000 and not a surrogate. -/
def gUnicharValidate (ch : Gunichar) : Bool := decide ch.isValidChar

/-- `g_unichar_iscntrl`: the general category Cc, U+0000-U+001F and U+007F-U+009F. -/
def gUnicharIscntrl (ch : Gunichar) : Bool :=
  decide (ch < 0x20) || (decide (0x7f ≤ ch) && decide (ch < 0xa0))

/-- The scalar a validated Unicode value denotes. -/
def validated (ch : Gunichar) (h : gUnicharValidate ch = true) : Char :=
  ⟨ch, of_decide_eq_true h⟩

/-- A Unicode value as a scalar, if it is one. -/
def scalarOf (ch : Gunichar) : Option Char :=
  if hvalid : gUnicharValidate ch then some (validated ch hvalid) else none

/-- `g_unichar_to_utf8`: the bytes it writes; the length it returns is theirs. -/
def gUnicharToUtf8 (ch : Char) : List UInt8 := String.utf8EncodeChar ch

/-- `g_utf8_validate` on a whole string. -/
def gUtf8Validate (str : CString) : Bool := str.bytes.toByteArray.validateUTF8

/-- `g_strdup` of a buffer: the string up to its first zero byte. -/
def gStrdup (buf : List UInt8) : CString := .ofBuffer buf

/-- `g_strconcat` of two strings. -/
def gStrconcat (first second : CString) : CString := first.append second

/-- `g_strlcpy`: at most `destSize - 1` bytes and a closing zero, nothing for a
zero size; the rest of the destination keeps its bytes. -/
def gStrlcpy (dest : List UInt8) (src : CString) (destSize : Nat) : List UInt8 :=
  if destSize = 0 then dest
  else
    let copied := src.bytes.take (destSize - 1)
    copied ++ 0 :: dest.drop (copied.length + 1)

@[simp]
theorem validated_val (ch : Gunichar) (h : gUnicharValidate ch = true) :
    (validated ch h).val = ch := rfl

@[simp]
theorem gUnicharValidate_val (c : Char) : gUnicharValidate c.val = true :=
  decide_eq_true c.valid

@[simp]
theorem validated_of_val (c : Char) (h : gUnicharValidate c.val = true) : validated c.val h = c :=
  rfl

@[simp]
theorem scalarOf_val (c : Char) : scalarOf c.val = some c := by
  simp [scalarOf]

theorem scalarOf_eq_some {ch : Gunichar} {c : Char} (h : scalarOf ch = some c) : c.val = ch := by
  rw [scalarOf] at h
  split_ifs at h with hvalid
  cases h
  rfl

/-- A scalar above ASCII is not zero. -/
theorem ne_zero_of_aboveAscii {ch : Gunichar} (h : 0x80 ≤ ch) : ch ≠ 0 := by
  intro hzero
  rw [hzero] at h
  exact absurd h (by decide)

/-- A string that was made from a text is valid UTF-8, cut or not. -/
theorem gUtf8Validate_ofText (text : List Char) : gUtf8Validate (.ofText text) = true := by
  rw [gUtf8Validate, CString.bytes_ofText, validateUTF8_encode]

/-- A scalar's bytes take one to four places. -/
theorem gUnicharToUtf8_length_le (c : Char) : (gUnicharToUtf8 c).length ≤ 4 := by
  simpa [gUnicharToUtf8] using c.utf8Size_le_four

theorem gUnicharToUtf8_length_pos (c : Char) : 0 < (gUnicharToUtf8 c).length := by
  simpa [gUnicharToUtf8] using c.utf8Size_pos

/-- The bytes of one scalar, closed by a zero and copied, are its string. -/
theorem gStrdup_gUnicharToUtf8 (c : Char) : gStrdup (gUnicharToUtf8 c ++ [0]) = .ofText [c] := by
  rw [gStrdup, CString.ofBuffer_closed, CString.ofText, encode_singleton, gUnicharToUtf8]

/-- A copied scalar stands in front of a closing zero; the bytes behind are untouched. -/
theorem gStrlcpy_ofText {c : Char} (hnonzero : c.val ≠ 0) (dest : List UInt8) {destSize : Nat}
    (hfits : (gUnicharToUtf8 c).length < destSize) :
    gStrlcpy dest (.ofText [c]) destSize =
      gUnicharToUtf8 c ++ 0 :: dest.drop ((gUnicharToUtf8 c).length + 1) := by
  have hfree : ZeroFree [c] := by simpa [ZeroFree] using hnonzero
  have hbytes : (CString.ofText [c]).bytes = gUnicharToUtf8 c := by
    rw [CString.ofText_bytes hfree, encode_singleton, gUnicharToUtf8]
  have hroom : destSize ≠ 0 := by omega
  have hcopied : (gUnicharToUtf8 c).take (destSize - 1) = gUnicharToUtf8 c :=
    List.take_of_length_le (by omega)
  simp only [gStrlcpy, if_neg hroom, hbytes, hcopied]

end SilentCompose.Toolkit
