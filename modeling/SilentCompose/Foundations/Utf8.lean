/-
# UTF-8 text as bytes

Texts are lists of Unicode scalars; what a program stores and sends is their
encoding. The encoding is injective, valid, and self-synchronizing: a valid text
that ends with the bytes of another valid text ends with its scalars.

A string of the C language ends at its first zero byte, so it cannot hold one.
`CString` carries that fact, and reading a buffer as a string cuts it at the
first zero byte. A text without the zero scalar survives the cut unchanged.
-/

import Mathlib.Data.List.Infix
import Mathlib.Data.List.TakeWhile

namespace SilentCompose.Foundations

/-! ## Encoding -/

/-- The UTF-8 bytes of a list of Unicode scalars. -/
def encode (text : List Char) : List UInt8 := text.flatMap String.utf8EncodeChar

@[simp]
theorem encode_nil : encode [] = [] := rfl

@[simp]
theorem encode_cons (c : Char) (text : List Char) :
    encode (c :: text) = String.utf8EncodeChar c ++ encode text := rfl

@[simp]
theorem encode_append (first second : List Char) :
    encode (first ++ second) = encode first ++ encode second := List.flatMap_append

theorem encode_singleton (c : Char) : encode [c] = String.utf8EncodeChar c := by simp

theorem utf8Encode_eq_encode (text : List Char) :
    text.utf8Encode = (encode text).toByteArray := rfl

/-- Different texts have different bytes. -/
theorem encode_injective : Function.Injective encode := by
  intro first second heq
  have hbytes : first.utf8Encode = second.utf8Encode := by
    rw [utf8Encode_eq_encode, utf8Encode_eq_encode, heq]
  have hdecode := congrArg ByteArray.utf8Decode? hbytes
  simpa using hdecode

/-- The scalars of UTF-8 bytes, none where the bytes are not valid. -/
def decode (bytes : List UInt8) : List Char :=
  match bytes.toByteArray.utf8Decode? with
  | some text => text.toList
  | none => []

/-- Decoding inverts encoding. -/
@[simp]
theorem decode_encode (text : List Char) : decode (encode text) = text := by
  rw [decode, ← utf8Encode_eq_encode, List.utf8Decode?_utf8Encode]

/-- Every encoded text is valid UTF-8. -/
theorem validateUTF8_encode (text : List Char) :
    (encode text).toByteArray.validateUTF8 = true := by
  rw [ByteArray.validateUTF8_eq_true_iff, ← utf8Encode_eq_encode]
  exact ByteArray.isValidUTF8_utf8Encode

theorem utf8EncodeChar_ne_nil (c : Char) : String.utf8EncodeChar c ≠ [] :=
  String.utf8EncodeChar_ne_nil

theorem encode_eq_nil_iff {text : List Char} : encode text = [] ↔ text = [] := by
  apply Iff.intro
  · intro h
    exact encode_injective h
  · intro heq
    subst heq
    rfl

/-! ## Suffixes -/

/-- The first byte of a nonempty encoded text starts a scalar. -/
theorem isUTF8FirstByte_head_encode {text : List Char} {b : UInt8} {rest : List UInt8}
    (h : encode text = b :: rest) : b.IsUTF8FirstByte := by
  cases text with
  | nil => simp at h
  | cons c text =>
      have hpos : 0 < (String.utf8EncodeChar c).length :=
        List.length_pos_of_ne_nil (utf8EncodeChar_ne_nil c)
      have hhead := congrArg List.head? h
      rw [encode_cons, List.head?_append_of_ne_nil _ (utf8EncodeChar_ne_nil c),
        List.head?_eq_getElem?, List.getElem?_eq_getElem hpos, List.head?_cons,
        Option.some.injEq] at hhead
      rw [← hhead, UInt8.isUTF8FirstByte_getElem_utf8EncodeChar]

/-- Bytes left over at the end of one scalar cannot start another scalar, so
they are the whole scalar or nothing. -/
theorem eq_utf8EncodeChar_of_suffix {c : Char} {b : UInt8} {rest front : List UInt8}
    (hsplit : String.utf8EncodeChar c = front ++ b :: rest) (hb : b.IsUTF8FirstByte) :
    front = [] := by
  have hlt : front.length < (String.utf8EncodeChar c).length := by simp [hsplit]
  have hget : (String.utf8EncodeChar c)[front.length] = b := by simp [hsplit]
  rw [← hget, UInt8.isUTF8FirstByte_getElem_utf8EncodeChar] at hb
  exact List.length_eq_zero_iff.mp hb

/-- **UTF-8 is self-synchronizing.** A text ends with the bytes of another text
exactly when it ends with its scalars. -/
theorem encode_suffix_iff {first second : List Char} :
    encode first <:+ encode second ↔ first <:+ second := by
  apply Iff.intro
  · intro hsuffix
    induction second with
    | nil =>
        have hnil : encode first = [] := by simpa using hsuffix
        simp [encode_eq_nil_iff.mp hnil]
    | cons c text ih =>
        rcases hsuffix with ⟨front, hfront⟩
        rw [encode_cons, List.append_eq_append_iff] at hfront
        rcases hfront with ⟨tail, hc, hfirst⟩ | ⟨middle, -, htext⟩
        · cases tail with
          | nil => exact (ih ⟨[], by simpa using hfirst⟩).trans (List.suffix_cons c text)
          | cons b tail =>
              have hb : b.IsUTF8FirstByte := isUTF8FirstByte_head_encode hfirst
              have hempty : front = [] := eq_utf8EncodeChar_of_suffix hc hb
              have hwhole : encode first = encode (c :: text) := by
                rw [hfirst, encode_cons, hc, hempty, List.nil_append]
              rw [encode_injective hwhole]
        · exact (ih ⟨middle, htext.symm⟩).trans (List.suffix_cons c text)
  · intro h
    rcases h with ⟨front, rfl⟩
    exact ⟨encode front, by simp⟩

/-! ## Zero bytes -/

/-- Only the zero scalar is encoded with a zero byte. -/
theorem zero_mem_utf8EncodeChar_iff {c : Char} :
    (0 : UInt8) ∈ String.utf8EncodeChar c ↔ c.val = 0 := by
  rw [← UInt32.toNat_inj, UInt32.toNat_zero]
  simp only [String.utf8EncodeChar]
  split_ifs with hone htwo hthree <;>
    simp only [List.mem_cons, List.not_mem_nil, or_false, ← UInt8.toNat_inj, UInt8.toNat_zero,
      UInt8.toNat_ofNat'] <;>
    omega

theorem zero_mem_encode_iff {text : List Char} :
    (0 : UInt8) ∈ encode text ↔ ∃ c ∈ text, c.val = 0 := by
  simp [encode, zero_mem_utf8EncodeChar_iff]

/-- A text without the zero scalar. -/
def ZeroFree (text : List Char) : Prop := ∀ c ∈ text, c.val ≠ 0

theorem ZeroFree.not_mem_encode {text : List Char} (h : ZeroFree text) :
    (0 : UInt8) ∉ encode text := by
  rw [zero_mem_encode_iff]
  intro h
  rcases h with ⟨c, hmem, hzero⟩
  exact h c hmem hzero

/-- A string of the C language: its bytes up to, and without, the closing zero. -/
@[ext]
structure CString where
  /-- The bytes before the closing zero. -/
  bytes : List UInt8
  /-- No byte before the closing zero is zero. -/
  zeroFree : (0 : UInt8) ∉ bytes
  deriving DecidableEq

namespace CString

/-- The string a buffer holds: its bytes up to the first zero. -/
def ofBuffer (buffer : List UInt8) : CString where
  bytes := buffer.takeWhile (· ≠ 0)
  zeroFree hmem := by simpa using List.mem_takeWhile_imp hmem

/-- Two strings one after the other. -/
def append (first second : CString) : CString where
  bytes := first.bytes ++ second.bytes
  zeroFree := by simp [first.zeroFree, second.zeroFree]

/-- The string of a text, cut at its first zero scalar. -/
def ofText (text : List Char) : CString := ofBuffer (encode text)

@[simp]
theorem append_bytes (first second : CString) :
    (first.append second).bytes = first.bytes ++ second.bytes := rfl

theorem ofBuffer_bytes_of_zeroFree {buffer : List UInt8} (h : (0 : UInt8) ∉ buffer) :
    (ofBuffer buffer).bytes = buffer := by
  apply List.takeWhile_eq_self_iff.mpr
  intro b hb
  simpa using ne_of_mem_of_not_mem hb h

/-- A string read back from a buffer ends at the zero that closes it. -/
theorem ofBuffer_closed (buffer rest : List UInt8) :
    ofBuffer (buffer ++ 0 :: rest) = ofBuffer buffer := by
  ext1
  induction buffer with
  | nil => simp [ofBuffer]
  | cons b buffer ih =>
      simp only [ofBuffer, List.cons_append, List.takeWhile_cons] at ih ⊢
      rw [ih]

/-- Reading a string's own bytes gives the string. -/
@[simp]
theorem ofBuffer_bytes (string : CString) : ofBuffer string.bytes = string :=
  CString.ext (ofBuffer_bytes_of_zeroFree string.zeroFree)

/-- A text without the zero scalar is stored whole. -/
theorem ofText_bytes {text : List Char} (h : ZeroFree text) :
    (ofText text).bytes = encode text :=
  ofBuffer_bytes_of_zeroFree h.not_mem_encode

/-- What a string keeps of a text: everything before its first zero scalar. -/
def kept (text : List Char) : List Char := text.takeWhile (·.val ≠ 0)

theorem ofText_append {first : List Char} (second : List Char) (h : ZeroFree first) :
    ofText (first ++ second) = (ofText first).append (ofText second) := by
  ext1
  rw [append_bytes, ofText_bytes h]
  simp only [ofText, ofBuffer, encode_append]
  apply List.takeWhile_append_of_pos
  intro b hb
  simpa using ne_of_mem_of_not_mem hb h.not_mem_encode

/-- A string holds exactly the kept part of its text. -/
theorem bytes_ofText (text : List Char) : (ofText text).bytes = encode (kept text) := by
  induction text with
  | nil => rfl
  | cons c text ih =>
      by_cases hzero : c.val = 0
      · have hc : c = Char.ofNat 0 := Char.ext hzero
        subst hc
        simp [ofText, ofBuffer, kept, String.utf8EncodeChar]
      · have hsingle : ZeroFree [c] := by simpa [ZeroFree] using hzero
        have hkept : kept (c :: text) = c :: kept text := by simp [kept, hzero]
        have happend := congrArg bytes (ofText_append text hsingle)
        rw [append_bytes, ofText_bytes hsingle, ih] at happend
        simpa [hkept] using happend

/-- The string of a nonzero scalar is that of no other scalar. -/
theorem ofText_singleton_inj {first second : Char} (h : second.val ≠ 0) :
    ofText [first] = ofText [second] ↔ first = second := by
  refine ⟨fun heq => ?_, fun heq => by rw [heq]⟩
  have hbytes := congrArg bytes heq
  rw [bytes_ofText, bytes_ofText] at hbytes
  have hkept := encode_injective hbytes
  by_cases hzero : first.val = 0
  · simp [kept, h, hzero] at hkept
  · simpa [kept, h, hzero] using hkept

end CString

end SilentCompose.Foundations
