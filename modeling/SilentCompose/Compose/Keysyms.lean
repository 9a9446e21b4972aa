/-
# How the key classes overlap

The source sorts keysyms by several independent tests. Function keys, which hold
all navigation and cancel keys, denote no scalar and are no accent; a printable
keysym denotes exactly the scalar it spells.
-/

import SilentCompose.Compose.Composer
import SilentCompose.Toolkit.IBus

namespace SilentCompose.Compose

open SilentCompose.Foundations SilentCompose.Toolkit

/-! ## Function keys -/

/-- Navigation keys lie in the function-key page. -/
theorem isFunctionKeyval_of_navigation {key : Guint} (h : isNonPrintableNavigationKey key = true) :
    IsFunctionKeyval key := by
  simp only [isNonPrintableNavigationKey, decide_eq_true_eq] at h
  rcases h with rfl | rfl | rfl | rfl | rfl | rfl | rfl | rfl | rfl | rfl | ⟨hlow, hhigh⟩
  any_goals decide
  exact Or.inr ⟨hlow, UInt32.le_trans hhigh (by decide)⟩

/-- Escape and Backspace lie in the function-key page. -/
theorem isFunctionKeyval_of_cancel {key : Guint} (h : isCancelKey key = true) :
    IsFunctionKeyval key := by
  simp only [isCancelKey, decide_eq_true_eq] at h
  rcases h with rfl | rfl <;> decide

/-- The function-key page lies between Latin-1 and the Unicode keysyms. -/
theorem function_bounds {key : Guint} (h : IsFunctionKeyval key) : 0xff00 ≤ key ∧ key ≤ 0xffff := by
  simp only [IsFunctionKeyval, UInt32.le_iff_toNat_le, UInt32.lt_iff_toNat_lt] at h ⊢
  simp only [UInt32.reduceToNat] at h ⊢
  omega

theorem keyToUnicode_eq_none_of_function {key : Guint} (h : IsFunctionKeyval key) :
    keyToUnicode key = none := by
  have hbounds := function_bounds h
  have hascii : ¬key < 0x80 := by grind
  have hunicode : ¬(key ≥ 0x01000100 ∧ key ≤ 0x0110ffff) := by grind
  have hlatin1 : ¬(key ≥ 0x00a0 ∧ key ≤ 0x00ff) := by grind
  rw [keyToUnicode, if_neg hascii, if_neg hunicode, if_neg hlatin1]

theorem keyScalar_eq_none_of_function {key : Guint} (h : IsFunctionKeyval key) :
    keyScalar key = none := by
  simp [keyScalar, keyToUnicode_eq_none_of_function h]

theorem ofKey_eq_none_of_function {key : Guint} (h : IsFunctionKeyval key) :
    Accent.ofKey key = none := by
  rw [Option.eq_none_iff_forall_ne_some]
  intro accent haccent
  have hbounds := function_bounds h
  rcases Accent.ofKey_eq_some_iff.mp haccent with rfl | rfl <;> revert hbounds <;>
    cases accent <;> decide

/-- A function key cancels, navigates or does nothing. -/
theorem keyEffect_of_function {key : Guint} (h : IsFunctionKeyval key) :
    keyEffect key =
      if isCancelKey key then .cancel
      else if isNonPrintableNavigationKey key then .navigation
      else .silent := by
  rw [keyEffect, keyScalar_eq_none_of_function h]

/-! ## Printable keysyms -/

/-- The character a printable keysym spells: a Latin-1 keysym is its own code
point, a Unicode keysym is an offset. -/
def printableScalar (key : Guint) : Option Char :=
  if IsLatin1Keyval key then scalarOf key
  else if IsUnicodeKeyval key then scalarOf (key - 0x01000000)
  else none

/-- The source reads a printable keysym as the character it spells. -/
theorem keyScalar_of_printable {key : Guint} {c : Char} (h : printableScalar key = some c) :
    keyScalar key = some c := by
  have hcode : keyToUnicode key = some c.val := by
    rw [printableScalar] at h
    split_ifs at h with hlatin1 hunicode
    · have hvalue : c.val = key := scalarOf_eq_some h
      have hvalid : gUnicharValidate key = true := hvalue ▸ gUnicharValidate_val c
      have hrange : key < 0x80 ∨ (0x00a0 ≤ key ∧ key ≤ 0x00ff) := by
        rw [IsLatin1Keyval] at hlatin1
        grind
      have hunicode : ¬(key ≥ 0x01000100 ∧ key ≤ 0x0110ffff) := by grind
      rw [keyToUnicode, if_neg hunicode, hvalue]
      rcases hrange with hascii | hlatin1
      · simp [hascii, hvalid]
      · have hascii : ¬key < 0x80 := by grind
        simp [hascii, hlatin1, hvalid]
    · have hvalue : c.val = key - 0x01000000 := scalarOf_eq_some h
      have hvalid : gUnicharValidate (key - 0x01000000) = true := hvalue ▸ gUnicharValidate_val c
      have hascii : ¬key < 0x80 := by
        rw [IsUnicodeKeyval] at hunicode
        grind
      have hrange : key ≥ 0x01000100 ∧ key ≤ 0x0110ffff := hunicode
      rw [keyToUnicode, if_neg hascii, if_pos hrange, hvalue, if_pos hvalid]
  rw [keyScalar]
  simp [hcode]

/-- The Unicode value IBus gives a printable keysym is the character it spells. -/
theorem keyvalToUnicode_of_printable {keyvalToUnicode : KeyvalToUnicode}
    (hlawful : LawfulKeyvals keyvalToUnicode) {key : Guint} {c : Char}
    (h : printableScalar key = some c) : keyvalToUnicode key = c.val := by
  rw [printableScalar] at h
  split_ifs at h with hlatin1 hunicode
  · rw [hlawful.latin1 key hlatin1, scalarOf_eq_some h]
  · rw [hlawful.unicode key hunicode, scalarOf_eq_some h]

/-- A printable keysym's character is not a control character. -/
theorem not_iscntrl_of_printable {key : Guint} {c : Char} (h : printableScalar key = some c) :
    gUnicharIscntrl c.val = false := by
  have hrange : (0x20 ≤ c.val ∧ c.val ≤ 0x7e) ∨ 0xa0 ≤ c.val := by
    rw [printableScalar] at h
    split_ifs at h with hlatin1 hunicode
    · rw [scalarOf_eq_some h]
      rw [IsLatin1Keyval] at hlatin1
      grind
    · rw [scalarOf_eq_some h]
      rw [IsUnicodeKeyval] at hunicode
      grind
  have hlow : ¬c.val < 0x20 := by grind
  have hhigh : ¬(0x7f ≤ c.val ∧ c.val < 0xa0) := by grind
  simpa [gUnicharIscntrl, hlow] using hhigh

/-- Among printable keysyms exactly the five literals are accents. -/
theorem ofKey_of_printable {key : Guint} {c : Char} (h : printableScalar key = some c) :
    Accent.ofKey key = Accent.ofLiteral c := by
  apply Option.ext
  intro accent
  rw [Accent.ofKey_eq_some_iff, Accent.ofLiteral_eq_some_iff, Char.ext_iff]
  rw [printableScalar] at h
  split_ifs at h with hlatin1 hunicode
  · rw [scalarOf_eq_some h]
    have hdead : key ≠ accent.deadKey := by
      intro heq
      subst heq
      revert hlatin1
      cases accent <;> decide
    simp [hdead, Accent.printableKey]
  · rw [scalarOf_eq_some h]
    have hkey : ¬(key = accent.printableKey ∨ key = accent.deadKey) := by
      rintro (rfl | rfl) <;> revert hunicode <;> cases accent <;> decide
    have hvalue : ¬key - 0x01000000 = accent.literal.val := by
      have habove : 0x100 ≤ key - 0x01000000 := by
        rw [IsUnicodeKeyval] at hunicode
        grind
      intro heq
      rw [heq] at habove
      revert habove
      cases accent <;> decide
    simp only [hkey, hvalue]

/-- Printable keysyms are no function keys. -/
theorem printableScalar_eq_none_of_function {key : Guint} (h : IsFunctionKeyval key) :
    printableScalar key = none := by
  have hbounds := function_bounds h
  have hlatin1 : ¬IsLatin1Keyval key := by
    rw [IsLatin1Keyval]
    grind
  have hunicode : ¬IsUnicodeKeyval key := by
    rw [IsUnicodeKeyval]
    grind
  rw [printableScalar, if_neg hlatin1, if_neg hunicode]

/-- A printable key completes a held accent with its character. -/
theorem keyEffect_of_printable {key : Guint} {c : Char} (h : printableScalar key = some c) :
    keyEffect key = .text c := by
  have hcancel : isCancelKey key = false := by
    apply Bool.eq_false_iff.mpr
    intro hcancel
    rw [printableScalar_eq_none_of_function (isFunctionKeyval_of_cancel hcancel)] at h
    cases h
  simp [keyEffect, hcancel, keyScalar_of_printable h]

end SilentCompose.Compose
