/-
# The compose table and the keys it reads

The five accents, the table of composed letters, and the tests that sort keysyms
into accents, printable text, navigation and editing keys. Every composed letter
is one scalar above ASCII, reached from an ASCII letter.
-/

import SilentCompose.Toolkit.GLib

namespace SilentCompose.Compose

open SilentCompose.Foundations SilentCompose.Toolkit

/-! ## Keysyms recognized by value -/

def scKeyBackspace : Guint := 0xff08
def scKeyEscape : Guint := 0xff1b
def scKeyDelete : Guint := 0xffff
def scKeyLeft : Guint := 0xff51
def scKeyUp : Guint := 0xff52
def scKeyRight : Guint := 0xff53
def scKeyDown : Guint := 0xff54
def scKeyHome : Guint := 0xff50
def scKeyEnd : Guint := 0xff57
def scKeyPageUp : Guint := 0xff55
def scKeyPageDown : Guint := 0xff56
def scKeyInsert : Guint := 0xff63
def scKeyDeadGrave : Guint := 0xfe50
def scKeyDeadAcute : Guint := 0xfe51
def scKeyDeadCircumflex : Guint := 0xfe52
def scKeyDeadTilde : Guint := 0xfe53
def scKeyDeadDiaeresis : Guint := 0xfe57

/-! ## Accents and rules -/

/-- The accent held back from the application, or none. -/
inductive PendingAccent
  | none
  | acute
  | diaeresis
  | grave
  | circumflex
  | tilde
  deriving DecidableEq

/-- One entry of the compose table. The output is static UTF-8 text. -/
structure ComposeRule where
  accent : PendingAccent
  input : Gunichar
  output : String
  deriving DecidableEq

/-- The built-in compose table. -/
def composeRules : List ComposeRule := [
  { accent := .acute, input := 'a'.val, output := "á" },
  { accent := .acute, input := 'A'.val, output := "Á" },
  { accent := .acute, input := 'c'.val, output := "ç" },
  { accent := .acute, input := 'C'.val, output := "Ç" },
  { accent := .acute, input := 'e'.val, output := "é" },
  { accent := .acute, input := 'E'.val, output := "É" },
  { accent := .acute, input := 'i'.val, output := "í" },
  { accent := .acute, input := 'I'.val, output := "Í" },
  { accent := .acute, input := 'o'.val, output := "ó" },
  { accent := .acute, input := 'O'.val, output := "Ó" },
  { accent := .acute, input := 'u'.val, output := "ú" },
  { accent := .acute, input := 'U'.val, output := "Ú" },
  { accent := .acute, input := 'y'.val, output := "ý" },
  { accent := .acute, input := 'Y'.val, output := "Ý" },
  { accent := .diaeresis, input := 'a'.val, output := "ä" },
  { accent := .diaeresis, input := 'A'.val, output := "Ä" },
  { accent := .diaeresis, input := 'e'.val, output := "ë" },
  { accent := .diaeresis, input := 'E'.val, output := "Ë" },
  { accent := .diaeresis, input := 'i'.val, output := "ï" },
  { accent := .diaeresis, input := 'I'.val, output := "Ï" },
  { accent := .diaeresis, input := 'o'.val, output := "ö" },
  { accent := .diaeresis, input := 'O'.val, output := "Ö" },
  { accent := .diaeresis, input := 'u'.val, output := "ü" },
  { accent := .diaeresis, input := 'U'.val, output := "Ü" },
  { accent := .diaeresis, input := 'y'.val, output := "ÿ" },
  { accent := .grave, input := 'a'.val, output := "à" },
  { accent := .grave, input := 'A'.val, output := "À" },
  { accent := .grave, input := 'e'.val, output := "è" },
  { accent := .grave, input := 'E'.val, output := "È" },
  { accent := .grave, input := 'i'.val, output := "ì" },
  { accent := .grave, input := 'I'.val, output := "Ì" },
  { accent := .grave, input := 'o'.val, output := "ò" },
  { accent := .grave, input := 'O'.val, output := "Ò" },
  { accent := .grave, input := 'u'.val, output := "ù" },
  { accent := .grave, input := 'U'.val, output := "Ù" },
  { accent := .circumflex, input := 'a'.val, output := "â" },
  { accent := .circumflex, input := 'A'.val, output := "Â" },
  { accent := .circumflex, input := 'e'.val, output := "ê" },
  { accent := .circumflex, input := 'E'.val, output := "Ê" },
  { accent := .circumflex, input := 'i'.val, output := "î" },
  { accent := .circumflex, input := 'I'.val, output := "Î" },
  { accent := .circumflex, input := 'o'.val, output := "ô" },
  { accent := .circumflex, input := 'O'.val, output := "Ô" },
  { accent := .circumflex, input := 'u'.val, output := "û" },
  { accent := .circumflex, input := 'U'.val, output := "Û" },
  { accent := .tilde, input := 'a'.val, output := "ã" },
  { accent := .tilde, input := 'A'.val, output := "Ã" },
  { accent := .tilde, input := 'n'.val, output := "ñ" },
  { accent := .tilde, input := 'N'.val, output := "Ñ" },
  { accent := .tilde, input := 'o'.val, output := "õ" },
  { accent := .tilde, input := 'O'.val, output := "Õ" }
]

/-- Look up a completed accent and printable-character sequence. -/
def lookupComposition (accent : PendingAccent) (input : Gunichar) : Option String :=
  (composeRules.find? fun rule => rule.accent = accent ∧ rule.input = input).map (·.output)

/-! ## Key tests -/

/-- The scalar a keysym denotes when it is read as printable text: ASCII, the
Unicode keysyms and Latin-1, each subject to the scalar check. -/
def keyToUnicode (key : Guint) : Option Gunichar :=
  if key < 0x80 then
    if gUnicharValidate key then some key else none
  else if key ≥ 0x01000100 ∧ key ≤ 0x0110ffff then
    if gUnicharValidate (key - 0x01000000) then some (key - 0x01000000) else none
  else if key ≥ 0x00a0 ∧ key ≤ 0x00ff then
    if gUnicharValidate key then some key else none
  else
    none

/-- Navigation or function input rather than text. -/
def isNonPrintableNavigationKey (key : Guint) : Bool :=
  key = scKeyDelete ∨ key = scKeyLeft ∨ key = scKeyUp ∨ key = scKeyRight ∨ key = scKeyDown ∨
    key = scKeyHome ∨ key = scKeyEnd ∨ key = scKeyPageUp ∨ key = scKeyPageDown ∨
    key = scKeyInsert ∨ (key ≥ 0xffbe ∧ key ≤ 0xffe0)

/-- The accent and the literal a key stands for, printable or dead. -/
def pendingFromKey (key : Guint) : Option (PendingAccent × Gunichar) :=
  if key = '\''.val ∨ key = scKeyDeadAcute then some (.acute, '\''.val)
  else if key = '"'.val ∨ key = scKeyDeadDiaeresis then some (.diaeresis, '"'.val)
  else if key = '`'.val ∨ key = scKeyDeadGrave then some (.grave, '`'.val)
  else if key = '^'.val ∨ key = scKeyDeadCircumflex then some (.circumflex, '^'.val)
  else if key = '~'.val ∨ key = scKeyDeadTilde then some (.tilde, '~'.val)
  else none

/-! ## Modifier bits -/

def composeModShift : Guint := (1 : Guint) <<< 0
def composeModControl : Guint := (1 : Guint) <<< 1
def composeModAlt : Guint := (1 : Guint) <<< 2
def composeModSuper : Guint := (1 : Guint) <<< 3
def composeModRelease : Guint := (1 : Guint) <<< 4

/-- The modifiers turn this key into an application shortcut. -/
def isModifierShortcut (mods : Guint) : Bool :=
  hits mods (composeModControl ||| composeModAlt ||| composeModSuper)

/-! ## What the table holds -/

/-- Every rule turns an ASCII letter into one scalar above ASCII. -/
theorem rule_output_single : ∀ rule ∈ composeRules,
    rule.output.toList.length = 1 ∧ rule.output.toList.all (0x80 ≤ ·.val) = true := by
  decide

theorem rule_input_ascii : ∀ rule ∈ composeRules, ' '.val < rule.input ∧ rule.input < 0x80 := by
  decide

/-- No rule is hidden behind another one. -/
theorem lookupComposition_rule : ∀ rule ∈ composeRules,
    lookupComposition rule.accent rule.input = some rule.output := by
  decide

/-- Rules for the same accent and character have the same output. -/
theorem rule_output_unique {first second : ComposeRule} (hfirst : first ∈ composeRules)
    (hsecond : second ∈ composeRules) (haccent : first.accent = second.accent)
    (hinput : first.input = second.input) : first.output = second.output := by
  have hlookup := lookupComposition_rule first hfirst
  rw [haccent, hinput, lookupComposition_rule second hsecond] at hlookup
  exact (Option.some.inj hlookup).symm

/-- **The lookup finds the rules of the table**, every one of them and nothing else. -/
theorem lookupComposition_eq_some_iff {accent : PendingAccent} {input : Gunichar}
    {output : String} :
    lookupComposition accent input = some output ↔
      ∃ rule ∈ composeRules, rule.accent = accent ∧ rule.input = input ∧
        rule.output = output := by
  apply Iff.intro
  · intro h
    simp only [lookupComposition, Option.map_eq_some_iff] at h
    rcases h with ⟨rule, hfind, houtput⟩
    have hmatch := List.find?_some hfind
    simp only [decide_eq_true_eq] at hmatch
    exact ⟨rule, List.mem_of_find?_eq_some hfind, hmatch.1, hmatch.2, houtput⟩
  · intro h
    rcases h with ⟨rule, hmem, rfl, rfl, rfl⟩
    exact lookupComposition_rule rule hmem

/-- The lookup fails where no rule is for the accent and the character. -/
theorem lookupComposition_eq_none_iff {accent : PendingAccent} {input : Gunichar} :
    lookupComposition accent input = none ↔
      ∀ rule ∈ composeRules, rule.accent = accent → rule.input ≠ input := by
  rw [Option.eq_none_iff_forall_ne_some]
  apply Iff.intro
  · intro h rule hmem haccent hinput
    exact h rule.output (lookupComposition_eq_some_iff.mpr ⟨rule, hmem, haccent, hinput, rfl⟩)
  · intro h output hlookup
    obtain ⟨rule, hmem, haccent, hinput, -⟩ := lookupComposition_eq_some_iff.mp hlookup
    exact h rule hmem haccent hinput

/-- No composed letter is the zero scalar. -/
theorem rule_output_zeroFree {rule : ComposeRule} (hmem : rule ∈ composeRules) :
    ZeroFree rule.output.toList := by
  intro c hc
  have habove := List.all_eq_true.mp (rule_output_single rule hmem).2 c hc
  exact ne_zero_of_aboveAscii (by simpa using habove)

/-- The scalar a key denotes has passed the scalar check. -/
theorem gUnicharValidate_of_keyToUnicode {key : Guint} {input : Gunichar}
    (h : keyToUnicode key = some input) : gUnicharValidate input = true := by
  rw [keyToUnicode] at h
  split_ifs at h with _ hvalid _ hvalid _ hvalid <;> cases h <;> exact hvalid

end SilentCompose.Compose
