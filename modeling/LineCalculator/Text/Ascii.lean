import LineCalculator.Text.Trim

/-!
# ASCII classes

Inside a line only ASCII counts: a letter is one of `A`–`Z` and `a`–`z`, a digit one of `0`–`9`
(the core predicates `Char.isAlpha` and `Char.isDigit` are exactly these), and a blank is a
space, tab, line feed, form feed or carriage return. Every other character, a no-break space or
an accented letter among them, is ordinary text that no rule may drop or take for a name.

Eight characters are boundaries: they end a word and stand for themselves. These are the two
parentheses, the equals sign and the five operator symbols, of which `+` and `-` are also signs. No
boundary is a blank, a letter or a digit, so a name or a numeral never holds one.
-/

set_option autoImplicit false

namespace LineCalculator

/-- The ASCII blanks: space, tab, line feed, form feed and carriage return. The vertical tab is
    none. -/
def isBlank (c : Char) : Bool :=
  c == ' ' || c == '\t' || c == '\n' || c == '\x0c' || c == '\r'

namespace Text

/-- The text without the blanks at its two ends. -/
def trimBlanks (s : Text) : Text := trim isBlank s

/-- A name is a non-empty text of ASCII letters. -/
def isName (s : Text) : Bool := !s.isEmpty && s.all Char.isAlpha

/-- A numeral is a non-empty text of ASCII digits. -/
def isNumeral (s : Text) : Bool := !s.isEmpty && s.all Char.isDigit

/-- A bare word is a non-empty text of ASCII letters, digits and underscores. -/
def isBareWord (s : Text) : Bool := !s.isEmpty && s.all (fun c => c.isAlphanum || c == '_')

theorem isName_iff {s : Text} : s.isName = true ↔ s ≠ [] ∧ ∀ c ∈ s, c.isAlpha = true := by
  simp [isName]

theorem isNumeral_iff {s : Text} : s.isNumeral = true ↔ s ≠ [] ∧ ∀ c ∈ s, c.isDigit = true := by
  simp [isNumeral]

end Text

/-- A letter is no blank. -/
theorem isBlank_of_isAlpha {c : Char} (h : c.isAlpha = true) : isBlank c = false := by
  cases hb : isBlank c with
  | false => rfl
  | true =>
    simp only [isBlank, Bool.or_eq_true, beq_iff_eq] at hb
    rcases hb with (((rfl | rfl) | rfl) | rfl) | rfl <;> revert h <;> decide

/-- A digit is no blank. -/
theorem isBlank_of_isDigit {c : Char} (h : c.isDigit = true) : isBlank c = false := by
  cases hb : isBlank c with
  | false => rfl
  | true =>
    simp only [isBlank, Bool.or_eq_true, beq_iff_eq] at hb
    rcases hb with (((rfl | rfl) | rfl) | rfl) | rfl <;> revert h <;> decide

/-! ## Boundaries -/

/-- The eight boundary characters. -/
def boundaries : List Char := ['^', ')', '(', '=', '*', '/', '+', '-']

/-- Whether a character ends a word. -/
def isBoundary (c : Char) : Bool := boundaries.contains c

/-- Whether a character is one of the two signs. -/
def isSign (c : Char) : Bool := c == '+' || c == '-'

/-- The eight cases of a boundary. -/
theorem eq_of_isBoundary {c : Char} (h : isBoundary c = true) :
    c = '^' ∨ c = ')' ∨ c = '(' ∨ c = '=' ∨ c = '*' ∨ c = '/' ∨ c = '+' ∨ c = '-' := by
  simpa [isBoundary, boundaries] using h

/-- A sign is a boundary. -/
theorem isBoundary_of_isSign {c : Char} (h : isSign c = true) : isBoundary c = true := by
  simp only [isSign, Bool.or_eq_true, beq_iff_eq] at h
  rcases h with rfl | rfl <;> rfl

/-- A boundary is no blank. -/
theorem isBlank_of_isBoundary {c : Char} (h : isBoundary c = true) : isBlank c = false := by
  rcases eq_of_isBoundary h with rfl | rfl | rfl | rfl | rfl | rfl | rfl | rfl <;> rfl

/-- A boundary is no letter. -/
theorem isAlpha_of_isBoundary {c : Char} (h : isBoundary c = true) : c.isAlpha = false := by
  rcases eq_of_isBoundary h with rfl | rfl | rfl | rfl | rfl | rfl | rfl | rfl <;> rfl

/-- A boundary is no digit. -/
theorem isDigit_of_isBoundary {c : Char} (h : isBoundary c = true) : c.isDigit = false := by
  rcases eq_of_isBoundary h with rfl | rfl | rfl | rfl | rfl | rfl | rfl | rfl <;> rfl

end LineCalculator
