import LineCalculator.Text.WhiteSpace

/-!
# Commands

A line whose first character, white space aside, is a slash is a command and never reaches the
calculator. No expression starts with a slash, so nothing that could have a value is lost.
-/

set_option autoImplicit false

namespace LineCalculator

/-- What a command asks for. -/
inductive Command where
  | exit
  | help
  | unknown
  deriving DecidableEq

namespace Command

/-- The command on a line, if it holds one. White space here is Unicode's. -/
def ofLine? (line : Text) : Option Command :=
  let word := line.trimWhiteSpace
  if word.head? = some '/' then
    if word = "/exit".toList then some exit
    else if word = "/help".toList then some help
    else some unknown
  else none

/-- What the user is told. -/
def message : Command → Text
  | exit => "Bye!".toList
  | help =>
    ("The program evaluates integer expressions with + - * / ^ and parentheses\n" ++
      "You can assign variables such as a = 2.\n" ++
      "You can also reuse variables in your expressions").toList
  | unknown => "Unknown command".toList

/-- A line that starts with a letter, blanks aside, is no command. -/
theorem ofLine?_of_isAlpha {u t : Text} {c : Char} (hu : ∀ b ∈ u, isBlank b = true)
    (hc : c.isAlpha = true) : ofLine? (u ++ c :: t) = none := by
  have htrim : Text.trimWhiteSpace (u ++ c :: t) = c :: Text.trimEnd isWhiteSpace t := by
    rw [Text.trimWhiteSpace, Text.trim_append_of_pos fun b hb => isWhiteSpace_of_isBlank (hu b hb),
      Text.trim_cons_of_neg (isWhiteSpace_of_isAlpha hc)]
  have hslash : c ≠ '/' := by
    rintro rfl
    exact absurd hc (by decide)
  rw [ofLine?, htrim]
  simp [hslash]

theorem ofLine?_of_isName {u x : Text} (hu : ∀ b ∈ u, isBlank b = true) (hx : x.isName = true)
    (t : Text) : ofLine? (u ++ x ++ t) = none := by
  obtain ⟨hne, hletters⟩ := Text.isName_iff.1 hx
  obtain ⟨c, w, hcw⟩ := List.exists_cons_of_ne_nil hne
  rw [hcw] at hletters ⊢
  rw [List.append_assoc, List.cons_append]
  exact ofLine?_of_isAlpha hu (hletters c List.mem_cons_self)

end Command

end LineCalculator
