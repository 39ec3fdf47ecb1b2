import LineCalculator.Text.Ascii

/-!
# The normal form of a line

Three things about a line do not matter: blanks at its ends, blanks beside a boundary, and how a
sign is spelled. A run of signs, with or without blanks in it, means one sign: a minus when an odd
number of minuses is in the run, a plus otherwise. Blanks between two words do matter, and stay
as they are.

`normalize` reads the line from the right and keeps a text that is already normal, blanks at its
left end apart: such blanks stand beside a boundary, at the left end of the line or before a word,
and which of these it is shows only at the next character. So each character looks at most past
the blanks in front of it (`absorb`), and the two rules that could run far, for signs and for
blanks, become one step each.
-/

set_option autoImplicit false

namespace LineCalculator

/-- Two signs in a row mean one: equal signs make a plus, different ones a minus. -/
def mergeSigns (a b : Char) : Char := if a = b then '+' else '-'

/-- Put one character in front of a text that is normal but for blanks at its left end. A blank is
    kept only before a word. A boundary drops the blanks behind it, and a sign also merges with
    the sign that it then meets. -/
def absorb (c : Char) (t : Text) : Text :=
  if isBlank c then
    match t with
    | [] => []
    | d :: _ => if isBoundary d then t else c :: t
  else if isSign c then
    match t.dropWhile isBlank with
    | [] => [c]
    | d :: u => if isSign d then mergeSigns c d :: u else c :: d :: u
  else if isBoundary c then c :: t.dropWhile isBlank
  else c :: t

/-- The normal form of a line. -/
def normalize (line : Text) : Text := (line.foldr absorb []).dropWhile isBlank

theorem normalize_nil : normalize [] = [] := rfl

/-- A blank in front of a line changes nothing: whatever `absorb` makes of it is dropped at the
    left end. -/
theorem normalize_cons_of_isBlank {c : Char} (hc : isBlank c = true) (s : Text) :
    normalize (c :: s) = normalize s := by
  unfold normalize
  rw [List.foldr_cons]
  generalize s.foldr absorb [] = t
  cases t with
  | nil => simp [absorb, hc]
  | cons d u => by_cases hd : isBoundary d = true <;> simp [absorb, hc, hd, List.dropWhile_cons]

/-- A text of blanks has the empty normal form. -/
theorem normalize_eq_nil_of_blank {s : Text} (h : ∀ c ∈ s, isBlank c = true) :
    normalize s = [] := by
  induction s with
  | nil => rfl
  | cons c s ih =>
    rw [normalize_cons_of_isBlank (h c (by simp)), ih fun d hd => h d (by simp [hd])]

end LineCalculator
