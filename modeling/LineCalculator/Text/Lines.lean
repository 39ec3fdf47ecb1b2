import LineCalculator.Text.Ascii

/-!
# Lines of a text

A line ends at a line feed, or at a carriage return with a line feed directly behind it; neither
belongs to the line. Only that one carriage return goes: one in the middle of a line, or at the end
of a last line without a line feed, is part of the line. What follows the last line feed is a line
if it is not empty.

How a text is laid out in lines is more than its lines show: whether its line feeds have carriage
returns before them, whether the last line has one at all, which blanks stand at the ends of the
lines, and where blank lines stand. `Relaid` is one change to one of these; a change of layout is any
number of them, forwards and backwards.
-/

set_option autoImplicit false

namespace LineCalculator.Text

/-- Lines under construction, from the right. -/
structure LineScan where
  /-- Whether the character read last ends a line. -/
  atBreak : Bool
  lines : List Text
  deriving DecidableEq

/-- Put one character in front of the lines read so far. -/
def LineScan.extend (c : Char) (scan : LineScan) : LineScan :=
  if c = '\n' then ⟨true, [] :: scan.lines⟩
  else if scan.atBreak && c == '\r' then ⟨false, scan.lines⟩
  else
    match scan.lines with
    | [] => ⟨false, [[c]]⟩
    | l :: ls => ⟨false, (c :: l) :: ls⟩

/-- The lines of a text, from first to last. -/
def lines (s : Text) : List Text := (s.foldr LineScan.extend ⟨false, []⟩).lines

/-! ## Layout -/

/-- A line starts behind this text. -/
def AtLineStart (s : Text) : Prop := s = [] ∨ ∃ t, s = t ++ ['\n']

/-- A line ends before this text, with its line feed or as the last one. -/
inductive AtLineEnd : Text → Prop
  | last : AtLineEnd []
  | feed (s : Text) : AtLineEnd ('\n' :: s)
  | returnFeed (s : Text) : AtLineEnd ('\r' :: '\n' :: s)

/-- A carriage return before every line feed. -/
def withReturns (s : Text) : Text := s.flatMap fun c => if c = '\n' then ['\r', '\n'] else [c]

/-- One change of layout. -/
inductive Relaid : Text → Text → Prop
  | returns (s : Text) : Relaid s s.withReturns
  | finalFeed (s : Text) : Relaid s (s ++ ['\n'])
  /-- Blanks at the two ends of a line. -/
  | padded {u l v p q : Text} : AtLineStart u → '\n' ∉ l → AtLineEnd v →
    (∀ c ∈ p, isBlank c = true ∧ c ≠ '\n') → (∀ c ∈ q, isBlank c = true ∧ c ≠ '\n') →
    Relaid (u ++ l ++ v) (u ++ (p ++ l ++ q) ++ v)
  /-- Blank lines before a line. -/
  | inserted {u w v : Text} : AtLineStart u → (∀ c ∈ w, isBlank c = true) →
    Relaid (u ++ v) (u ++ (w ++ '\n' :: v))
  /-- Blank lines behind the last line. -/
  | appended {s w : Text} : (∀ c ∈ w, isBlank c = true) → Relaid s (s ++ '\n' :: w)

end LineCalculator.Text
