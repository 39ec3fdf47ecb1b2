import LineCalculator.Operator
import LineCalculator.Text.Decimal

/-!
# Tokens

A text is cut into pieces: every boundary character alone, and between the boundaries the longest
texts free of them. Each piece is a token, so cutting never fails and loses nothing: a piece that
is neither a name nor a numeral becomes an unknown token, and the pieces in a row are the text
again (`flatten_pieces`).

A numeral keeps its digits as they were written, leading zeros included; its value is a function of
them.
-/

set_option autoImplicit false

namespace LineCalculator

/-! ## Pieces -/

/-- Put one character in front of a text that is already cut. It opens a piece of its own when it,
    or the first character behind it, is a boundary, and else joins the first piece. -/
def extendPieces (c : Char) : List Text → List Text
  | (d :: w) :: ps =>
    if isBoundary c || isBoundary d then [c] :: (d :: w) :: ps else (c :: d :: w) :: ps
  | ps => [c] :: ps

/-- The pieces of a text, from left to right. -/
def pieces (s : Text) : List Text := s.foldr extendPieces []

@[simp] theorem pieces_nil : pieces [] = [] := rfl

@[simp] theorem pieces_cons (c : Char) (s : Text) :
    pieces (c :: s) = extendPieces c (pieces s) := rfl

theorem flatten_extendPieces (c : Char) (ps : List Text) :
    (extendPieces c ps).flatten = c :: ps.flatten := by
  unfold extendPieces
  split
  · split <;> simp
  · simp

/-- The pieces in a row are the text. -/
@[simp] theorem flatten_pieces (s : Text) : (pieces s).flatten = s := by
  induction s with
  | nil => rfl
  | cons c s ih => rw [pieces_cons, flatten_extendPieces, ih]

/-! ## Tokens -/

/-- A token of an expression. -/
inductive Token where
  /-- An opening parenthesis. -/
  | leftParen
  /-- A closing parenthesis. -/
  | rightParen
  /-- The equals sign, which no expression may hold. -/
  | equals
  | op (o : Operator)
  /-- A word of ASCII letters. -/
  | name (x : Text)
  /-- A word of ASCII digits, as it was written. -/
  | number (digits : Text)
  /-- Any other word. -/
  | unknown (word : Text)
  deriving DecidableEq

namespace Token

/-- The token that a boundary character stands for. -/
def ofBoundary? : Char → Option Token
  | '(' => some leftParen
  | ')' => some rightParen
  | '=' => some equals
  | c => (Operator.ofSymbol? c).map op

/-- The token of a word: letters make a name, digits a number, and anything else is unknown. -/
def ofWord (w : Text) : Token :=
  if w.all Char.isAlpha then name w
  else if w.all Char.isDigit then number w
  else unknown w

/-- The token of a piece: a boundary character stands for itself, any other piece is a word. -/
def ofPiece : Text → Token
  | [c] => (ofBoundary? c).getD (ofWord [c])
  | w => ofWord w

/-- The tokens of a text, from left to right. -/
def scan (s : Text) : List Token := (pieces s).map ofPiece

/-- The text that the token was cut from. -/
def literal : Token → Text
  | leftParen => ['(']
  | rightParen => [')']
  | equals => ['=']
  | op o => [o.symbol]
  | name x => x
  | number ds => ds
  | unknown w => w

/-- The value of a number; other tokens have none. -/
def value? : Token → Option Nat
  | number ds => some (Decimal.numeralValue ds)
  | _ => none

/-- The word that names the kind of the token in a listing. -/
def label : Token → Text
  | leftParen => "LEFT_PAREN".toList
  | rightParen => "RIGHT_PAREN".toList
  | equals => "EQUAL".toList
  | op .add => "PLUS".toList
  | op .sub => "MINUS".toList
  | op .mul => "STAR".toList
  | op .div => "SLASH".toList
  | op .pow => "CARET".toList
  | name _ => "IDENTIFIER".toList
  | number _ => "NUMBER".toList
  | unknown _ => "UNKNOWN".toList

/-- The token's entry in a listing: label and literal, and for a number also its value. -/
def display (t : Token) : Text :=
  t.label ++ ' ' :: t.literal ++
    match t.value? with
    | some n => ' ' :: Decimal.ofNat n
    | none => []

theorem literal_ofBoundary? {c : Char} {t : Token} (h : ofBoundary? c = some t) :
    t.literal = [c] := by
  unfold ofBoundary? at h
  split at h
  · cases h; rfl
  · cases h; rfl
  · cases h; rfl
  · obtain ⟨o, ho, rfl⟩ := Option.map_eq_some_iff.1 h
    rw [literal, Operator.symbol_of_ofSymbol? ho]

@[simp] theorem literal_ofWord (w : Text) : (ofWord w).literal = w := by
  unfold ofWord
  split
  · rfl
  · split <;> rfl

/-- The token of a piece remembers the piece. -/
@[simp] theorem literal_ofPiece (p : Text) : (ofPiece p).literal = p := by
  unfold ofPiece
  split
  · next c =>
    cases h : ofBoundary? c with
    | none => simp
    | some t => simpa using literal_ofBoundary? h
  · simp

/-- The literals of the tokens are the pieces of the text. -/
@[simp] theorem map_literal_scan (s : Text) : (scan s).map literal = pieces s := by
  simp [scan, Function.comp_def]

end Token

/-! ## Well-formed infix

The grammar of expressions, on tokens and without regard to precedence: an operand, a group, or two
of these with an operator between them. Which operands an operator takes is no question here; the
grammar says only which rows of tokens are expressions at all. -/

/-- The rows of tokens that are expressions. -/
inductive IsInfix : List Token → Prop
  | number (ds : Text) : IsInfix [.number ds]
  | name (x : Text) : IsInfix [.name x]
  | group {ts : List Token} : IsInfix ts → IsInfix (.leftParen :: ts ++ [.rightParen])
  | binary {ts us : List Token} (o : Operator) :
    IsInfix ts → IsInfix us → IsInfix (ts ++ .op o :: us)

/-- No expression is empty. -/
theorem IsInfix.ne_nil {ts : List Token} (h : IsInfix ts) : ts ≠ [] := by
  cases h <;> simp

end LineCalculator
