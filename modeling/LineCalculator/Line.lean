import LineCalculator.LineError

/-!
# The shapes of a line

What a line is shows before it is cut into tokens. The first shape that fits wins: a line with an
equals sign is an assignment or an error, a signed numeral is a number, a bare word is a look-up
if it is a name and an error if not, and everything else is an expression.

On the right of an assignment stands a number or the name of a variable, with at most one sign. A
sign before a name is not an operation: it belongs to the text that is looked up, so `b = -a` asks
for a variable with the name `-a`.
-/

set_option autoImplicit false

namespace LineCalculator

/-- The right-hand side of an assignment. -/
inductive Source where
  | number (n : Int)
  /-- A variable, by the text as it stands, a sign included. -/
  | var (x : Text)
  deriving DecidableEq

/-- What a line asks for. -/
inductive Line where
  | blank
  | number (n : Int)
  /-- The value of a variable. -/
  | lookup (x : Text)
  | assignment (name : Text) (source : Source)
  | expression (text : Text)
  deriving DecidableEq

namespace Line

/-- The source that a right-hand side names: the integer that it denotes, or else a variable. -/
def sourceOf (value : Text) : Source :=
  match Decimal.readInt? value with
  | some n => .number n
  | none => .var value

/-- A line with an equals sign; `name` and `value` are the trimmed sides of the first one. The left
    side is judged before the right one. -/
def ofSides (line name value : Text) : Except LineError Line :=
  if name.isName then
    let bare := (Decimal.dropSign value).trimBlanks
    if bare.isName || bare.isNumeral then .ok (.assignment name (sourceOf value))
    else .error (.invalidAssignment line)
  else .error (.invalidIdentifier name)

/-- Whether a text is digits with at most one sign before them. -/
def isSignedInteger (s : Text) : Bool := (Decimal.dropSign s).isNumeral

/-- A line that is neither blank nor has an equals sign. What has the shape of an integer but cannot
    be read as one would be an expression; there is no such text (`ofWords_of_isSignedInteger`). -/
def ofWords (line : Text) : Except LineError Line :=
  if isSignedInteger line then
    match Decimal.readInt? line with
    | some n => .ok (.number n)
    | none => .ok (.expression line)
  else if line.isBareWord then
    if line.isName then .ok (.lookup line) else .error (.invalidIdentifier line)
  else .ok (.expression line)

/-- The shape of a text without blanks at its ends. -/
def ofTrimmed (line : Text) : Except LineError Line :=
  if line.isEmpty then .ok .blank
  else
    match line.dropWhile (· != '=') with
    | _ :: value =>
      ofSides line (Text.trimBlanks (line.takeWhile (· != '='))) (Text.trimBlanks value)
    | [] => ofWords line

/-- The shape of a line. -/
def classify (s : Text) : Except LineError Line := ofTrimmed s.trimBlanks

end Line

/-! ## The grammar of lines

What a line in its normal form says, one rule for each shape. The rules exclude each other, so
their order is nothing to remember: each says what the text is, and not what the rules before it
have left over. All that a rule hands on, a name, a right-hand side or the text of an error, is a
piece of the line as it stands, and an integer is the value of its digits. -/

/-- The text is digits with at most one sign before them, and denotes the integer. -/
inductive SignedNumeral : Text → Int → Prop
  | plain {ds : Text} : ds.isNumeral = true → SignedNumeral ds (Decimal.horner ds)
  | plus {ds : Text} : ds.isNumeral = true → SignedNumeral ('+' :: ds) (Decimal.horner ds)
  | minus {ds : Text} : ds.isNumeral = true → SignedNumeral ('-' :: ds) (-(Decimal.horner ds : Int))

/-- The text is a name with at most one sign before it. -/
inductive SignedName : Text → Prop
  | plain {x : Text} : x.isName = true → SignedName x
  | signed {c : Char} {x : Text} : isSign c = true → x.isName = true → SignedName (c :: x)

/-- What a line says: what it asks for, or what is wrong with it. In the rules for lines with an
    equals sign, `l` and `r` are the two sides of the first one. -/
inductive Line.Says : Text → Except LineError Line → Prop
  | blank : Says [] (.ok .blank)
  | badName {l r : Text} :
    '=' ∉ l → l.isName = false → Says (l ++ '=' :: r) (.error (.invalidIdentifier l))
  | badSource {l r : Text} :
    l.isName = true → (∀ n, ¬ SignedNumeral r n) → ¬ SignedName r →
    Says (l ++ '=' :: r) (.error (.invalidAssignment (l ++ '=' :: r)))
  | assignNumber {l r : Text} {n : Int} :
    l.isName = true → SignedNumeral r n → Says (l ++ '=' :: r) (.ok (.assignment l (.number n)))
  | assignVar {l r : Text} :
    l.isName = true → SignedName r → Says (l ++ '=' :: r) (.ok (.assignment l (.var r)))
  | number {s : Text} {n : Int} : SignedNumeral s n → Says s (.ok (.number n))
  | lookup {s : Text} : s.isName = true → Says s (.ok (.lookup s))
  | badWord {s : Text} :
    s.isBareWord = true → s.isName = false → s.isNumeral = false →
    Says s (.error (.invalidIdentifier s))
  | expression {s : Text} :
    s ≠ [] → '=' ∉ s → (∀ n, ¬ SignedNumeral s n) → s.isBareWord = false →
    Says s (.ok (.expression s))

end LineCalculator
