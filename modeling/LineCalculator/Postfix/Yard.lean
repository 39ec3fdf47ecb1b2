import LineCalculator.LineError
import LineCalculator.Postfix

/-!
# From infix to postfix

Operands pass straight to the output; an operator waits in the yard until the operators that bind
at least as tightly and stand before it have left. An opening parenthesis waits too, and shields
what is held below it; the closing one releases everything above. So what is held is a stack in
which, within one group, precedences rise strictly towards the top.

The conversion checks parentheses and tokens, nothing else. Whether every operator has its operands
is no question of the order of tokens but of the values at hand, and belongs to evaluation:
`1 2 +` and `+ 1 2` are both converted.
-/

set_option autoImplicit false

namespace LineCalculator

/-- What waits in the yard: the start of a group, or an operator. -/
inductive Held where
  | group
  | op (o : Operator)
  deriving DecidableEq

/-- The state of a conversion. -/
structure Yard where
  /-- What waits, the most recent first. -/
  held : List Held
  /-- What has left, the most recent first. -/
  output : List Item
  deriving DecidableEq

namespace Yard

/-- The yard before the first token. -/
def empty : Yard := ⟨[], []⟩

/-- Send an operand to the output. -/
def emit (y : Yard) (i : Item) : Yard := { y with output := i :: y.output }

/-- Let everything down to the nearest open group leave, and close that group. -/
def close : List Held → List Item → Except Fault Yard
  | [], _ => .error .unmatchedRightParen
  | .group :: held, out => .ok ⟨held, out⟩
  | .op o :: held, out => close held (.op o :: out)

/-- Let the operators on top leave for as long as they bind at least as tightly as `o`. -/
def release (o : Operator) : List Held → List Item → Yard
  | .op q :: held, out =>
    if o.precedence ≤ q.precedence then release o held (.op q :: out) else ⟨.op q :: held, out⟩
  | held, out => ⟨held, out⟩

/-- Hold one more operator on top. -/
def hold (y : Yard) (h : Held) : Yard := { y with held := h :: y.held }

/-- Take in an operator: at the start of a group, or above one that binds less tightly, it is held
    at once; else those that bind at least as tightly leave first. -/
def pushOperator (y : Yard) (o : Operator) : Yard :=
  match y.held with
  | .op q :: _ =>
    if q.precedence < o.precedence then y.hold (.op o)
    else (release o y.held y.output).hold (.op o)
  | _ => y.hold (.op o)

/-- Take in one token. -/
def feed (y : Yard) : Token → Except Fault Yard
  | .number ds => .ok (y.emit (.number (Decimal.numeralValue ds)))
  | .name x => .ok (y.emit (.var x))
  | .leftParen => .ok (y.hold .group)
  | .rightParen => close y.held y.output
  | .op o => .ok (y.pushOperator o)
  | .equals => .error .strayEquals
  | .unknown w => .error (.unknownToken w)

/-- Let everything leave at the end. A group that is still open was never closed. -/
def drain : List Held → List Item → Except Fault Postfix
  | [], out => .ok out.reverse
  | .group :: _, _ => .error .unclosedLeftParen
  | .op o :: held, out => drain held (.op o :: out)

/-- Take in tokens from left to right; the first one that is refused ends it. -/
def feedAll (y : Yard) (ts : List Token) : Except Fault Yard := ts.foldlM feed y

@[simp] theorem feedAll_cons (y : Yard) (t : Token) (ts : List Token) :
    y.feedAll (t :: ts) = (y.feed t).bind fun z => z.feedAll ts := rfl

/-- Two lists of tokens in a row are taken in one after the other. -/
theorem feedAll_append (y : Yard) (ts us : List Token) :
    y.feedAll (ts ++ us) = (y.feedAll ts).bind fun z => z.feedAll us := by
  induction ts generalizing y with
  | nil => rfl
  | cons t ts ih =>
    rw [List.cons_append, feedAll_cons, feedAll_cons]
    cases y.feed t with
    | error f => rfl
    | ok z => exact ih z

end Yard

/-- The postfix sequence of a list of tokens. -/
def Postfix.ofTokens (ts : List Token) : Except Fault Postfix :=
  (Yard.empty.feedAll ts).bind fun y => Yard.drain y.held y.output

/-- The postfix sequence of a text. -/
def Postfix.ofText (s : Text) : Except Fault Postfix := ofTokens (Token.scan s)

end LineCalculator
