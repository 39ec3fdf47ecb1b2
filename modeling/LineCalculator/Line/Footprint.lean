import LineCalculator.Line
import LineCalculator.NormalForm
import LineCalculator.Token

/-!
# What a line reads and writes

A line can depend on the variables that it names and on no others, and can change one variable at
most. Both are read off its shape, before anything is evaluated: an expression reads every name
among its tokens, also one that an error keeps from being looked up.
-/

set_option autoImplicit false

namespace LineCalculator

/-- The names among the tokens of an expression, from left to right. -/
def Token.names (ts : List Token) : List Text :=
  ts.filterMap fun
    | .name x => some x
    | _ => none

namespace Line

/-- The variables that a line asks for. -/
def reads : Line → List Text
  | lookup x => [x]
  | assignment _ (.var x) => [x]
  | expression s => Token.names (Token.scan s)
  | _ => []

/-- The variable that a line defines, if it succeeds. -/
def writes : Line → List Text
  | assignment x _ => [x]
  | _ => []

end Line

/-- What a line as it was typed reads; one that fits no shape reads nothing. -/
def readsOf (line : Text) : List Text :=
  match Line.classify (normalize line) with
  | .ok l => l.reads
  | .error _ => []

/-- What a line as it was typed writes. -/
def writesOf (line : Text) : List Text :=
  match Line.classify (normalize line) with
  | .ok l => l.writes
  | .error _ => []

/-- Neither line writes what the other one reads or writes. -/
structure Apart (line line' : Text) : Prop where
  left : ∀ x ∈ writesOf line, x ∉ readsOf line' ∧ x ∉ writesOf line'
  right : ∀ x ∈ writesOf line', x ∉ readsOf line ∧ x ∉ writesOf line

end LineCalculator
