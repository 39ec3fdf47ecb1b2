/-!
# Operators

Five binary operators. All of them bind to the left, the power included, so one number each, the
precedence, is all that the conversion to postfix needs to know about them.
-/

set_option autoImplicit false

namespace LineCalculator

/-- The binary operators. -/
inductive Operator where
  | add
  | sub
  | mul
  | div
  | pow
  deriving DecidableEq

namespace Operator

/-- The character that stands for the operator, read and written. -/
def symbol : Operator → Char
  | add => '+'
  | sub => '-'
  | mul => '*'
  | div => '/'
  | pow => '^'

/-- The operator that a character stands for. -/
def ofSymbol? : Char → Option Operator
  | '+' => some add
  | '-' => some sub
  | '*' => some mul
  | '/' => some div
  | '^' => some pow
  | _ => none

/-- How tightly the operator binds; a greater number binds tighter. -/
def precedence : Operator → Nat
  | add | sub => 2
  | mul | div => 10
  | pow => 11

theorem symbol_of_ofSymbol? {c : Char} {o : Operator} (h : ofSymbol? c = some o) :
    o.symbol = c := by
  unfold ofSymbol? at h
  split at h <;> simp at h <;> subst h <;> rfl

end Operator

end LineCalculator
