import LineCalculator.Operator
import LineCalculator.Text.Decimal

/-!
# What can be wrong with a line

A line fails for one of four reasons, each with a fixed message. An invalid expression also has a
fault, the precise cause, which shows only in the help text. The constructors carry what the texts
need and no more, so two errors are equal exactly when the same thing is wrong.
-/

set_option autoImplicit false

namespace LineCalculator

/-- Why an expression has no value. -/
inductive Fault where
  /-- A closing parenthesis that closes nothing. -/
  | unmatchedRightParen
  /-- An opening parenthesis that nothing closes. -/
  | unclosedLeftParen
  /-- An operator with fewer than two values before it. -/
  | missingOperand (o : Operator)
  | divisionByZero
  /-- An equals sign, which is no operator. -/
  | strayEquals
  /-- A word that is neither a name nor a numeral. -/
  | unknownToken (word : Text)
  /-- No value at all. -/
  | empty
  /-- Values to which no operator was applied, with their number. -/
  | leftoverOperands (count : Nat)
  /-- A negative power of a base that has no inverse modulo ten. -/
  | notInvertible (base : Int)
  /-- A negative exponent where powers are exact. -/
  | negativeExponent (exponent : Int)
  /-- An exact power that would have too many digits. -/
  | exponentTooLarge (exponent : Int)
  deriving DecidableEq

/-- What is wrong with a line. -/
inductive LineError where
  | invalidExpression (fault : Fault)
  | invalidIdentifier (name : Text)
  /-- An assignment of something other than a number or a variable; carries the whole line. -/
  | invalidAssignment (line : Text)
  | unknownVariable (name : Text)
  deriving DecidableEq

/-- The text between back quotes. -/
private def quoted (s : Text) : Text := '\x60' :: s ++ ['\x60']

/-- The explanation of a fault. -/
def Fault.explanation : Fault → Text
  | unmatchedRightParen => quoted [')'] ++ " has no matching ".toList ++ quoted ['(']
  | unclosedLeftParen => quoted ['('] ++ " is never closed".toList
  | missingOperand o => "operator ".toList ++ quoted [o.symbol] ++ " is missing an operand".toList
  | divisionByZero => "division by zero".toList
  | strayEquals => "unknown operator ".toList ++ quoted ['=']
  | unknownToken w => quoted w ++ " is neither a number nor an identifier".toList
  | empty => "nothing to evaluate".toList
  | leftoverOperands k => Decimal.ofNat k ++ " values are left without an operator".toList
  | notInvertible b => quoted (Decimal.ofInt b) ++ " has no inverse modulo 10".toList
  | negativeExponent e => "negative exponent ".toList ++ quoted (Decimal.ofInt e)
  | exponentTooLarge e =>
    "exponent ".toList ++ quoted (Decimal.ofInt e) ++ " is too large".toList

namespace LineError

/-- The message for the user, one for each kind of error. -/
def message : LineError → Text
  | invalidExpression _ => "Invalid expression".toList
  | invalidIdentifier _ => "Invalid identifier".toList
  | invalidAssignment _ => "Invalid assignment".toList
  | unknownVariable _ => "Unknown variable".toList

/-- The code of the kind of error, for tools. -/
def code : LineError → Text
  | invalidExpression _ => "calc::invalid_expression".toList
  | invalidIdentifier _ => "calc::invalid_identifier".toList
  | invalidAssignment _ => "calc::invalid_assignment".toList
  | unknownVariable _ => "calc::unknown_variable".toList

/-- What exactly is wrong, or what to do about it. -/
def help : LineError → Text
  | invalidExpression f => f.explanation
  | invalidIdentifier x => "identifiers are latin letters only, got ".toList ++ quoted x
  | invalidAssignment l =>
    "assign a number or a variable: ".toList ++ quoted "name = value".toList ++
      ", got ".toList ++ quoted l
  | unknownVariable x => "assign ".toList ++ quoted x ++ " before using it".toList

end LineError

end LineCalculator
