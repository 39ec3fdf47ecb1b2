import LineCalculator.Postfix

/-!
# Expression trees

A tree says what an expression means without saying how it is written: no parentheses, no
precedences, no text. Its value is found by recursion, the left operand first, then the right one,
then the operator; the first error met in that order is the error of the tree. What the operators
mean is said here for themselves (`Operator.meaning`), and that the items of a postfix sequence
compute nothing else is a theorem (`Operator.apply_eq_meaning`).

The postorder of a tree is a postfix sequence, and running it is evaluating the tree
(`run_postorder`). The statement is about any stack below and, through `Postfix.run_append`, any
items behind, which is what an induction over a larger tree asks for.
-/

set_option autoImplicit false

namespace LineCalculator

/-- An expression: a number, a variable, or an operator on two expressions. -/
inductive Expr where
  | number (n : Int)
  | var (x : Text)
  | binary (o : Operator) (lhs rhs : Expr)
  deriving DecidableEq

/-- What an operator means: sums, differences and products are those of the integers, a quotient is
    rounded toward zero and has no value for the divisor zero, and a power is the one of the mode. -/
def Operator.meaning (mode : PowerMode) : Operator → Int → Int → Except Fault Int
  | add, a, b => .ok (a + b)
  | sub, a, b => .ok (a - b)
  | mul, a, b => .ok (a * b)
  | div, a, b => if b = 0 then .error .divisionByZero else .ok (a.tdiv b)
  | pow, a, b =>
    match mode with
    | .modular => modularPower a b
    | .exact => exactPower a b

/-- Applying an operator computes what it means. -/
theorem Operator.apply_eq_meaning (mode : PowerMode) (o : Operator) (a b : Int) :
    o.apply mode a b = o.meaning mode a b := by
  cases o with
  | add => rfl
  | sub => rfl
  | mul => rfl
  | div => rfl
  | pow => cases mode <;> rfl

namespace Expr

/-- The value of an expression. -/
def eval (mode : PowerMode) (env : Environment) : Expr → Except LineError Int
  | number n => .ok n
  | var x =>
    match env.get? x with
    | some v => .ok v
    | none => .error (.unknownVariable x)
  | binary o l r =>
    (l.eval mode env).bind fun a =>
      (r.eval mode env).bind fun b => (o.meaning mode a b).mapError .invalidExpression

/-- The items of an expression, each operator behind its operands. -/
def postorder : Expr → Postfix
  | number n => [.number n]
  | var x => [.var x]
  | binary o l r => l.postorder ++ r.postorder ++ [.op o]

/-- Running the postorder of an expression pushes its value, or fails with its error. -/
theorem run_postorder (mode : PowerMode) (env : Environment) (e : Expr) (stack : List Int) :
    Postfix.run mode env stack e.postorder = (e.eval mode env).map (· :: stack) := by
  induction e generalizing stack with
  | number n => rfl
  | var x =>
    show ((env.lookup x).map (· :: stack)).bind _ = ((env.lookup x).map _)
    cases env.lookup x <;> rfl
  | binary o l r ihl ihr =>
    rw [postorder, Postfix.run_append, Postfix.run_append, ihl, eval]
    cases l.eval mode env with
    | error e => rfl
    | ok a =>
      show ((Postfix.run mode env (a :: stack) r.postorder).bind _) = _
      rw [ihr]
      show (((r.eval mode env).map _).bind _) = ((r.eval mode env).bind _).map _
      cases r.eval mode env with
      | error e => rfl
      | ok b =>
        show ((Fault.lift (o.apply mode a b)).map _).bind _ = (Fault.lift (o.meaning mode a b)).map _
        rw [o.apply_eq_meaning]
        cases Fault.lift (o.meaning mode a b) <;> rfl

/-- The value of a postorder is the value of the expression. -/
theorem evaluate_postorder (mode : PowerMode) (env : Environment) (e : Expr) :
    e.postorder.evaluate mode env = e.eval mode env := by
  rw [Postfix.evaluate, run_postorder]
  cases e.eval mode env <;> rfl

end Expr

/-! ## How an expression may be written

An expression has many texts. Parentheses must stand where the precedences would otherwise join the
operands differently, and may stand around any part; blanks may stand between any two tokens and at
the ends; a plus is any run of signs with an even number of minuses, and a minus any run with an odd
number, blanks inside the run allowed; a number may have leading zeros.

The bound `k` in `Spells k e s` is the precedence that every operator outside parentheses reaches at
least. All operators bind to the left, so the right operand has to reach one more than the left one.
Of the precedences nothing but their order matters to what a text spells. -/

/-- Signs and blanks, at least one sign among them. -/
def IsSignRun (s : Text) : Prop :=
  (∀ c ∈ s, isSign c = true ∨ isBlank c = true) ∧ ∃ c ∈ s, isSign c = true

theorem isSignRun_singleton {c : Char} (hc : isSign c = true) : IsSignRun [c] := by
  simp [IsSignRun, hc]

/-- The texts that an operator may be written as. -/
def Operator.SpelledBy (s : Text) : Operator → Prop
  | .add => IsSignRun s ∧ s.count '-' % 2 = 0
  | .sub => IsSignRun s ∧ s.count '-' % 2 = 1
  | o => s = [o.symbol]

theorem Operator.spelledBy_symbol (o : Operator) : o.SpelledBy [o.symbol] := by
  cases o with
  | add => exact ⟨isSignRun_singleton rfl, rfl⟩
  | sub => exact ⟨isSignRun_singleton rfl, rfl⟩
  | _ => rfl

/-- The text `s` means the expression `e`, and no operator outside the parentheses of `s` has a
    precedence below `k`. -/
inductive Spells : Nat → Expr → Text → Prop
  | number {k : Nat} {ds : Text} :
    ds.isNumeral = true → Spells k (.number (Decimal.horner ds)) ds
  | name {k : Nat} {x : Text} : x.isName = true → Spells k (.var x) x
  | group {k : Nat} {e : Expr} {s : Text} : Spells 0 e s → Spells k e ('(' :: s ++ [')'])
  | binary {k : Nat} {o : Operator} {l r : Expr} {s m t : Text} :
    k ≤ o.precedence → Spells o.precedence l s → o.SpelledBy m →
    Spells (o.precedence + 1) r t → Spells k (.binary o l r) (s ++ m ++ t)
  | blanks {k : Nat} {e : Expr} {u s v : Text} :
    (∀ c ∈ u, isBlank c = true) → Spells k e s → (∀ c ∈ v, isBlank c = true) →
    Spells k e (u ++ s ++ v)

namespace Spells

variable {k : Nat}

/-- An operation with the operator written as its symbol. -/
theorem binary_symbol {o : Operator} {l r : Expr} {s t : Text} (hk : k ≤ o.precedence)
    (hl : Spells o.precedence l s) (hr : Spells (o.precedence + 1) r t) :
    Spells k (.binary o l r) (s ++ [o.symbol] ++ t) :=
  .binary hk hl o.spelledBy_symbol hr

theorem digit {c : Char} (hc : c.isDigit = true) : Spells k (.number (Decimal.horner [c])) [c] :=
  .number (by simp [Text.isNumeral, hc])

theorem letter {c : Char} (hc : c.isAlpha = true) : Spells k (.var [c]) [c] :=
  .name (by simp [Text.isName, hc])

end Spells

end LineCalculator
